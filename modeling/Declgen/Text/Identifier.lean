/-!
# Identifiers

An identifier consists of ASCII letters, digits, `_` and `$`, and does not start with a digit.
-/

namespace Declgen.Text

/-- Whether an identifier may start with a character. -/
def isIdentifierStart (c : Char) : Bool := c.isAlpha || c == '_' || c == '$'

/-- Whether a character may stand after the first one of an identifier. -/
def isIdentifierRest (c : Char) : Bool := c.isAlphanum || c == '_' || c == '$'

/-- Whether a text is an identifier. -/
def isIdentifier (s : String) : Bool :=
  match s.toList with
  | [] => false
  | c :: rest => isIdentifierStart c && rest.all isIdentifierRest

end Declgen.Text
