import Declgen.Text.Reading
import Declgen.Toml.Value

/-!
# Numbers

Numbers stand in a document without quotes, with underscores between their digits. The reader is
strict with floating-point numbers. Of an integer with underscores it wants digits only next to
the underscores, and after the mark of a base it wants none at all: what is no integer then is
still a value.
-/

namespace Declgen.Toml

open Text

/-- Whether a character is a digit of a base. -/
def isDigitOf (base : Nat) (c : Char) : Bool :=
  match hexDigit? c with
  | some n => n < base
  | none => false

/-- Whether all underscores stand between digits, where `after` says whether one may come
first. -/
def underscoresFit (isDigit : Char → Bool) (after : Bool) : List Char → Bool
  | [] => true
  | c :: rest =>
    if c = '_' then after && rest.head?.any isDigit && underscoresFit isDigit false rest
    else underscoresFit isDigit (isDigit c) rest

/-- Whether no underscore of a number stands at its start, and all others between digits. One
may follow the first character, which is a digit or a sign. -/
def isSeparated (isDigit : Char → Bool) : List Char → Bool
  | [] => true
  | c :: rest => c != '_' && underscoresFit isDigit true rest

/-- The text without its underscores. -/
def withoutUnderscores (cs : List Char) : List Char := cs.filter (· != '_')

/-- The value of digits of a base, if there are any and nothing else. -/
def digits? (base : Nat) (ds : List Char) : Option Int :=
  if !ds.isEmpty && ds.all (isDigitOf base) then some (digitsValue base ds) else none

/-- The value of decimal digits after a sign or none. -/
def signed? : List Char → Option Int
  | '-' :: ds => (digits? 10 ds).map fun n => -n
  | '+' :: ds => digits? 10 ds
  | ds => digits? 10 ds

/-- A number as a value: an integer, if it is one. -/
def ofInteger? : Option Int → Value
  | some n => .integer n
  | none => .improper

/-- The value of what follows the mark of a base. -/
def based? (base : Nat) (cs : List Char) : Option Value :=
  if cs.all (fun c => c == '_' || isDigitOf base c) && isSeparated (isDigitOf base) cs then
    some (ofInteger? (digits? base (withoutUnderscores cs)))
  else none

/-- The text without a sign at its start. -/
def dropSign : List Char → List Char
  | '+' :: cs => cs
  | '-' :: cs => cs
  | cs => cs

/-- Whether a character may stand among the digits of a floating-point number. -/
def isDigitOrUnderscore (c : Char) : Bool := c.isDigit || c == '_'

/-- Whether digits follow, and the text after them. Underscores do not count, and more than one
digit starts with zero only if `padded` holds. -/
def afterDigits? (padded : Bool) (cs : List Char) : Option (List Char) :=
  let ds := cs.takeWhile isDigitOrUnderscore
  let count := (withoutUnderscores ds).length
  if count = 0 || (1 < count && cs.head? = some '0' && !padded) then none
  else some (cs.dropWhile isDigitOrUnderscore)

/-- The text after the fraction that a text may start with. -/
def afterFractionPart? : List Char → Option (List Char)
  | '.' :: cs => afterDigits? true cs
  | cs => some cs

/-- The text after the exponent that a text may start with. -/
def afterExponentPart? : List Char → Option (List Char)
  | [] => some []
  | c :: cs => if c = 'e' || c = 'E' then afterDigits? true (dropSign cs) else some (c :: cs)

/-- Whether a text without a sign is a floating-point number, up to its underscores. -/
def isFloatBody (cs : List Char) : Bool :=
  (((afterDigits? false cs).bind afterFractionPart?).bind afterExponentPart?) = some []

/-- The value of a text that goes on with `rest` after the digits at its start. It is a
floating-point number if a point or an exponent follows, or else an integer: digits alone, or
digits with an underscore after them. -/
def decimal? (cs rest : List Char) : Option Value :=
  if rest.contains ' ' then none
  else if rest.any fun c => c == '.' || c == 'e' || c == 'E' then
    if isFloatBody (dropSign cs) && isSeparated Char.isDigit cs then some .float else none
  else if (dropSign cs).head? = some '0' && 1 < (dropSign cs).length then none
  else if rest.isEmpty || rest.head? = some '_' then
    if isSeparated (isDigitOf 16) cs then some (ofInteger? (signed? (withoutUnderscores cs)))
    else none
  else none

/-- The text after the digits at its start, after a sign or none. -/
def afterWhole (cs : List Char) : List Char := (dropSign cs).dropWhile Char.isDigit

/-- The value of a number. -/
def number? : List Char → Option Value
  | '0' :: 'x' :: cs => based? 16 cs
  | '0' :: 'o' :: cs => based? 8 cs
  | '0' :: 'b' :: cs => based? 2 cs
  | cs =>
    if dropSign cs = ['i', 'n', 'f'] || dropSign cs = ['n', 'a', 'n'] then some .float
    else if (dropSign cs).head?.any isDigitOrUnderscore then decimal? cs (afterWhole cs)
    else none

end Declgen.Toml
