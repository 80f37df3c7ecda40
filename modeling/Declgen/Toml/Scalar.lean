import Declgen.Toml.Moment
import Declgen.Toml.Number
import Declgen.Toml.Quoted

/-!
# Values without quotes

Truth values, numbers, dates and times stand in a document without quotes. Such a value goes on
to the end of its line or the next mark, with blanks inside if need be, because a date and a time
may have a blank between them.
-/

namespace Declgen.Toml

open Text

/-- Whether a text goes on after the digits at its start like a date or a time. -/
def isMomentLike (cs : List Char) : Bool :=
  match cs.dropWhile Char.isDigit with
  | c :: _ => (c == '-' || c == ':') && cs.head?.any Char.isDigit
  | [] => false

/-- The value of a text without quotes. -/
def scalar? (cs : List Char) : Option Value :=
  if cs = ['t', 'r', 'u', 'e'] then some (.bool true)
  else if cs = ['f', 'a', 'l', 's', 'e'] then some (.bool false)
  else if isMomentLike cs then if isMoment cs then some .moment else none
  else number? cs

/-- Whether a character may stand in a value without quotes. -/
def isWordChar (c : Char) : Bool :=
  !(c == '=' || c == ',' || c == '[' || c == ']' || c == '\x7b' || c == '\x7d' || c == '#' ||
    isSpace c || c == '\n' || c == '\r')

/-- Whether a character may start another word of a value without quotes. -/
def isWordStart (c : Char) : Bool := isWordChar c && c != '"' && c != '\''

/-- Reads words with blanks between them. The fuel bounds their number. -/
def readWords : Nat → List Char → List Char × List Char
  | 0, cs => ([], cs)
  | n + 1, cs =>
    let word := cs.takeWhile isWordChar
    let rest := cs.dropWhile isWordChar
    if (rest.dropWhile isSpace).head?.any isWordStart then
      let (words, after) := readWords n (rest.dropWhile isSpace)
      (word ++ rest.takeWhile isSpace ++ words, after)
    else (word, rest)

/-- Reads a value without quotes. -/
def readScalar (cs : List Char) : Reading Value :=
  let (words, rest) := readWords cs.length cs
  (scalar? words).map fun value => (value, rest)

end Declgen.Toml
