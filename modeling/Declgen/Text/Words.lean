import Declgen.Text.Alphanumeric
import Declgen.Text.CaseMap
import Declgen.Text.Split

/-!
# Words and letter case

Source names come in many styles. A name is cut into words at every character that is neither
a letter nor a number, and before a capital that starts a new hump, as in `order|Line` and
`HTTP|Server`. From there it is written in one of three styles: `OrderLine`, `orderLine` and
`order-line`.
-/

namespace Declgen.Text

/-- Whether a capital after `previous` and before `next` starts a new word. -/
def startsHump (previous : Char) (next : Option Char) : Bool :=
  isLowercase previous || previous.isDigit || (isUppercase previous && next.any isLowercase)

/-- The words of a text whose current word, backwards, is `current`. -/
def wordsFrom : List Char → List Char → List (List Char)
  | [], [] => []
  | current, [] => [current.reverse]
  | [], c :: rest =>
    if isAlphanumeric c then wordsFrom [c] rest else wordsFrom [] rest
  | previous :: earlier, c :: rest =>
    if !isAlphanumeric c then (previous :: earlier).reverse :: wordsFrom [] rest
    else if isUppercase c && startsHump previous rest.head? then
      (previous :: earlier).reverse :: wordsFrom [c] rest
    else wordsFrom (c :: previous :: earlier) rest

/-- The words of a text. -/
def words (cs : List Char) : List (List Char) := wordsFrom [] cs

/-- The word with its first character in uppercase and the others kept. -/
def capitalise : List Char → List Char
  | [] => []
  | c :: rest => upperChars c ++ rest

/-- The stretches of letters and numbers, each capitalised, one after the other. -/
def pascal (cs : List Char) : List Char :=
  ((splitWhere (!isAlphanumeric ·) cs).map capitalise).flatten

/-- How many of the leading capitals a name in camel case has in lowercase. An acronym goes
down as a whole, but the capital that starts the next word stays. -/
def camelHead (cs : List Char) : Nat :=
  let capitals := (cs.takeWhile isUppercase).length
  if capitals ≤ 1 then capitals
  else if (cs.drop capitals).head?.any isLowercase then capitals - 1
  else capitals

/-- Pascal case with its leading capital or acronym in lowercase, character by character. -/
def camel (cs : List Char) : List Char :=
  let name := pascal cs
  (name.take (camelHead name)).flatMap lowerChars ++ name.drop (camelHead name)

/-- The words in lowercase with a hyphen between them. -/
def kebab (cs : List Char) : List Char :=
  ['-'].intercalate ((words cs).map lower)

end Declgen.Text
