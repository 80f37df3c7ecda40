import Declgen.Double
import Declgen.Json.Value
import Declgen.Text.Reading

/-!
# Reading JSON numbers

A number has an integer part, and it may have a fraction and an exponent. Its size is judged by
its leading digits only, as many as a word of 64 bits holds, and a number that is too large for a
double is refused.
-/

namespace Declgen.Json

open Text

/-- Reads digits as far as they go. -/
def readDigits (cs : List Char) : List Char × List Char :=
  (cs.takeWhile Char.isDigit, cs.dropWhile Char.isDigit)

/-- Reads the integer part of a number: one zero, or digits that do not start with zero. -/
def readIntegerPart (cs : List Char) : Reading (List Char) :=
  match readDigits cs with
  | ([], _) => none
  | (['0'], rest) => some (['0'], rest)
  | ('0' :: _, _) => none
  | (ds, rest) => some (ds, rest)

/-- Reads the digits after a decimal point, if there is one. -/
def readFractionPart (cs : List Char) : Reading (Option (List Char)) :=
  match cs with
  | '.' :: rest =>
    match readDigits rest with
    | ([], _) => none
    | (ds, rest) => some (some ds, rest)
  | _ => some (none, cs)

/-- Reads the sign of an exponent: whether it is negative. -/
def readExponentSign : List Char → Bool × List Char
  | '+' :: rest => (false, rest)
  | '-' :: rest => (true, rest)
  | rest => (false, rest)

/-- Reads an exponent, if there is one. -/
def readExponentPart (cs : List Char) : Reading (Option Int) :=
  match cs with
  | c :: rest =>
    if c = 'e' || c = 'E' then
      let (negative, rest) := readExponentSign rest
      match readDigits rest with
      | ([], _) => none
      | (ds, rest) =>
        let n : Int := digitsValue 10 ds
        some (some (if negative then -n else n), rest)
    else some (none, cs)
  | [] => some (none, [])

/-- Appends digits to a number as long as it fits in 64 bits, and gives the digits left over. -/
def appendDigits (n : Nat) : List Char → Nat × List Char
  | [] => (n, [])
  | d :: ds =>
    let longer := n * 10 + digitsValue 10 [d]
    if longer < Nat.pow 2 64 then appendDigits longer ds else (n, d :: ds)

/-- Whether a number is not too large. The digits that are left over count only for the place of
the leading ones. -/
def isInRange (whole fraction : List Char) (exponent : Int) : Bool :=
  let (digits, dropped) := appendDigits 0 whole
  let (digits, unused) := appendDigits digits fraction
  let places : Int := fraction.length - unused.length
  isFiniteScaled digits (dropped.length - places + exponent)

/-- The value of a number given by its parts. -/
def numberValue (negative : Bool) (whole : List Char) (fraction : Option (List Char))
    (exponent : Option Int) : Option Value :=
  if !isInRange whole (fraction.getD []) (exponent.getD 0) then none
  else
    match fraction, exponent with
    | none, none =>
      let n : Int := digitsValue 10 whole
      if negative then some (if n = 0 then .fraction else .integer (-n)) else some (.integer n)
    | _, _ => some .fraction

/-- Reads a number without its sign. -/
def readUnsigned (negative : Bool) (cs : List Char) : Option (Value × List Char) := do
  let (whole, cs) ← readIntegerPart cs
  let (fraction, cs) ← readFractionPart cs
  let (exponent, cs) ← readExponentPart cs
  let value ← numberValue negative whole fraction exponent
  pure (value, cs)

end Declgen.Json
