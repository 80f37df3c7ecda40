import Declgen.Text.Reading

/-!
# Dates and times

A moment is a date, a time, or both with or without an offset from universal time. It has to be a
possible one. The seconds may be left out, and with them their fraction.
-/

namespace Declgen.Toml

open Text

/-- The value of two digits. -/
def pair? (a b : Char) : Option Nat :=
  if a.isDigit && b.isDigit then some (digitsValue 10 [a, b]) else none

/-- The number of days of a month. -/
def daysIn (year month : Nat) : Nat :=
  if month = 2 then
    if year % 4 = 0 && (year % 100 ≠ 0 || year % 400 = 0) then 29 else 28
  else if month = 4 || month = 6 || month = 9 || month = 11 then 30
  else 31

/-- Whether there is such a day. -/
def isDay (year month day : Nat) : Bool :=
  1 ≤ month && month ≤ 12 && 1 ≤ day && day ≤ daysIn year month

/-- What follows the date that a text starts with. -/
def afterDate? : List Char → Option (List Char)
  | a :: b :: c :: d :: '-' :: e :: f :: '-' :: g :: h :: rest => do
    let century ← pair? a b
    let year ← pair? c d
    let month ← pair? e f
    let day ← pair? g h
    if isDay (century * 100 + year) month day then some rest else none
  | _ => none

/-- What follows the hours and minutes that a text starts with. -/
def afterMinutes? : List Char → Option (List Char)
  | a :: b :: ':' :: c :: d :: rest => do
    let hour ← pair? a b
    let minute ← pair? c d
    if hour ≤ 23 && minute ≤ 59 then some rest else none
  | _ => none

/-- What follows the fraction of a second that a text may start with. -/
def afterFraction? : List Char → Option (List Char)
  | '.' :: c :: rest => if c.isDigit then some (rest.dropWhile Char.isDigit) else none
  | '.' :: [] => none
  | cs => some cs

/-- What follows the seconds that a text starts with. A minute may have a leap second. -/
def afterSeconds? : List Char → Option (List Char)
  | e :: f :: rest => do
    let second ← pair? e f
    if second ≤ 60 then afterFraction? rest else none
  | _ => none

/-- What follows the time that a text starts with. -/
def afterTime? (cs : List Char) : Option (List Char) :=
  match afterMinutes? cs with
  | some (':' :: rest) => afterSeconds? rest
  | rest => rest

/-- Whether a text is empty or an offset from universal time. -/
def isOffset : List Char → Bool
  | [] => true
  | ['Z'] | ['z'] => true
  | '+' :: cs => afterMinutes? cs = some []
  | '-' :: cs => afterMinutes? cs = some []
  | _ => false

/-- Whether a text is a date, a time, or a date and a time. -/
def isMoment (cs : List Char) : Bool :=
  match afterDate? cs with
  | some [] => true
  | some (c :: rest) =>
    (c == 'T' || c == 't' || c == ' ') && (match afterTime? rest with
      | some rest => isOffset rest
      | none => false)
  | none => afterTime? cs = some []

end Declgen.Toml
