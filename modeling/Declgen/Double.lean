/-!
# Doubles

Natural numbers are rounded to doubles, which have 53 significant bits. Only the size of doubles
matters here: when a product of two of them is no longer finite.
-/

namespace Declgen

/-- The nearest number with at most 53 significant bits; halfway between two of them, the one
with the even half. -/
def roundDouble (n : Nat) : Nat :=
  let unit := Nat.pow 2 (n.log2 - 52)
  let units := n / unit
  let excess := 2 * (n % unit)
  if unit < excess || (excess = unit && units % 2 = 1) then (units + 1) * unit else units * unit

/-- The least number that rounds to no finite double. -/
def doubleLimit : Nat := Nat.pow 2 1024 - Nat.pow 2 970

/-- The largest power of ten that is a finite double. -/
def largestPower : Nat := 308

/-- Whether the double nearest to `digits`, times the double nearest to the power of ten with
this exponent, is finite. A power below one makes no number too large. -/
def isFiniteScaled (digits : Nat) (exponent : Int) : Bool :=
  if digits = 0 || exponent < 0 then true
  else if largestPower < exponent then false
  else roundDouble digits * roundDouble (Nat.pow 10 exponent.toNat) < doubleLimit

end Declgen
