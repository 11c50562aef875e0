/-!
# The double nearest to a fraction

Decimal text denotes a fraction; the double it is read as is the nearest one, and of two equally
near ones the one with an even significand. All steps are exact in natural numbers.
-/

namespace ScriptDebug.Decimal

/-- The quotient rounded to the nearest integer, a half going to the even neighbour. -/
def roundDiv (num den : Nat) : Nat :=
  let q := num / den
  let r := num % den
  if 2 * r < den then q
  else if den < 2 * r then q + 1
  else if q % 2 = 0 then q else q + 1

/-- The quotient `num / den` scaled by `2 ^ k`, as a fraction. -/
def scaleTwo (num den : Nat) (k : Int) : Nat × Nat :=
  if 0 ≤ k then (num * Nat.pow 2 k.toNat, den) else (num, den * Nat.pow 2 (-k).toNat)

/-- The scale at which the quotient has 53 binary digits, or the finest scale there is. -/
def binaryScale (num den : Nat) : Int :=
  let k : Int := 52 + den.log2 - num.log2
  let (n, d) := scaleTwo num den k
  let k := if n / d < Nat.pow 2 52 then k + 1 else k
  min k 1074

/-- The bit pattern of the double nearest to `num / den`. -/
def nearestBits (num den : Nat) : Nat :=
  if num = 0 then 0
  else
    let k := binaryScale num den
    let (n, d) := scaleTwo num den k
    let bits := (1074 - k).toNat * Nat.pow 2 52 + roundDiv n d
    min bits (2047 * Nat.pow 2 52)

/-- The double nearest to `significand · 10 ^ exponent`, where the number of digits of the
significand bounds how far the exponent has to be followed. -/
def toFloat (significand : Nat) (exponent : Int) : Float :=
  let magnitude : Int := exponent + significand.log2 * 30103 / 100000
  if significand = 0 || magnitude < -400 then Float.ofBits 0
  else if 400 < magnitude then Float.ofBits 0x7ff0000000000000
  else if 0 ≤ exponent then
    Float.ofBits (nearestBits (significand * Nat.pow 10 exponent.toNat) 1).toUInt64
  else
    Float.ofBits (nearestBits significand (Nat.pow 10 (-exponent).toNat)).toUInt64

end ScriptDebug.Decimal
