/-!
# The fewest digits that read back

A double is written with the fewest decimal digits that denote it among all doubles, and with the
nearest of those to its exact value. The search runs over grids of one, two, … decimal digits in
exact natural numbers: on each grid only the two neighbours of the value can lie between the
midpoints to the next doubles.
-/

namespace ScriptDebug.Decimal

/-- **Decimal digits.** The number `d₁.d₂d₃… · 10 ^ exponent`, digits without trailing zeros. -/
structure Digits where
  digits : List Char
  exponent : Int
  deriving DecidableEq, Repr

/-- The numbers that read as one double: all between `low / unit` and `high / unit`, with the
value of the double at `mid / unit`; the ends count iff `closed`. -/
structure Interval where
  low : Nat
  mid : Nat
  high : Nat
  unit : Nat
  closed : Bool

/-- The interval of the positive double `mantissa · 2 ^ exponent`. At a power of two the double
below is only half as far away as the one above. -/
def Interval.ofBinary (mantissa : Nat) (exponent : Int) (powerOfTwo : Bool) : Interval :=
  let scale := Nat.pow 2 (exponent - 2).toNat
  { low := (4 * mantissa - if powerOfTwo then 1 else 2) * scale
    mid := 4 * mantissa * scale
    high := (4 * mantissa + 2) * scale
    unit := Nat.pow 2 (2 - exponent).toNat
    closed := mantissa % 2 == 0 }

/-- The interval of the finite positive double with these bits. -/
def Interval.ofBits (bits : Nat) : Interval :=
  let fraction : Nat := bits % Nat.pow 2 52
  let biased : Nat := bits / Nat.pow 2 52 % 2048
  if biased = 0 then .ofBinary fraction (-1074) false
  else .ofBinary (Nat.pow 2 52 + fraction) (biased - 1075) (fraction == 0 && 1 < biased)

/-- The interval in units of `10 ^ step`. -/
def Interval.onGrid (i : Interval) (step : Int) : Interval :=
  if 0 ≤ step then { i with unit := i.unit * Nat.pow 10 step.toNat }
  else
    let p := Nat.pow 10 (-step).toNat
    { i with low := i.low * p, mid := i.mid * p, high := i.high * p }

/-- Whether the integer `n`, in units of the interval, lies in it. -/
def Interval.holds (i : Interval) (n : Nat) : Bool :=
  let v := n * i.unit
  if i.closed then i.low ≤ v && v ≤ i.high else i.low < v && v < i.high

/-- The integer of the interval nearest to its middle, if there is one. -/
def Interval.pick? (i : Interval) : Option Nat :=
  let below := i.mid / i.unit
  let above := below + 1
  match i.holds below, i.holds above with
  | true, true =>
    let r := 2 * (i.mid % i.unit)
    if r < i.unit then some below
    else if i.unit < r then some above
    else if below % 2 = 0 then some below else some above
  | true, false => some below
  | false, true => some above
  | false, false => none

/-- The decimal exponent of the leading digit of `num / den`. -/
def leadingExponent (num den : Nat) : Int :=
  if den ≤ num then (Nat.toDigits 10 (num / den)).length - 1
  else
    let d := (Nat.toDigits 10 (den / num)).length
    if den ≤ num * Nat.pow 10 (d - 1) then 1 - (d : Int) else -(d : Int)

/-- Search the grids with `n`, `n + 1`, … digits, at most `fuel` of them. -/
def shortestFrom (i : Interval) (lead : Int) (n : Nat) : Nat → Digits
  | 0 => ⟨['0'], 0⟩
  | fuel + 1 =>
    let step := lead - n + 1
    match (i.onGrid step).pick? with
    | none => shortestFrom i lead (n + 1) fuel
    | some c =>
      let ds := Nat.toDigits 10 c
      let kept := (ds.reverse.dropWhile (· == '0')).reverse
      ⟨if kept.isEmpty then ['0'] else kept, step + ds.length - 1⟩

/-- **The shortest digits** of a finite double, its sign left aside;
seventeen digits always suffice. -/
def shortest (x : Float) : Digits :=
  let bits := x.toBits.toNat % Nat.pow 2 63
  if bits = 0 then ⟨['0'], 0⟩
  else
    let i := Interval.ofBits bits
    shortestFrom i (leadingExponent i.mid i.unit) 1 17

/-- Whether the sign bit of a double is set. -/
def isNegative (x : Float) : Bool :=
  Nat.pow 2 63 ≤ x.toBits.toNat

/-! ## Layouts -/

/-- Positional notation, with `.0` behind an integer. -/
def Digits.positional (d : Digits) : List Char :=
  if d.exponent < 0 then
    '0' :: '.' :: List.replicate (-d.exponent - 1).toNat '0' ++ d.digits
  else
    let whole := d.exponent.toNat + 1
    let zeros := List.replicate (whole - d.digits.length) '0'
    let rest := d.digits.drop whole
    d.digits.take whole ++ zeros ++ '.' :: (if rest.isEmpty then ['0'] else rest)

/-- Scientific notation: one digit before the point, which goes with a lone digit, and the
exponent with its sign. -/
def Digits.scientific (d : Digits) : List Char :=
  let head := d.digits.take 1
  let rest := d.digits.drop 1
  let point := if rest.isEmpty then [] else '.' :: rest
  let sign := if d.exponent < 0 then '-' else '+'
  head ++ point ++ 'e' :: sign :: (toString d.exponent.natAbs).toList

/-- Put the sign of a double in front of its digits. -/
def signed (x : Float) (cs : List Char) : List Char :=
  if isNegative x then '-' :: cs else cs

end ScriptDebug.Decimal
