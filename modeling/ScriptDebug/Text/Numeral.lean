import ScriptDebug.Text.Quoted

/-!
# Numerals

Numbers written with digits of a base up to sixteen. A numeral has at least one digit and may carry
a plus sign; leading zeros are allowed. Long ones are read in halves, which are joined in the end
(`ofHalves?_eq`): the time this takes is that of a few products of long numbers.
-/

namespace ScriptDebug.Text

/-- The value of a digit, in either case. -/
def digitValue? (c : Char) : Option Nat :=
  let n := c.toNat
  if 48 ≤ n ∧ n ≤ 57 then some (n - 48)
  else if 97 ≤ n ∧ n ≤ 102 then some (n - 87)
  else if 65 ≤ n ∧ n ≤ 70 then some (n - 55)
  else none

/-- The value of a digit of the given base. -/
def digitIn? (base : Nat) (c : Char) : Option Nat :=
  (digitValue? c).filter (· < base)

/-- Read on from the value `n` of the digits before. -/
def digitsFrom? (base n : Nat) : List Char → Option Nat
  | [] => some n
  | c :: cs => (digitIn? base c).bind fun d => digitsFrom? base (base * n + d) cs

/-- Cut digits in halves, `depth` times over, and join what the pieces denote. -/
def ofHalves? (base : Nat) : (depth : Nat) → List Char → Option Nat
  | 0, cs => digitsFrom? base 0 cs
  | depth + 1, cs =>
    let low := cs.drop (cs.length / 2)
    (ofHalves? base depth (cs.take (cs.length / 2))).bind fun m =>
      (ofHalves? base depth low).map (Nat.pow base low.length * m + ·)

/-- The longest piece that is read digit by digit. -/
def longestPiece : Nat := 128

/-- **Digits.** The number that one or more digits denote. -/
def ofDigits? (base : Nat) (cs : List Char) : Option Nat :=
  if cs.isEmpty then none
  else if cs.length ≤ longestPiece then digitsFrom? base 0 cs
  else ofHalves? base (cs.length / longestPiece).log2 cs

/-- The largest number to which another digit of an exponent is still added. -/
def longestExponent : Nat := 0xFFFF

/-- Read on from the exponent `n` of the digits before. -/
def exponentFrom? (n : Nat) : List Char → Option Nat
  | [] => some n
  | c :: cs => (digitIn? 10 c).bind fun d =>
    exponentFrom? (if n ≤ longestExponent then 10 * n + d else n) cs

/-- **Exponent.** The number that one or more decimal digits denote; those behind a number of more
than sixteen bits do not count. -/
def ofExponent? (cs : List Char) : Option Nat :=
  if cs.isEmpty then none else exponentFrom? 0 cs

/-- **Numeral.** Digits, perhaps behind a plus sign. -/
def ofNumeral? (base : Nat) : List Char → Option Nat
  | '+' :: cs => ofDigits? base cs
  | cs => ofDigits? base cs

/-! ## Reading what is written -/

theorem digitIn?_hexDigit {n : Nat} (h : n < 16) : digitIn? 16 (hexDigit n) = some n := by
  have : ∀ m : Fin 16, digitIn? 16 (hexDigit m) = some m.1 := by decide
  exact this ⟨n, h⟩

theorem digitsFrom?_append (base n : Nat) (l r : List Char) :
    digitsFrom? base n (l ++ r) = (digitsFrom? base n l).bind fun m => digitsFrom? base m r := by
  induction l generalizing n with
  | nil => rfl
  | cons c l ih =>
    simp only [List.cons_append, digitsFrom?]
    cases digitIn? base c with
    | none => rfl
    | some d => simp only [Option.bind_some]; exact ih _

/-- What comes before some digits moves up by as many places. -/
theorem digitsFrom?_eq_map (base n : Nat) (l : List Char) :
    digitsFrom? base n l = (digitsFrom? base 0 l).map (Nat.pow base l.length * n + ·) := by
  induction l generalizing n with
  | nil => simp [digitsFrom?]
  | cons c l ih =>
    simp only [digitsFrom?]
    cases digitIn? base c with
    | none => rfl
    | some d =>
      simp only [Option.bind_some]
      rw [ih (base * n + d), ih (base * 0 + d), Option.map_map]
      congr 1
      funext m
      simp only [Function.comp_apply, List.length_cons, Nat.pow_eq, Nat.pow_succ, Nat.mul_add,
        Nat.mul_zero, Nat.zero_add, Nat.mul_assoc, Nat.add_assoc]

/-- Pieces denote what the digits denote one by one. -/
theorem ofHalves?_eq (base depth : Nat) (cs : List Char) :
    ofHalves? base depth cs = digitsFrom? base 0 cs := by
  induction depth generalizing cs with
  | zero => rfl
  | succ depth ih =>
    have h := digitsFrom?_append base 0 (cs.take (cs.length / 2)) (cs.drop (cs.length / 2))
    rw [List.take_append_drop] at h
    simp only [ofHalves?, ih, h]
    congr 1
    funext m
    exact (digitsFrom?_eq_map base m _).symm

/-- The number of one or more digits is read digit by digit. -/
theorem ofDigits?_eq {cs : List Char} (base : Nat) (h : cs ≠ []) :
    ofDigits? base cs = digitsFrom? base 0 cs := by
  simp only [ofDigits?, List.isEmpty_iff, h, ↓reduceIte, ofHalves?_eq, ite_self]

theorem hexChars_ne_nil (n : Nat) : hexChars n ≠ [] := by
  unfold hexChars
  split <;> simp

theorem digitsFrom?_hexChars (n : Nat) : digitsFrom? 16 0 (hexChars n) = some n := by
  induction n using Nat.strongRecOn with
  | ind n ih =>
    unfold hexChars
    split
    · rename_i h
      simp [digitsFrom?, digitIn?_hexDigit h]
    · rw [digitsFrom?_append, ih (n / 16) (by omega)]
      simp only [Option.bind_some, digitsFrom?, digitIn?_hexDigit (Nat.mod_lt n (by decide)),
        Option.some.injEq]
      omega

/-- The hexadecimal digits of a number denote it. -/
theorem ofDigits?_hexChars (n : Nat) : ofDigits? 16 (hexChars n) = some n :=
  (ofDigits?_eq 16 (hexChars_ne_nil n)).trans (digitsFrom?_hexChars n)

end ScriptDebug.Text
