import Mathlib.Data.String.Basic
import ScriptDebug.Proofs.Arrivals

/-!
# Texts in the order of their bytes

Texts are compared character by character. Their bytes, as they go over the wire, come in the same
order (`ofText_lt_ofText`): a longer code starts with a larger byte, and codes of one length compare
as the characters do.
-/

namespace ScriptDebug.Wire

variable {c d : Char} {l m : List Char} {s t : Bytes} {a b : String}

theorem ofNat_eq_ofNat {x y : Nat} (hx : x < 256) (hy : y < 256) :
    UInt8.ofNat x = UInt8.ofNat y ↔ x = y := by
  rw [← UInt8.toNat_inj, UInt8.toNat_ofNat_of_lt' hx, UInt8.toNat_ofNat_of_lt' hy]

/-- The smaller of two characters has the smaller code, whatever comes behind. -/
theorem utf8EncodeChar_append_lt (h : c < d) (s t : Bytes) :
    String.utf8EncodeChar c ++ s < String.utf8EncodeChar d ++ t := by
  have hlt : c.val.toNat < d.val.toNat := UInt32.lt_iff_toNat_lt.1 h
  have hbound : d.val.toNat < 0x110000 := by
    have hvalid := d.valid
    simp only [UInt32.isValidChar, Nat.isValidChar] at hvalid
    omega
  -- the digits to the base 64 one by one, each the quotient of the one before
  have htwo (v : Nat) : v / 4096 = v / 64 / 64 := (Nat.div_div_eq_div_mul v 64 64).symm
  have hthree (v : Nat) : v / 262144 = v / 64 / 64 / 64 := by
    rw [Nat.div_div_eq_div_mul, Nat.div_div_eq_div_mul]
  unfold String.utf8EncodeChar
  dsimp only
  split_ifs <;>
    simp (disch := (try unfold UInt8.size); omega) only [List.cons_append, List.nil_append,
      List.cons_lt_cons_iff, UInt8.ofNat_lt_iff_lt, ofNat_eq_ofNat, htwo, hthree] <;>
    omega

theorem append_lt_append_left (code : Bytes) : code ++ s < code ++ t ↔ s < t := by
  induction code with
  | nil => rfl
  | cons x code ih => simp [ih]

theorem utf8EncodeChar_append_lt_iff :
    String.utf8EncodeChar c ++ s < String.utf8EncodeChar d ++ t ↔ c < d ∨ c = d ∧ s < t := by
  rcases lt_trichotomy c d with hlt | rfl | hgt
  · simp [hlt, utf8EncodeChar_append_lt hlt s t]
  · simp [append_lt_append_left]
  · have hnot : ¬String.utf8EncodeChar c ++ s < String.utf8EncodeChar d ++ t :=
      List.lt_asymm (utf8EncodeChar_append_lt hgt t s)
    simp [hnot, hgt.not_gt, hgt.ne']

theorem ofText_eq_flatMap (a : String) : ofText a = a.toList.flatMap String.utf8EncodeChar := by
  rw [ofText_eq, ← String.utf8Encode_toList, List.utf8Encode, List.toList_data_toByteArray]

theorem flatMap_utf8EncodeChar_lt :
    l.flatMap String.utf8EncodeChar < m.flatMap String.utf8EncodeChar ↔ l < m := by
  induction l generalizing m with
  | nil =>
    cases m with
    | nil => simp
    | cons d m =>
      obtain ⟨x, code, hcode⟩ := List.exists_cons_of_ne_nil (String.utf8EncodeChar_ne_nil (c := d))
      simp [hcode]
  | cons c l ih =>
    cases m with
    | nil => simp
    | cons d m =>
      rw [List.flatMap_cons, List.flatMap_cons, utf8EncodeChar_append_lt_iff, ih,
        List.cons_lt_cons_iff]

/-- **Texts compare as their bytes.** -/
theorem ofText_lt_ofText : ofText a < ofText b ↔ a < b := by
  rw [ofText_eq_flatMap, ofText_eq_flatMap, flatMap_utf8EncodeChar_lt, String.lt_iff_toList_lt]

end ScriptDebug.Wire
