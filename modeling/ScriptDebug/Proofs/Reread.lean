import Mathlib.Data.List.TakeWhile
import ScriptDebug.Json.Parser
import ScriptDebug.Json.Printer
import ScriptDebug.Proofs.ByteOrder

/-!
# JSON texts read back

The text of a number below `2⁶⁴` and that of a string without quotes, backslashes and controls are
read as the values that they are the texts of (`parse_text_ofNat`, `parse_text_string`). What the
reader does is followed step by step, from the cursor before a value to the one behind it.
-/

namespace ScriptDebug.Json

namespace Reader

variable {α β : Type} {c c' : Cursor} {r : Reader α} {f : α → Reader β} {a : α} {b : UInt8}
  {bytes rest : List UInt8}
variable {depth fuel l k n : Nat}

/-! ## Steps of the reader -/

theorem run_bind_of_ok (h : r.run c = .ok (a, c')) : (r >>= f).run c = (f a).run c' := by
  rw [StateT.run_bind, h]
  rfl

theorem run_peek (c : Cursor) : peek.run c = .ok (c.rest.head?, c) := rfl

theorem run_advance (c : Cursor) : advance.run c = .ok ((), c.next) := rfl

theorem run_get (c : Cursor) : (get : Reader Cursor).run c = .ok (c, c) := rfl

theorem next_cons (hb : b ≠ 10) : (Cursor.mk (b :: rest) l k).next = ⟨rest, l, k + 1⟩ := by
  simp [Cursor.next, hb]

theorem run_peekToken_nil (l k : Nat) : peekToken.run ⟨[], l, k⟩ = .ok (none, ⟨[], l, k⟩) := rfl

theorem run_peekToken_cons (hb : 32 < b) (rest : List UInt8) (l k : Nat) :
    peekToken.run ⟨b :: rest, l, k⟩ = .ok (some b, ⟨b :: rest, l, k⟩) := by
  have hblanks : behindBlanks l k (b :: rest) = ⟨b :: rest, l, k⟩ := by
    have hne : b ≠ 10 ∧ ¬(b = 32 ∨ b = 9 ∨ b = 13) := by
      refine ⟨?_, ?_⟩
      · rintro rfl
        exact absurd hb (by decide)
      · rintro (rfl | rfl | rfl) <;> exact absurd hb (by decide)
    simp [behindBlanks, hne]
  show Except.ok ((behindBlanks l k (b :: rest)).rest.head?, behindBlanks l k (b :: rest)) = _
  rw [hblanks]
  rfl

theorem run_advanceBy (hb : ∀ b ∈ bytes, b ≠ 10) (rest : List UInt8) (l k : Nat) :
    (advanceBy bytes.length).run ⟨bytes ++ rest, l, k⟩ = .ok ((), ⟨rest, l, k + bytes.length⟩) := by
  induction bytes generalizing k with
  | nil => rfl
  | cons b bytes ih =>
    obtain ⟨hb, hrest⟩ := List.forall_mem_cons.1 hb
    rw [List.length_cons, advanceBy, run_bind_of_ok (run_advance _), List.cons_append,
      next_cons hb, ih hrest]
    congr 3
    omega

/-! ## Numbers -/

/-- The number that digits denote. -/
def countUp (ds : List Nat) : Nat := ds.foldl (fun n d => 10 * n + d) 0

/-- **Numeral.** Digits of a number, without leading zeros. -/
structure IsNumeral (bytes : List UInt8) (n : Nat) : Prop where
  ne_nil : bytes ≠ []
  digits : ∀ b ∈ bytes, isDigit b = true
  zero : bytes.head? = some 48 → bytes = [48]
  value : countUp (bytes.map fun b => b.toNat - 48) = n

theorem isDigit_iff : isDigit b = true ↔ 48 ≤ b.toNat ∧ b.toNat ≤ 57 := by
  simp [isDigit, UInt8.le_iff_toNat_le]

theorem run_digits (hb : ∀ b ∈ bytes, isDigit b = true) (l k : Nat) :
    digits.run ⟨bytes, l, k⟩ = .ok
      (bytes.map fun b => b.toNat - 48, ⟨[], l, k + bytes.length⟩) := by
  have hline : ∀ b ∈ bytes, b ≠ 10 := by
    rintro b hmem rfl
    exact absurd (hb 10 hmem) (by decide)
  have hadvance := run_advanceBy hline [] l k
  rw [List.append_nil] at hadvance
  unfold digits
  rw [run_bind_of_ok (run_get _)]
  simp only [List.takeWhile_eq_self_iff.2 hb]
  rw [run_bind_of_ok hadvance]
  rfl

theorem accumulate_eq (ds : List Nat) (n taken : Nat)
    (h : ds.foldl (fun n d => 10 * n + d) n < 0x10000000000000000) :
    accumulate n taken ds = (ds.foldl (fun n d => 10 * n + d) n, taken + ds.length) := by
  have hmono : ∀ (ds : List Nat) (n : Nat), n ≤ ds.foldl (fun n d => 10 * n + d) n := by
    intro ds
    induction ds with
    | nil => exact fun n => Nat.le_refl n
    | cons d ds ih => exact fun n => Nat.le_trans (by omega) (ih (10 * n + d))
  induction ds generalizing n taken with
  | nil => rfl
  | cons d ds ih =>
    rw [accumulate, if_pos (Nat.lt_of_le_of_lt (hmono ds _) h), ih _ _ h, List.length_cons]
    congr 1
    omega

theorem run_number (h : IsNumeral bytes n) (hn : n < 0x10000000000000000) (l k : Nat) :
    (number false).run ⟨bytes, l, k⟩ = .ok (.integer n, ⟨[], l, k + bytes.length⟩) := by
  obtain ⟨hne, hdigits, hzero, rfl⟩ := h
  obtain ⟨b, rest, rfl⟩ := List.exists_cons_of_ne_nil hne
  have hdigit : isDigit b = true := hdigits b List.mem_cons_self
  unfold number
  rw [run_bind_of_ok (run_peek _)]
  simp only [List.head?_cons, hdigit, Bool.not_true, Bool.false_eq_true, if_false]
  by_cases h48 : b = 48
  · subst h48
    obtain rfl : rest = [] := by simpa using hzero rfl
    rfl
  · have hfirst : some b ≠ some (48 : UInt8) := by simpa using h48
    have htaken := accumulate_eq _ 0 0 hn
    rw [Nat.zero_add, List.length_map] at htaken
    simp only [pure_bind]
    rw [run_bind_of_ok (run_peek _)]
    simp only [List.head?_cons, hfirst, if_false]
    rw [run_bind_of_ok (run_digits hdigits l k)]
    simp only [htaken, List.length_map]
    rw [run_bind_of_ok (run_peek _)]
    simp only [List.head?_nil, Int.sub_self, Int.lt_irrefl, if_false, Bool.not_false, if_true]
    rfl

theorem run_value_number (h : IsNumeral bytes n) (hn : n < 0x10000000000000000) (l k : Nat) :
    (value depth (fuel + 1)).run ⟨bytes, l, k⟩ = .ok (ofNat n, ⟨[], l, k + bytes.length⟩) := by
  have hnumber := run_number h hn l k
  obtain ⟨b, rest, rfl⟩ := List.exists_cons_of_ne_nil h.ne_nil
  have hdigit : isDigit b = true := h.digits b List.mem_cons_self
  obtain ⟨hlow, hhigh⟩ := isDigit_iff.1 hdigit
  have hne : ∀ x : UInt8, (x.toNat < 48 ∨ 57 < x.toNat) → b ≠ x := by
    rintro x hx rfl
    omega
  have hblank : 32 < b := UInt8.lt_iff_toNat_lt.2 (Nat.lt_of_lt_of_le (by decide) hlow)
  rw [value, run_bind_of_ok (run_peekToken_cons hblank rest l k)]
  simp only [hne 110 (by decide), hne 116 (by decide), hne 102 (by decide), hne 45 (by decide),
    hdigit, if_false, if_true]
  rw [run_bind_of_ok hnumber]
  rfl

/-! ## Strings -/

/-- Bytes that stand for themselves in a string. -/
def IsPlainByte (b : UInt8) : Prop := 32 ≤ b ∧ b ≠ 34 ∧ b ≠ 92

theorem run_stringBytes (hb : ∀ b ∈ bytes, IsPlainByte b) (done rest : List UInt8) (l k : Nat)
    (hf : bytes.length < fuel) :
    (stringBytes done fuel).run ⟨bytes ++ 34 :: rest, l, k⟩ =
      .ok (done.reverse ++ bytes, ⟨rest, l, k + bytes.length + 1⟩) := by
  induction bytes generalizing done k fuel with
  | nil =>
    obtain ⟨fuel, rfl⟩ := Nat.exists_eq_add_of_lt hf
    show (stringBytes done (_ + 1)).run _ = _
    rw [stringBytes, run_bind_of_ok (run_peek _), List.append_nil]
    rfl
  | cons b bytes ih =>
    cases fuel with
    | zero => cases hf
    | succ fuel =>
      obtain ⟨⟨hlow, hquote, hslash⟩, hrest⟩ := List.forall_mem_cons.1 hb
      have hcontrol : ¬ b < 32 := UInt8.not_lt.2 hlow
      have hline : b ≠ 10 := by
        rintro rfl
        exact hcontrol (by decide)
      rw [stringBytes, run_bind_of_ok (run_peek _)]
      simp only [List.cons_append, List.head?_cons, hquote, hslash, hcontrol, if_false]
      rw [run_bind_of_ok (run_advance _), next_cons hline, ih hrest _ _ (Nat.lt_of_succ_lt_succ hf),
        List.reverse_cons, List.append_assoc, List.singleton_append, List.length_cons]
      congr 3
      omega

theorem run_value_string {s : String} (hb : ∀ b ∈ Wire.ofText s, IsPlainByte b)
    (hf : (Wire.ofText s).length < fuel) (l k : Nat) :
    (value depth (fuel + 1)).run ⟨34 :: Wire.ofText s ++ [34], l, k⟩ =
      .ok (.string s, ⟨[], l, k + (Wire.ofText s).length + 2⟩) := by
  have hstring : (string fuel).run ⟨Wire.ofText s ++ [34], l, k + 1⟩ =
      .ok (s, ⟨[], l, k + 1 + (Wire.ofText s).length + 1⟩) := by
    have hread : String.fromUTF8? ⟨(Wire.ofText s).toArray⟩ = some s := Wire.text?_eq_some.2 rfl
    unfold string
    rw [run_bind_of_ok (run_stringBytes hb [] [] l (k + 1) hf)]
    simp only [List.reverse_nil, List.nil_append, hread]
    rfl
  have hdigit : isDigit 34 = false := rfl
  obtain ⟨hn, ht, hf, hm⟩ : (34 : UInt8) ≠ 110 ∧ (34 : UInt8) ≠ 116 ∧ (34 : UInt8) ≠ 102 ∧
      (34 : UInt8) ≠ 45 := by
    decide
  rw [value, List.cons_append, run_bind_of_ok (run_peekToken_cons (by decide) _ l k)]
  simp only [hn, ht, hf, hm, hdigit, Bool.false_eq_true, if_false, if_true]
  rw [run_bind_of_ok (run_advance _), next_cons (by decide), run_bind_of_ok hstring]
  show Except.ok _ = _
  congr 3
  omega

/-- A text is read to its end if its bytes are those of one value. -/
theorem parse_of_run {s : String} {j : Json} (hbytes : Wire.ofText s = bytes)
    (h : (value 128 (2 * bytes.length + 2)).run ⟨bytes, 1, 0⟩ = .ok (j, ⟨[], l, k⟩)) :
    parse s = .ok j := by
  have hrun : document.run ⟨bytes, 1, 0⟩ = .ok (j, ⟨[], l, k⟩) := by
    unfold document
    rw [run_bind_of_ok (run_get _), run_bind_of_ok h, run_bind_of_ok (run_peekToken_nil l k)]
    rfl
  have hstart : Cursor.start s.toUTF8.toList = ⟨bytes, 1, 0⟩ := congrArg Cursor.start hbytes
  unfold parse
  rw [hstart, StateT.run'_eq, hrun]
  rfl

end Reader

open Reader

variable {c : Char} {b : UInt8} {n d : Nat} {s : String}

/-! ## Texts of values -/

/-- Characters that stand for themselves in a string. -/
def IsPlain (c : Char) : Prop := 32 ≤ c.toNat ∧ c ≠ '"' ∧ c ≠ '\\'

theorem escapeChar_of_isPlain (h : IsPlain c) : escapeChar c = [c] := by
  obtain ⟨hlow, hquote, hslash⟩ := h
  have hcontrol : ∀ d : Char, d.toNat < 32 → c ≠ d := by
    rintro d hd rfl
    omega
  have hlow' : ¬ c.toNat < 0x20 := Nat.not_lt.2 hlow
  simp only [escapeChar, hquote, hslash, hcontrol '\n' (by decide), hcontrol '\r' (by decide),
    hcontrol '\t' (by decide), hcontrol '\x08' (by decide), hcontrol '\x0c' (by decide),
    hlow', if_false]

/-- The code of a plain character is plain bytes: those of longer codes are all above the
characters of one byte. -/
theorem isPlainByte_of_mem (h : IsPlain c) (hb : b ∈ String.utf8EncodeChar c) : IsPlainByte b := by
  obtain ⟨hlow, hquote, hslash⟩ := h
  have hquote : c.toNat ≠ 34 := fun heq => hquote (Char.toNat_inj.1 heq)
  have hslash : c.toNat ≠ 92 := fun heq => hslash (Char.toNat_inj.1 heq)
  have hplain : ∀ v, 32 ≤ v → v ≠ 34 → v ≠ 92 → v < 256 → IsPlainByte (UInt8.ofNat v) := by
    intro v h32 h34 h92 h256
    refine ⟨UInt8.le_iff_toNat_le.2 ?_, fun heq => h34 ?_, fun heq => h92 ?_⟩
    · rw [UInt8.toNat_ofNat_of_lt' h256]
      exact h32
    · exact (Wire.ofNat_eq_ofNat h256 (by decide)).1 heq
    · exact (Wire.ofNat_eq_ofNat h256 (by decide)).1 heq
  have hval : c.val.toNat = c.toNat := rfl
  unfold String.utf8EncodeChar at hb
  dsimp only at hb
  rw [hval] at hb
  split_ifs at hb <;> simp only [List.mem_cons, List.not_mem_nil, or_false] at hb
  · subst hb
    exact hplain _ hlow hquote hslash (by omega)
  · rcases hb with rfl | rfl <;> exact hplain _ (by omega) (by omega) (by omega) (by omega)
  · rcases hb with rfl | rfl | rfl <;> exact hplain _ (by omega) (by omega) (by omega) (by omega)
  · rcases hb with rfl | rfl | rfl | rfl <;>
      exact hplain _ (by omega) (by omega) (by omega) (by omega)

theorem ofText_text_string (hs : ∀ c ∈ s.toList, IsPlain c) :
    Wire.ofText (Json.string s).text = 34 :: Wire.ofText s ++ [34] := by
  have hescape : s.toList.flatMap escapeChar = s.toList := by
    rw [List.flatMap_congr fun c hc => escapeChar_of_isPlain (hs c hc), List.flatMap_singleton']
  have hquote : String.utf8EncodeChar '"' = [34] := by decide
  rw [Wire.ofText_eq_flatMap, Wire.ofText_eq_flatMap, text, String.toList_ofList, chars,
    stringChars, hescape]
  simp only [List.cons_append, List.flatMap_cons, List.flatMap_append, List.flatMap_nil, hquote,
    List.append_nil, List.nil_append]

/-- **A plain string** is read back from its text. -/
theorem parse_text_string (hs : ∀ c ∈ s.toList, IsPlain c) :
    parse (Json.string s).text = .ok (.string s) := by
  have hplain : ∀ b ∈ Wire.ofText s, IsPlainByte b := by
    intro b hb
    rw [Wire.ofText_eq_flatMap] at hb
    obtain ⟨c, hc, hb⟩ := List.mem_flatMap.1 hb
    exact isPlainByte_of_mem (hs c hc) hb
  have hfuel : (Wire.ofText s).length < 2 * (34 :: Wire.ofText s ++ [34]).length + 1 := by
    simp only [List.cons_append, List.length_cons, List.length_append]
    omega
  exact parse_of_run (ofText_text_string hs) (run_value_string hplain hfuel 1 0)

theorem utf8EncodeChar_digitChar (hd : d < 10) :
    String.utf8EncodeChar d.digitChar = [UInt8.ofNat (48 + d)] := by
  have hall : ∀ i : Fin 10, String.utf8EncodeChar (i : Nat).digitChar = [UInt8.ofNat (48 + i)] := by
    decide
  exact hall ⟨d, hd⟩

theorem isNumeral_toDigits (n : Nat) :
    IsNumeral ((Nat.toDigits 10 n).flatMap String.utf8EncodeChar) n := by
  have hdigit : ∀ {d}, d < 10 → isDigit (UInt8.ofNat (48 + d)) = true ∧
      (UInt8.ofNat (48 + d)).toNat - 48 = d := by
    intro d hd
    have hall : ∀ i : Fin 10, isDigit (UInt8.ofNat (48 + i)) = true ∧
        (UInt8.ofNat (48 + i)).toNat - 48 = i := by
      decide
    exact hall ⟨d, hd⟩
  induction n using Nat.strongRecOn with
  | ind n ih =>
    rw [Nat.toDigits_eq_if (by decide)]
    split
    · rename_i hn
      obtain ⟨hdigits, hvalue⟩ := hdigit hn
      rw [List.flatMap_singleton, utf8EncodeChar_digitChar hn]
      refine ⟨by simp, by simpa using hdigits, by simp, ?_⟩
      simp only [countUp, List.map_cons, List.map_nil, List.foldl_cons, List.foldl_nil, hvalue]
      omega
    · rename_i hn
      have hmod : n % 10 < 10 := Nat.mod_lt n (by decide)
      obtain ⟨hne, hdigits, hzero, hvalue⟩ := ih (n / 10) (by omega)
      obtain ⟨hdigits', hvalue'⟩ := hdigit hmod
      rw [List.flatMap_append, List.flatMap_singleton, utf8EncodeChar_digitChar hmod]
      refine ⟨by simp, List.forall_mem_append.2 ⟨hdigits, by simpa using hdigits'⟩,
        fun hhead => ?_, ?_⟩
      · -- a leading zero would be the only digit in front, of a number that is not zero
        rw [List.head?_append_of_ne_nil _ hne] at hhead
        rw [hzero hhead] at hvalue
        have hnil : n / 10 = 0 := hvalue.symm
        omega
      · unfold countUp at hvalue ⊢
        rw [List.map_append, List.foldl_append, hvalue]
        simp only [List.map_cons, List.map_nil, List.foldl_cons, List.foldl_nil, hvalue']
        omega

/-- **A natural number** below `2⁶⁴` is read back from its text. -/
theorem parse_text_ofNat (hn : n < 0x10000000000000000) : parse (ofNat n).text = .ok (ofNat n) := by
  have hchars : (ofNat n).chars = Nat.toDigits 10 n := by
    have hshown : toString (n : Int) = toString n := rfl
    rw [ofNat, chars, Number.chars, hshown, Nat.toString_eq_ofList_toDigits, String.toList_ofList]
  have hbytes : Wire.ofText (ofNat n).text = (Nat.toDigits 10 n).flatMap String.utf8EncodeChar := by
    rw [Wire.ofText_eq_flatMap, text, String.toList_ofList, hchars]
  exact parse_of_run hbytes (run_value_number (isNumeral_toDigits n) hn 1 0)

end ScriptDebug.Json
