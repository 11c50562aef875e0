import ScriptDebug.Text.Blank
import ScriptDebug.Text.Lines

/-!
# Trimming and cutting

Trimming takes off the blanks around a text and nothing else (`trimChars_pad`); behind a front that
does not start with a blank, it only touches what comes after that front (`trimChars_append`). A
text is cut at a separator where the separator stands: once (`splitOnce_append`), or between all of
its parts (`splitAll_joined`).
-/

namespace ScriptDebug.Text

variable {sep a c : Char} {cs l r : List Char} {parts : List (List Char)}

/-! ## Blanks -/

/-- Nothing but blanks. -/
def AllBlank (cs : List Char) : Prop := ∀ c ∈ cs, isBlank c = true

instance (cs : List Char) : Decidable (AllBlank cs) := List.decidableBAll (isBlank · = true) cs

theorem mem_dropWhile_isBlank (hc : isBlank c = false) (hmem : c ∈ cs) :
    c ∈ cs.dropWhile isBlank := by
  induction cs with
  | nil => cases hmem
  | cons b cs ih =>
    rw [List.dropWhile_cons]
    split
    · rename_i hb
      rcases List.mem_cons.1 hmem with rfl | hmem
      · rw [hc] at hb
        cases hb
      · exact ih hmem
    · exact hmem

theorem dropWhile_isBlank_eq_nil (h : AllBlank cs) : cs.dropWhile isBlank = [] := by
  have hdrop : (cs ++ []).dropWhile isBlank = [] := List.dropWhile_append_of_pos h
  rwa [List.append_nil] at hdrop

theorem dropWhile_isBlank_eq_self (h : ∀ c ∈ cs, isBlank c = false) :
    cs.dropWhile isBlank = cs := by
  cases cs with
  | nil => rfl
  | cons c cs => rw [List.dropWhile_cons, h c (List.mem_cons_self ..)]; rfl

/-! ## Trimming -/

/-- **Blanks around a text** do not count. -/
theorem trimChars_pad (hl : AllBlank l) (hr : AllBlank r) (cs : List Char) :
    trimChars (l ++ cs ++ r) = trimChars cs := by
  have hr' : ∀ c ∈ r.reverse, isBlank c = true := fun c hc => hr c (List.mem_reverse.1 hc)
  simp only [trimChars]
  rw [List.append_assoc, List.dropWhile_append_of_pos hl, List.dropWhile_append]
  split
  · rename_i hnil
    rw [dropWhile_isBlank_eq_nil hr, List.isEmpty_iff.1 hnil]
  · rw [List.reverse_append, List.dropWhile_append_of_pos hr']

theorem trimChars_padLeft (hl : AllBlank l) (cs : List Char) :
    trimChars (l ++ cs) = trimChars cs := by
  have hpad := trimChars_pad hl (r := []) (by decide) cs
  rwa [List.append_nil] at hpad

theorem trimChars_padRight (hr : AllBlank r) (cs : List Char) :
    trimChars (cs ++ r) = trimChars cs :=
  trimChars_pad (l := []) (by decide) hr cs

theorem mem_trimChars (hc : isBlank c = false) (hmem : c ∈ cs) : c ∈ trimChars cs := by
  have hfront : c ∈ (cs.dropWhile isBlank).reverse :=
    List.mem_reverse.2 (mem_dropWhile_isBlank hc hmem)
  exact List.mem_reverse.2 (mem_dropWhile_isBlank hc hfront)

theorem length_trimChars_le (cs : List Char) : (trimChars cs).length ≤ cs.length := by
  have hfront : (cs.dropWhile isBlank).length ≤ cs.length :=
    (List.dropWhile_sublist isBlank).length_le
  have hback : ((cs.dropWhile isBlank).reverse.dropWhile isBlank).length ≤
      (cs.dropWhile isBlank).reverse.length :=
    (List.dropWhile_sublist isBlank).length_le
  rw [List.length_reverse] at hback
  rw [trimChars, List.length_reverse]
  exact Nat.le_trans hback hfront

theorem isBlank_of_trimmed (h : trimChars (c :: cs) = c :: cs) : isBlank c = false := by
  cases hc : isBlank c with
  | false => rfl
  | true =>
    have hsame : trimChars (c :: cs) = trimChars cs := by
      simp only [trimChars, List.dropWhile_cons, hc, if_true]
    have hle := length_trimChars_le cs
    rw [← hsame, h, List.length_cons] at hle
    exact absurd hle (Nat.not_succ_le_self _)

/-- **A front that starts with no blank** stays, and what follows is trimmed at its end. -/
theorem trimChars_append (hc : isBlank c = false) (ha : isBlank a = false) (l r : List Char) :
    trimChars (c :: l ++ a :: r) = c :: l ++ trimChars (a :: r) := by
  have hmem : a ∈ (a :: r).reverse := List.mem_reverse.2 (List.mem_cons_self ..)
  have hne : ((a :: r).reverse.dropWhile isBlank).isEmpty ≠ true :=
    mt List.isEmpty_iff.1 (List.ne_nil_of_mem (mem_dropWhile_isBlank ha hmem))
  simp only [trimChars]
  rw [List.cons_append, List.dropWhile_cons, if_neg (Bool.eq_false_iff.1 hc), List.dropWhile_cons,
    if_neg (Bool.eq_false_iff.1 ha), ← List.cons_append, List.reverse_append,
    List.dropWhile_append, if_neg hne, List.reverse_append, List.reverse_reverse]

theorem trimChars_eq_self (h : ∀ c ∈ cs, isBlank c = false) : trimChars cs = cs := by
  have hback : ∀ c ∈ cs.reverse, isBlank c = false := fun c hc => h c (List.mem_reverse.1 hc)
  rw [trimChars, dropWhile_isBlank_eq_self h, dropWhile_isBlank_eq_self hback, List.reverse_reverse]

/-! ## Cutting -/

theorem splitOnce_append (h : sep ∉ l) (r : List Char) :
    splitOnce sep (l ++ sep :: r) = some (l, r) := by
  induction l with
  | nil => rw [List.nil_append, splitOnce, if_pos rfl]
  | cons c l ih =>
    obtain ⟨hc, hl⟩ := not_or.1 (mt List.mem_cons.2 h)
    rw [List.cons_append, splitOnce, if_neg (Ne.symm hc), ih hl]
    rfl

theorem splitAll_of_not_mem (h : sep ∉ l) : splitAll sep l = [l] := by
  induction l with
  | nil => rfl
  | cons c l ih =>
    obtain ⟨hc, hl⟩ := not_or.1 (mt List.mem_cons.2 h)
    rw [splitAll, if_neg (Ne.symm hc), ih hl]

theorem splitAll_append (h : sep ∉ l) (r : List Char) :
    splitAll sep (l ++ sep :: r) = l :: splitAll sep r := by
  induction l with
  | nil => rw [List.nil_append, splitAll, if_pos rfl]
  | cons c l ih =>
    obtain ⟨hc, hl⟩ := not_or.1 (mt List.mem_cons.2 h)
    rw [List.cons_append, splitAll, if_neg (Ne.symm hc), ih hl]

/-- **Parts with separators between them** are cut apart again. -/
theorem splitAll_joined (hl : sep ∉ l) (hparts : ∀ p ∈ parts, sep ∉ p) :
    splitAll sep (l ++ parts.flatMap (sep :: ·)) = l :: parts := by
  induction parts generalizing l with
  | nil => rw [List.flatMap_nil, List.append_nil, splitAll_of_not_mem hl]
  | cons p parts ih =>
    rw [List.flatMap_cons, List.cons_append, splitAll_append hl,
      ih (hparts p (List.mem_cons_self ..)) fun q hq => hparts q (List.mem_cons_of_mem _ hq)]

end ScriptDebug.Text
