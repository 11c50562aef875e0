/-!
# Ascending lists

Finite sets and maps as lists in strictly ascending order of their keys: a set or map has one
list, and listing it needs no sorting.
-/

namespace ScriptDebug.Ascending

variable {κ : Type} [DecidableEq κ] {α : Type}

/-! ## Sets -/

/-- Put a key into a set. -/
def insert [LT κ] [DecidableLT κ] (k : κ) : List κ → List κ
  | [] => [k]
  | x :: xs => if k < x then k :: x :: xs else if k = x then x :: xs else x :: insert k xs

/-- Take a key out of a set. -/
def erase (k : κ) (xs : List κ) : List κ := xs.filter fun x => !decide (x = k)

theorem mem_insert [LT κ] [DecidableLT κ] {k a : κ} {xs : List κ} :
    a ∈ insert k xs ↔ a = k ∨ a ∈ xs := by
  induction xs with
  | nil => simp [insert]
  | cons x xs ih =>
    simp only [insert]
    split
    · simp
    · split
      · rename_i h; simp [h]
      · simp only [List.mem_cons, ih]
        constructor
        · rintro (h | h | h) <;> simp [h]
        · rintro (h | h | h) <;> simp [h]

theorem mem_erase {k a : κ} {xs : List κ} : a ∈ erase k xs ↔ a ≠ k ∧ a ∈ xs := by
  simp [erase, and_comm]

/-! ## Maps -/

/-- Put a value under a key, over the one that was there. -/
def put [LT κ] [DecidableLT κ] (k : κ) (v : α) : List (κ × α) → List (κ × α)
  | [] => [(k, v)]
  | (x, w) :: rest =>
    if k < x then (k, v) :: (x, w) :: rest
    else if k = x then (k, v) :: rest
    else (x, w) :: put k v rest

/-- The value under a key. -/
def get? (k : κ) : List (κ × α) → Option α
  | [] => none
  | (x, w) :: rest => if x = k then some w else get? k rest

/-- Take a key and its value out of a map. -/
def remove (k : κ) (m : List (κ × α)) : List (κ × α) := m.filter fun e => !decide (e.1 = k)

theorem get?_put_self [LT κ] [DecidableLT κ] (k : κ) (v : α) (m : List (κ × α)) :
    get? k (put k v m) = some v := by
  induction m with
  | nil => simp [put, get?]
  | cons e rest ih =>
    obtain ⟨x, w⟩ := e
    simp only [put]
    split
    · simp [get?]
    · split
      · simp [get?]
      · rename_i h; simp [get?, Ne.symm h, ih]

theorem get?_put_ne [LT κ] [DecidableLT κ] {k a : κ} (h : a ≠ k) (v : α) (m : List (κ × α)) :
    get? a (put k v m) = get? a m := by
  induction m with
  | nil => simp [put, get?, Ne.symm h]
  | cons e rest ih =>
    obtain ⟨x, w⟩ := e
    simp only [put]
    split
    · simp [get?, Ne.symm h]
    · split
      · rename_i hx; subst hx; simp [get?, Ne.symm h]
      · by_cases hx : x = a <;> simp [get?, hx, ih]

theorem get?_remove_self (k : κ) (m : List (κ × α)) : get? k (remove k m) = none := by
  induction m with
  | nil => rfl
  | cons e rest ih =>
    obtain ⟨x, w⟩ := e
    simp only [remove] at ih ⊢
    by_cases hx : x = k
    · simpa [hx] using ih
    · simpa [hx, get?] using ih

theorem get?_remove_ne {k a : κ} (h : a ≠ k) (m : List (κ × α)) :
    get? a (remove k m) = get? a m := by
  induction m with
  | nil => rfl
  | cons e rest ih =>
    obtain ⟨x, w⟩ := e
    simp only [remove] at ih ⊢
    by_cases hx : x = k
    · subst hx
      simpa [get?, Ne.symm h] using ih
    · by_cases ha : x = a
      · subst ha; simp [h, get?]
      · simpa [hx, get?, ha] using ih

theorem mem_of_get? {k : κ} {v : α} {m : List (κ × α)} (h : get? k m = some v) : (k, v) ∈ m := by
  induction m with
  | nil => simp [get?] at h
  | cons e rest ih =>
    obtain ⟨x, w⟩ := e
    simp only [get?] at h
    split at h
    · rename_i hx
      cases h
      simp [hx]
    · exact List.mem_cons_of_mem _ (ih h)

theorem mem_put [LT κ] [DecidableLT κ] {k a : κ} {v w : α} {m : List (κ × α)}
    (h : (a, w) ∈ put k v m) : (a = k ∧ w = v) ∨ (a, w) ∈ m := by
  induction m with
  | nil => simpa [put] using h
  | cons e rest ih =>
    obtain ⟨x, y⟩ := e
    simp only [put] at h
    split at h
    · simpa using h
    · split at h
      · rcases List.mem_cons.1 h with h | h
        · simp_all
        · exact .inr (List.mem_cons_of_mem _ h)
      · rcases List.mem_cons.1 h with h | h
        · simp [h]
        · exact (ih h).imp_right (List.mem_cons_of_mem _)

theorem mem_remove {k a : κ} {w : α} {m : List (κ × α)} :
    (a, w) ∈ remove k m ↔ a ≠ k ∧ (a, w) ∈ m := by
  simp [remove, and_comm]

/-! ## Order -/

theorem pairwise_remove [LT κ] {m : List (κ × α)} (h : (m.map (·.1)).Pairwise (· < ·)) (k : κ) :
    ((remove k m).map (·.1)).Pairwise (· < ·) :=
  h.sublist (List.filter_sublist.map _)

/-- Putting a value under a key keeps the order, if `<` is a linear order. -/
theorem pairwise_put [LT κ] [DecidableLT κ] (htrans : ∀ a b c : κ, a < b → b < c → a < c)
    (htotal : ∀ a b : κ, ¬ a < b → a ≠ b → b < a) {m : List (κ × α)}
    (h : (m.map (·.1)).Pairwise (· < ·)) (k : κ) (v : α) :
    ((put k v m).map (·.1)).Pairwise (· < ·) := by
  induction m with
  | nil => exact List.pairwise_singleton ..
  | cons e rest ih =>
    obtain ⟨x, w⟩ := e
    obtain ⟨hx, hrest⟩ := List.pairwise_cons.1 h
    simp only [put]
    split
    · rename_i hk
      refine List.pairwise_cons.2 ⟨fun y hy => ?_, h⟩
      rcases List.mem_cons.1 hy with rfl | hy
      · exact hk
      · exact htrans _ _ _ hk (hx y hy)
    · rename_i hk
      split
      · rename_i heq
        subst heq
        exact h
      · rename_i hne
        refine List.pairwise_cons.2 ⟨fun y hy => ?_, ih hrest⟩
        obtain ⟨⟨y, z⟩, hmem, rfl⟩ := List.mem_map.1 hy
        rcases mem_put hmem with ⟨rfl, -⟩ | hmem
        · exact htotal _ _ hk hne
        · exact hx y (List.mem_map_of_mem hmem)

/-- Putting a key into a set keeps the order, if `<` is a linear order. -/
theorem pairwise_insert [LT κ] [DecidableLT κ] (htrans : ∀ a b c : κ, a < b → b < c → a < c)
    (htotal : ∀ a b : κ, ¬ a < b → a ≠ b → b < a) {xs : List κ} (h : xs.Pairwise (· < ·)) (k : κ) :
    (insert k xs).Pairwise (· < ·) := by
  induction xs with
  | nil => exact List.pairwise_singleton ..
  | cons x rest ih =>
    obtain ⟨hx, hrest⟩ := List.pairwise_cons.1 h
    simp only [insert]
    split
    · rename_i hk
      refine List.pairwise_cons.2 ⟨fun y hy => ?_, h⟩
      rcases List.mem_cons.1 hy with rfl | hy
      · exact hk
      · exact htrans _ _ _ hk (hx y hy)
    · rename_i hk
      split
      · exact h
      · rename_i hne
        refine List.pairwise_cons.2 ⟨fun y hy => ?_, ih hrest⟩
        rcases mem_insert.1 hy with rfl | hy
        · exact htotal _ _ hk hne
        · exact hx y hy

/-- Putting the value under a key that is there already changes nothing. -/
theorem put_of_get? [LT κ] [DecidableLT κ] (hirrefl : ∀ a : κ, ¬ a < a)
    (htrans : ∀ a b c : κ, a < b → b < c → a < c) {m : List (κ × α)}
    (h : (m.map (·.1)).Pairwise (· < ·)) {k : κ} {v : α} (hv : get? k m = some v) :
    put k v m = m := by
  induction m with
  | nil => cases hv
  | cons e rest ih =>
    obtain ⟨x, w⟩ := e
    obtain ⟨hx, hrest⟩ := List.pairwise_cons.1 h
    simp only [get?] at hv
    simp only [put]
    split at hv
    · rename_i hkey
      cases hv
      subst hkey
      rw [if_neg (hirrefl x), if_pos rfl]
    · rename_i hne
      -- the key stands behind the first one, so it is not below it
      have hlt : x < k := hx k (List.mem_map_of_mem (f := Prod.fst) (mem_of_get? hv))
      rw [if_neg fun hk => hirrefl x (htrans _ _ _ hlt hk), if_neg (Ne.symm hne), ih hrest hv]

theorem get?_of_mem [LT κ] (hirrefl : ∀ a : κ, ¬ a < a) {m : List (κ × α)}
    (h : (m.map (·.1)).Pairwise (· < ·)) {k : κ} {v : α} (hv : (k, v) ∈ m) : get? k m = some v := by
  induction m with
  | nil => exact absurd hv List.not_mem_nil
  | cons e rest ih =>
    obtain ⟨x, w⟩ := e
    obtain ⟨hx, hrest⟩ := List.pairwise_cons.1 h
    rcases List.mem_cons.1 hv with heq | hv
    · cases heq
      exact if_pos rfl
    · have hlt : x < k := hx k (List.mem_map_of_mem (f := Prod.fst) hv)
      have hne : x ≠ k := by
        rintro rfl
        exact hirrefl x hlt
      exact (if_neg hne).trans (ih hrest hv)

/-- A key below all others is not there. -/
theorem get?_of_lt [LT κ] (hirrefl : ∀ a : κ, ¬ a < a) {k : κ} {m : List (κ × α)}
    (h : ∀ a ∈ m.map (·.1), k < a) : get? k m = none := by
  cases hget : get? k m with
  | none => rfl
  | some v =>
    exact absurd (h k (List.mem_map_of_mem (f := Prod.fst) (mem_of_get? hget))) (hirrefl k)

/-- A map has one list: what is in order is known by what is under each key. -/
theorem eq_of_get? [LT κ] (hirrefl : ∀ a : κ, ¬ a < a) (htrans : ∀ a b c : κ, a < b → b < c → a < c)
    {l m : List (κ × α)} (hl : (l.map (·.1)).Pairwise (· < ·)) (hm : (m.map (·.1)).Pairwise (· < ·))
    (h : ∀ k, get? k l = get? k m) : l = m := by
  induction l generalizing m with
  | nil =>
    cases m with
    | nil => rfl
    | cons e rest => exact absurd (h e.1) (by simp [get?])
  | cons e l ih =>
    cases m with
    | nil => exact absurd (h e.1) (by simp [get?])
    | cons e' m =>
      obtain ⟨x, v⟩ := e
      obtain ⟨y, w⟩ := e'
      obtain ⟨hx, hl'⟩ := List.pairwise_cons.1 hl
      obtain ⟨hy, hm'⟩ := List.pairwise_cons.1 hm
      have hxm : (x, v) ∈ (y, w) :: m := mem_of_get? ((h x).symm.trans (if_pos rfl))
      have hyl : (y, w) ∈ (x, v) :: l := mem_of_get? ((h y).trans (if_pos rfl))
      -- were the first keys not the same, each would stand behind the other one
      have hhead : (x, v) = (y, w) := by
        rcases List.mem_cons.1 hxm with heq | hxm
        · exact heq
        · rcases List.mem_cons.1 hyl with heq | hyl
          · exact heq.symm
          · have hyx : y < x := hy x (List.mem_map_of_mem (f := Prod.fst) hxm)
            have hxy : x < y := hx y (List.mem_map_of_mem (f := Prod.fst) hyl)
            exact absurd (htrans _ _ _ hxy hyx) (hirrefl x)
      cases hhead
      refine congrArg _ (ih hl' hm' fun k => ?_)
      by_cases hk : x = k
      · subst hk
        rw [get?_of_lt hirrefl hx, get?_of_lt hirrefl hy]
      · have hrest := h k
        simpa only [get?, if_neg hk] using hrest

theorem erase_of_not_mem {k : κ} {xs : List κ} (h : k ∉ xs) : erase k xs = xs := by
  unfold erase
  rw [List.filter_eq_self]
  intro a ha
  have hne : a ≠ k := by
    rintro rfl
    exact h ha
  simp [hne]

end ScriptDebug.Ascending
