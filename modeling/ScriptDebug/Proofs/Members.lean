import Mathlib.Data.List.Sort
import ScriptDebug.Proofs.Matching
import ScriptDebug.Proofs.Table

/-!
# The breakpoint table as a set

What is set after breakpoints have been added or removed is known from what was set before
(`contains_add`, `contains_remove`), and the listing of a table in order tells what is set, each
once (`Ordered.mem_all`, `Ordered.nodup_all`). Two tables in order in which the same breakpoints are
set are the same (`Ordered.ext`), so the listing does not depend on how they came to be set.
-/

namespace ScriptDebug

namespace BreakpointTable

variable {table other : BreakpointTable} {b c : Breakpoint} {file : String} {line : Int}
  {lines : List Int}

/-! ## What is set -/

theorem contains_line : table.contains (.line file line) = true ↔ line ∈ table.linesOf file := by
  unfold contains
  exact List.contains_iff_mem

theorem contains_function {name : String} :
    table.contains (.function name) = true ↔ name ∈ table.functions := by
  unfold contains
  exact List.contains_iff_mem

theorem contains_empty (b : Breakpoint) : ({} : BreakpointTable).contains b = false := by
  cases b <;> rfl

theorem linesOf_put (f : String) :
    linesOf { table with files := Ascending.put file lines table.files } f =
      if f = file then lines else table.linesOf f := by
  unfold linesOf
  by_cases hf : f = file
  · subst hf
    simp [Ascending.get?_put_self]
  · simp [hf, Ascending.get?_put_ne hf]

/-- **Adding** a breakpoint sets it, and no other one. -/
theorem contains_add : (table.add b).1.contains c = true ↔ c = b ∨ table.contains c = true := by
  cases b with
  | line file line =>
    cases c with
    | line f n =>
      rw [contains_line, contains_line, Breakpoint.line.injEq]
      show n ∈ linesOf { table with files := Ascending.put file _ table.files } f ↔ _
      rw [linesOf_put]
      by_cases hf : f = file
      · subst hf
        simp [Ascending.mem_insert]
      · simp [hf]
    | function name => simp [contains, add]
  | function name =>
    cases c with
    | line f n => simp [contains, add, linesOf]
    | function other => simp [contains, add, Ascending.mem_insert]

theorem linesOf_remove (f : String) :
    (table.remove (.line file line)).1.linesOf f =
      if f = file then Ascending.erase line (table.linesOf file) else table.linesOf f := by
  cases hget : Ascending.get? file table.files with
  | none =>
    have hnone : table.linesOf file = [] := by simp [linesOf, hget]
    simp only [remove, hget, hnone]
    split
    · rename_i hf
      rw [hf, hnone]
      rfl
    · rfl
  | some lines =>
    have hlines : table.linesOf file = lines := by simp [linesOf, hget]
    rw [hlines]
    cases herase : Ascending.erase line lines with
    | nil =>
      simp only [remove, hget, herase, linesOf]
      by_cases hf : f = file
      · subst hf
        simp [Ascending.get?_remove_self]
      · simp [hf, Ascending.get?_remove_ne hf]
    | cons l rest =>
      simp only [remove, hget, herase]
      exact linesOf_put f

/-- **Removing** a breakpoint clears it, and no other one. -/
theorem contains_remove :
    (table.remove b).1.contains c = true ↔ c ≠ b ∧ table.contains c = true := by
  cases b with
  | line file line =>
    cases c with
    | line f n =>
      rw [contains_line, contains_line, linesOf_remove]
      by_cases hf : f = file
      · subst hf
        simp [Ascending.mem_erase]
      · simp [hf]
    | function name =>
      have hsame : (table.remove (.line file line)).1.functions = table.functions := by
        simp only [remove]
        split
        · rfl
        · split <;> rfl
      rw [contains_function, contains_function, hsame]
      simp
  | function name =>
    cases c with
    | line f n => simp [contains, remove, linesOf]
    | function other => simp [contains, remove, Ascending.mem_erase]

/-! ## The listing -/

theorem Ordered.mem_lines (h : table.Ordered) :
    (∃ lines, (file, lines) ∈ table.files ∧ line ∈ lines) ↔ line ∈ table.linesOf file := by
  unfold BreakpointTable.linesOf
  constructor
  · rintro ⟨lines, hmem, hline⟩
    rw [Ascending.get?_of_mem (fun _ => lt_irrefl _) h.files hmem]
    exact hline
  · cases hget : Ascending.get? file table.files with
    | none =>
      intro hline
      cases hline
    | some lines => exact fun hline => ⟨lines, Ascending.mem_of_get? hget, hline⟩

/-- **What is listed** is what is set. -/
theorem Ordered.mem_all (h : table.Ordered) : b ∈ table.all ↔ table.contains b = true := by
  cases b with
  | line file line => rw [line_mem_all, contains_line, h.mem_lines]
  | function name => rw [function_mem_all, contains_function]

/-- **Nothing is listed twice.** -/
theorem Ordered.nodup_all (h : table.Ordered) : table.all.Nodup := by
  unfold all
  rw [List.nodup_append]
  refine ⟨?_, ?_, ?_⟩
  · rw [List.nodup_flatMap]
    refine ⟨fun e he => ?_, ?_⟩
    · have hlines := (h.lines e.1 e.2 he).2
      exact (hlines.imp ne_of_lt).map _ fun a b hab heq => hab (Breakpoint.line.inj heq).2
    · -- the lines of two files differ in the file they name
      refine (List.pairwise_map.1 h.files).imp fun {e e'} hlt b hb hb' => ?_
      obtain ⟨l, -, rfl⟩ := List.mem_map.1 hb
      obtain ⟨l', -, heq⟩ := List.mem_map.1 hb'
      exact absurd (Breakpoint.line.inj heq).1.symm (ne_of_lt hlt)
  · exact (h.functions.imp ne_of_lt).map _ fun a b hab heq => hab (Breakpoint.function.inj heq)
  · intro b hb b' hb' heq
    obtain ⟨e, -, hb⟩ := List.mem_flatMap.1 hb
    obtain ⟨l, -, rfl⟩ := List.mem_map.1 hb
    obtain ⟨name, -, rfl⟩ := List.mem_map.1 hb'
    cases heq

theorem Ordered.get?_files (h : table.Ordered) (file : String) :
    Ascending.get? file table.files = if table.linesOf file = [] then none else some
      (table.linesOf file) := by
  unfold BreakpointTable.linesOf
  cases hget : Ascending.get? file table.files with
  | none => rfl
  | some lines =>
    have hne := (h.lines file lines (Ascending.mem_of_get? hget)).1
    simp [hne]

/-- **One table for a set.** Two tables in order in which the same breakpoints
are set are the same. -/
theorem Ordered.ext (h : table.Ordered) (h' : other.Ordered)
    (hsame : ∀ b, table.contains b = true ↔ other.contains b = true) : table = other := by
  have hfunctions : table.functions = other.functions := by
    refine h.functions.eq_of_mem_iff h'.functions fun name => ?_
    rw [← contains_function, ← contains_function]
    exact hsame _
  have hlines (file : String) : table.linesOf file = other.linesOf file := by
    refine (h.linesOf file).eq_of_mem_iff (h'.linesOf file) fun line => ?_
    rw [← contains_line, ← contains_line]
    exact hsame _
  have hfiles : table.files = other.files := by
    refine Ascending.eq_of_get? (fun _ => lt_irrefl _) (fun _ _ _ => lt_trans) h.files h'.files
      fun file => ?_
    rw [h.get?_files, h'.get?_files, hlines]
  obtain ⟨files, functions⟩ := table
  obtain ⟨_, _⟩ := other
  obtain rfl : files = _ := hfiles
  obtain rfl : functions = _ := hfunctions
  rfl

end BreakpointTable

end ScriptDebug
