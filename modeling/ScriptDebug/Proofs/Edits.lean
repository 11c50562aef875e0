import Mathlib.Data.Finset.Basic
import ScriptDebug.Proofs.ByteOrder
import ScriptDebug.Proofs.Members

/-!
# Edits of the breakpoint table

The table is edited by adding, removing and clearing. Beside it stands a finite set that is edited
in the same way, and each edit of either tells whether it changed anything.

1. One edit keeps a table that holds a set in step with it, and both tell the same (`Holds.edit`).
2. So do edits in any number (`Holds.editAll`), from the empty table on.
3. A table that holds a set lists it in the order of bytes and lines (`Ordered.pairwise_all`), keeps
   no file without lines, and is the only one to hold that set (`Holds.unique`).
-/

namespace ScriptDebug

/-- **Before.** The order of a listing: lines by the bytes of the file and then by number, and
behind them functions by the bytes of their names. -/
def Breakpoint.Before : Breakpoint → Breakpoint → Prop
  | .line file n, .line other m => Wire.ofText file < Wire.ofText other ∨ file = other ∧ n < m
  | .line _ _, .function _ => True
  | .function _, .line _ _ => False
  | .function name, .function other => Wire.ofText name < Wire.ofText other

namespace BreakpointTable

/-- **Edit.** -/
inductive Edit where
  | add (b : Breakpoint)
  | remove (b : Breakpoint)
  | clear
  deriving DecidableEq, Repr

/-- An edit of a table: the table behind it, and what the edit tells. -/
def edit (table : BreakpointTable) : Edit → BreakpointTable × Option Bool
  | .add b => ((table.add b).1, some (table.add b).2)
  | .remove b => ((table.remove b).1, some (table.remove b).2)
  | .clear => ({}, none)

/-- The same edit of a set: adding tells whether the breakpoint was absent,
removing whether it was present. -/
def Edit.ofSet (set : Finset Breakpoint) : Edit → Finset Breakpoint × Option Bool
  | .add b => (insert b set, some (b ∉ set))
  | .remove b => (set.erase b, some (b ∈ set))
  | .clear => (∅, none)

/-- Edits one after the other: what they lead to, and what each of them tells. -/
def editAll {σ : Type} (apply : σ → Edit → σ × Option Bool) (s : σ) :
    List Edit → σ × List (Option Bool)
  | [] => (s, [])
  | e :: edits =>
    let (s, told) := apply s e
    let (s, rest) := editAll apply s edits
    (s, told :: rest)

/-- The table that edits of the empty one lead to. -/
def behind (edits : List Edit) : BreakpointTable := (editAll edit {} edits).1

/-- The set that the same edits of the empty set lead to. -/
def setBehind (edits : List Edit) : Finset Breakpoint := (editAll Edit.ofSet ∅ edits).1

variable {table other : BreakpointTable} {set : Finset Breakpoint} {b : Breakpoint}

/-- **Holds.** A table in order, in which just the breakpoints of a set are set. -/
structure Holds (table : BreakpointTable) (set : Finset Breakpoint) : Prop where
  ordered : table.Ordered
  contains : ∀ b, table.contains b = true ↔ b ∈ set

theorem holds_empty : Holds {} ∅ where
  ordered := ordered_empty
  contains b := by simp [contains_empty]

theorem Holds.contains_eq (h : table.Holds set) (b : Breakpoint) :
    table.contains b = decide (b ∈ set) := by
  rw [Bool.eq_iff_iff, h.contains, decide_eq_true_iff]

/-- **One edit** of a table and of the set that it holds. -/
theorem Holds.edit (h : table.Holds set) (e : Edit) :
    (table.edit e).1.Holds (e.ofSet set).1 ∧ (table.edit e).2 = (e.ofSet set).2 := by
  cases e with
  | add b =>
    refine ⟨⟨h.ordered.add b, fun c => ?_⟩, ?_⟩
    · show (table.add b).1.contains c = true ↔ c ∈ insert b set
      rw [contains_add, h.contains, Finset.mem_insert]
    · show some (table.add b).2 = some (decide (b ∉ set))
      rw [snd_add, h.contains_eq, decide_not]
  | remove b =>
    refine ⟨⟨h.ordered.remove b, fun c => ?_⟩, ?_⟩
    · show (table.remove b).1.contains c = true ↔ c ∈ set.erase b
      rw [contains_remove, h.contains, Finset.mem_erase]
    · show some (table.remove b).2 = some (decide (b ∈ set))
      rw [snd_remove, h.contains_eq]
  | clear => exact ⟨holds_empty, rfl⟩

/-- **All edits** of a table and of the set that it holds. -/
theorem Holds.editAll (h : table.Holds set) (edits : List Edit) :
    (editAll BreakpointTable.edit table edits).1.Holds
      (BreakpointTable.editAll Edit.ofSet set edits).1 ∧
      (BreakpointTable.editAll BreakpointTable.edit table edits).2 =
      (BreakpointTable.editAll Edit.ofSet set edits).2 := by
  induction edits generalizing table set with
  | nil => exact ⟨h, rfl⟩
  | cons e edits ih =>
    obtain ⟨hnext, htold⟩ := h.edit e
    obtain ⟨hlast, hrest⟩ := ih hnext
    exact ⟨hlast, congrArg₂ List.cons htold hrest⟩

theorem holds_behind (edits : List Edit) : (behind edits).Holds (setBehind edits) :=
  (holds_empty.editAll edits).1

theorem Holds.mem_all (h : table.Holds set) : b ∈ table.all ↔ b ∈ set := by
  rw [h.ordered.mem_all, h.contains]

theorem Holds.unique (h : table.Holds set) (h' : other.Holds set) : table = other :=
  h.ordered.ext h'.ordered fun b => (h.contains b).trans (h'.contains b).symm

/-- **The listing is in order.** -/
theorem Ordered.pairwise_all (h : table.Ordered) : table.all.Pairwise Breakpoint.Before := by
  unfold all
  rw [List.pairwise_append]
  refine ⟨?_, ?_, ?_⟩
  · rw [List.pairwise_flatMap]
    refine ⟨fun e he => ?_, ?_⟩
    · exact List.pairwise_map.2 ((h.lines e.1 e.2 he).2.imp fun hlt => .inr ⟨rfl, hlt⟩)
    · refine (List.pairwise_map.1 h.files).imp fun {e e'} hlt b hb b' hb' => ?_
      obtain ⟨n, -, rfl⟩ := List.mem_map.1 hb
      obtain ⟨m, -, rfl⟩ := List.mem_map.1 hb'
      exact .inl (Wire.ofText_lt_ofText.2 hlt)
  · exact List.pairwise_map.2 (h.functions.imp Wire.ofText_lt_ofText.2)
  · intro b hb b' hb'
    obtain ⟨e, -, hb⟩ := List.mem_flatMap.1 hb
    obtain ⟨n, -, rfl⟩ := List.mem_map.1 hb
    obtain ⟨name, -, rfl⟩ := List.mem_map.1 hb'
    trivial

theorem Ordered.isEmpty_iff (h : table.Ordered) : table.isEmpty = true ↔ table.all = [] := by
  unfold isEmpty all
  rw [Bool.and_eq_true, List.isEmpty_iff, List.isEmpty_iff, List.append_eq_nil_iff,
    List.map_eq_nil_iff, List.flatMap_eq_nil_iff]
  refine and_congr_left' ⟨fun hnil e he => ?_, fun hnone => ?_⟩
  · rw [hnil] at he
    cases he
  · -- a file that is kept has a line, which is listed
    refine List.eq_nil_iff_forall_not_mem.2 fun e he => ?_
    exact (h.lines e.1 e.2 he).1 (List.map_eq_nil_iff.1 (hnone e he))

/-- **The table is a sorted set.** Behind any edits of an empty table, each has told whether it
changed the set; the listing shows the set, each breakpoint once and in order; no file is kept
without lines, so that a table is empty if nothing is listed; and tables are the same if they hold
the same set, whatever edits led there. -/
theorem edits_keep_sorted_set (edits : List Edit) :
    (editAll edit {} edits).2 = (editAll Edit.ofSet ∅ edits).2 ∧
    (∀ b, b ∈ (behind edits).all ↔ b ∈ setBehind edits) ∧
    (behind edits).all.Nodup ∧ (behind edits).all.Pairwise Breakpoint.Before ∧
    (∀ file lines, (file, lines) ∈ (behind edits).files → lines ≠ []) ∧
    ((behind edits).isEmpty = true ↔ (behind edits).all = []) ∧
    ∀ others, behind others = behind edits ↔ setBehind others = setBehind edits := by
  have hholds := holds_behind edits
  have hordered := hholds.ordered
  refine ⟨(holds_empty.editAll edits).2, fun b => hholds.mem_all, hordered.nodup_all,
    hordered.pairwise_all, fun file lines hmem => (hordered.lines file lines hmem).1,
    hordered.isEmpty_iff, fun others => ⟨?_, ?_⟩⟩
  · intro heq
    ext b
    rw [← hholds.mem_all, ← (holds_behind others).mem_all, heq]
  · intro heq
    exact (heq ▸ holds_behind others).unique hholds

end BreakpointTable

end ScriptDebug
