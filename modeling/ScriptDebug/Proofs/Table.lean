import Mathlib.Data.String.Basic
import ScriptDebug.Proofs.Handler

/-!
# The breakpoint table in order

The table keeps its files, the lines of each, and its functions in strictly ascending order, and no
file without lines (`Ordered`), whatever a client sets and clears. So a breakpoint that is not set
leaves no trace when it is cleared (`Ordered.remove_of_not_contains`). In a session it is only the
client logic that changes the table: what setting and clearing keep holds along every schedule
(`table_instant`), and order is kept (`ordered_instant`).
-/

namespace ScriptDebug.BreakpointTable

variable {table : BreakpointTable} {file : String} {lines : List Int}

/-- **Ordered.** -/
structure Ordered (table : BreakpointTable) : Prop where
  files : (table.files.map (·.1)).Pairwise (· < ·)
  lines : ∀ file lines, (file, lines) ∈ table.files → lines ≠ [] ∧ lines.Pairwise (· < ·)
  functions : table.functions.Pairwise (· < ·)

theorem ordered_empty : Ordered {} where
  files := .nil
  lines _ _ h := nomatch h
  functions := .nil

theorem Ordered.linesOf (h : table.Ordered) (file : String) :
    (table.linesOf file).Pairwise (· < ·) := by
  unfold BreakpointTable.linesOf
  cases hget : Ascending.get? file table.files with
  | none => exact .nil
  | some lines => exact (h.lines file lines (Ascending.mem_of_get? hget)).2

theorem Ordered.put (h : table.Ordered) (file : String) (hne : lines ≠ [])
    (hlines : lines.Pairwise (· < ·)) :
    Ordered { table with files := Ascending.put file lines table.files } where
  files := Ascending.pairwise_put (fun _ _ _ => lt_trans)
    (fun _ _ hle hab => lt_of_le_of_ne (not_lt.1 hle) (Ne.symm hab)) h.files file lines
  lines f ls hmem := by
    rcases Ascending.mem_put hmem with ⟨rfl, rfl⟩ | hold
    · exact ⟨hne, hlines⟩
    · exact h.lines f ls hold
  functions := h.functions

theorem Ordered.add (h : table.Ordered) (b : Breakpoint) : (table.add b).1.Ordered := by
  cases b with
  | line file line =>
    have hmem : line ∈ Ascending.insert line (table.linesOf file) :=
      Ascending.mem_insert.2 (.inl rfl)
    refine h.put file (List.ne_nil_of_mem hmem)
      (Ascending.pairwise_insert (fun _ _ _ => lt_trans) ?_
      (h.linesOf file) line)
    intro a b hle hab
    omega
  | function name =>
    exact ⟨h.files, h.lines, Ascending.pairwise_insert (fun _ _ _ => lt_trans)
      (fun _ _ hle hab => lt_of_le_of_ne (not_lt.1 hle) (Ne.symm hab)) h.functions name⟩

theorem Ordered.remove (h : table.Ordered) (b : Breakpoint) : (table.remove b).1.Ordered := by
  cases b with
  | line file line =>
    cases hget : Ascending.get? file table.files with
    | none =>
      simp only [BreakpointTable.remove, hget]
      exact h
    | some lines =>
      have hlines := (h.lines file lines (Ascending.mem_of_get? hget)).2
      cases herase : Ascending.erase line lines with
      | nil =>
        simp only [BreakpointTable.remove, hget, herase]
        refine ⟨Ascending.pairwise_remove h.files file, fun f ls hmem => ?_, h.functions⟩
        exact h.lines f ls (Ascending.mem_remove.1 hmem).2
      | cons l rest =>
        simp only [BreakpointTable.remove, hget, herase]
        refine h.put file (by simp) ?_
        rw [← herase]
        exact hlines.sublist List.filter_sublist
  | function name => exact ⟨h.files, h.lines, h.functions.sublist List.filter_sublist⟩

/-- **A breakpoint that is not set** leaves no trace when it is cleared. -/
theorem Ordered.remove_of_not_contains (h : table.Ordered) {b : Breakpoint}
    (hb : table.contains b = false) : (table.remove b).1 = table := by
  cases b with
  | line file line =>
    cases hget : Ascending.get? file table.files with
    | none => simp only [BreakpointTable.remove, hget]
    | some lines =>
      have hline : line ∉ lines := by
        simpa [contains, BreakpointTable.linesOf, hget] using hb
      have hne := (h.lines file lines (Ascending.mem_of_get? hget)).1
      have herase := Ascending.erase_of_not_mem hline
      have hput := Ascending.put_of_get? (fun _ => lt_irrefl _) (fun _ _ _ => lt_trans) h.files hget
      cases lines with
      | nil => exact absurd rfl hne
      | cons l rest => simp only [BreakpointTable.remove, hget, herase, hput]
  | function name =>
    have hname : name ∉ table.functions := by simpa [contains] using hb
    simp only [BreakpointTable.remove, Ascending.erase_of_not_mem hname]

end ScriptDebug.BreakpointTable

namespace ScriptDebug.Protocol

variable {table : BreakpointTable} {p : Point} {last : Answer} {P : BreakpointTable → Prop}

theorem toCommand_setBreakpoint {r : Request} {b : Breakpoint}
    (h : r.toCommand = .ok (.setBreakpoint b)) :
    Breakpoint.read r.data = .ok b := by
  unfold Request.toCommand Request.listing Request.showing Request.setting Request.arguments at h
  simp only [bind, Except.bind, pure, Except.pure] at h
  split at h <;> (repeat' split at h) <;> cases h
  cases hread : Breakpoint.read r.data <;> simp_all [Except.mapError]

theorem readCommand_setBreakpoint {j : Json} {b : Breakpoint}
    (h : readCommand j = .ok (.setBreakpoint b)) :
    ∃ data, Breakpoint.read data = .ok b := by
  unfold readCommand at h
  simp only [bind, Except.bind] at h
  split at h
  · exact absurd h (by simp)
  · exact ⟨_, toCommand_setBreakpoint h⟩

/-- **What clients do to the table.** A property of the empty table that is kept when a breakpoint
is set that can be read, and when one is cleared, is kept by every answer. -/
theorem answer_keeps (hnone : P {})
    (hset : ∀ table b data, P table → Breakpoint.read data = .ok b → P (table.add b).1)
    (hclear : ∀ table b, P table → P (table.remove b).1) (h : P table) (route : Route) (j : Json) :
    P (answer table route j).1 := by
  unfold answer
  split
  · exact h
  · rename_i command hread
    cases command with
    | use op => exact h
    | setBreakpoint b =>
      obtain ⟨data, hdata⟩ := readCommand_setBreakpoint hread
      exact hset table b data h hdata
    | clearBreakpoint b => exact hclear table b h
    | clearAll => exact hnone
    | listBreakpoints => exact h

theorem step_keeps (hnone : P {})
    (hset : ∀ table b data, P table → Breakpoint.read data = .ok b → P (table.add b).1)
    (hclear : ∀ table b, P table → P (table.remove b).1) (h : P table) (p : Point) (last : Answer) :
    P (step table p last).1 := by
  cases p with
  | called call =>
    cases call with
    | message text =>
      simp only [step, enter]
      split
      · exact h
      · exact answer_keeps hnone hset hclear h .message _
    | request j => exact answer_keeps hnone hset hclear h .caller j
    | breakpoint x name e =>
      simp only [step, enter]
      split <;> exact h
    | _ => exact h
  | answering => exact h
  | sending =>
    simp only [step]
    split <;> exact h

end ScriptDebug.Protocol

namespace ScriptDebug.Debugger

variable {host : Host} {sink : Sink} {d e : Debugger (Protocol.setup host sink)}

/-- The breakpoints of a session. -/
def breakpoints (d : Debugger (Protocol.setup host sink)) : BreakpointTable := d.logic

theorem act_logic {S : Setup} {d e : Debugger S} {t : ThreadId} {last ans : Answer} {a : Action S}
    {todo : List (Action S)} (h : d.act t last a = some (e, todo, ans)) :
    e.logic = d.logic ∨ ∃ p, a = .logic p ∧ e.logic = (S.logic.step d.logic p last).1 := by
  cases act_yields h with
  | logic p => exact .inr ⟨p, rfl, rfl⟩
  | _ => exact .inl rfl

/-- **The table along a schedule.** What no step of the client logic breaks holds of the
breakpoints at every instant. -/
theorem table_instant {P : BreakpointTable → Prop}
    (hstep : ∀ table p last, P table → P (Protocol.step table p last).1) (h : P d.breakpoints)
    (σ : Schedule) (n : Nat) : P (d.instant σ n).breakpoints := by
  refine instant_invariant (P := fun d => P d.breakpoints) h (fun n t d' h hs => ?_)
    (fun _ _ _ _ h _ _ => h) (fun _ _ _ _ h _ => h) n
  obtain ⟨a, rest, e, todo, ans, -, hact, rfl, -⟩ := step_cases hs
  have hlogic : (e.setThread t ⟨todo ++ rest, ans⟩).breakpoints = e.breakpoints := rfl
  rw [hlogic]
  rcases act_logic hact with hsame | ⟨p, -, hmove⟩
  · have htable : e.breakpoints = (d.instant σ n).breakpoints := hsame
    rw [htable]
    exact h
  · have htable : e.breakpoints = (Protocol.step (d.instant σ n).breakpoints p _).1 := hmove
    rw [htable]
    exact hstep _ p _ h

/-- **In order along every schedule.** -/
theorem ordered_instant (h : d.breakpoints.Ordered) (σ : Schedule) (n : Nat) :
    (d.instant σ n).breakpoints.Ordered :=
  table_instant (P := BreakpointTable.Ordered)
    (fun _ p last h => Protocol.step_keeps BreakpointTable.ordered_empty
      (fun _ b _ h _ => h.add b) (fun _ b h => h.remove b) h p last) h σ n

end ScriptDebug.Debugger
