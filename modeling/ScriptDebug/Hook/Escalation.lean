import ScriptDebug.Hook.Event

/-!
# Escalation

Most hook events are no concern of the client. Only events of script frames go on: calls of
functions with a name, lines of files, and returns.
-/

namespace ScriptDebug.Hook

/-- Why an event goes no further. -/
inductive Ignored where
  /-- The frame runs no script function. -/
  | otherFrame
  /-- A call of a function without a name. -/
  | namelessCall
  /-- A line of a chunk that was not loaded from a file. -/
  | textChunk
  /-- A periodic checkpoint. -/
  | countCheck
  /-- A checkpoint that nothing is done for. -/
  | unhandled
  deriving DecidableEq, Repr

/-- **Escalation policy.** Why an event goes no further, or `none` if it goes on. -/
def Event.ignored? (e : Event) : Option Ignored :=
  if e.frame ≠ .script then some .otherFrame
  else match e.kind with
    | .call => if e.functionName.isSome then none else some .namelessCall
    | .line => if e.isFile then none else some .textChunk
    | .return => none
    | .count => some .countCheck
    | .tailReturn | .unknown _ => some .unhandled

/-- Whether an event goes on to the client logic. -/
def Event.escalates (e : Event) : Bool := e.ignored?.isNone

theorem Event.escalates_iff (e : Event) :
    e.escalates = true ↔ e.frame = .script ∧
      ((e.kind = .call ∧ e.functionName.isSome) ∨ (e.kind = .line ∧ e.isFile) ∨
        e.kind = .return) := by
  unfold escalates ignored?
  by_cases hf : e.frame = .script
  · cases hn : e.functionName.isSome <;> cases hi : e.isFile <;> cases hk : e.kind <;>
      simp [hf]
  · simp [hf]

end ScriptDebug.Hook
