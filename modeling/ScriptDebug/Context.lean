import ScriptDebug.Handle
import ScriptDebug.Hook.Event

/-!
# Debug contexts

A context is the meeting point of one execution thread, which parks in it, and the commands that let
the thread go. Each operation is one critical section.

* `pause`: running to paused, with the event paused at; refused when paused already or closed;
* `resume`, `close`: to running, waking every waiter; closing is for good;
* `wait`, `wake`: a thread queues up while the context is paused, and looks again when woken.
-/

namespace ScriptDebug

/-- The number of a thread. -/
abbrev ThreadId := Nat

/-- Whether the execution thread is free to run. -/
inductive RunState where
  | running | paused
  deriving DecidableEq, Repr

/-- The word for a run state. -/
def RunState.text : RunState → String
  | .running => "Running"
  | .paused => "Paused"

/-- **Context.** One execution under debugging. -/
structure Context where
  handle : Handle
  name : String
  state : RunState := .running
  /-- The event the context is paused at. -/
  pausedAt : Option Hook.Event := none
  /-- A closed context never pauses again. -/
  closed : Bool := false
  /-- The threads parked until the next resume or close. -/
  waiters : List ThreadId := []
  deriving DecidableEq, Repr

namespace Context

/-- Whether the context is paused. -/
def isPaused (c : Context) : Bool := c.state == .paused

/-- Why a context does not pause. -/
inductive Refusal where
  | closed | alreadyPaused
  deriving DecidableEq, Repr

/-- **Pause** at an event. -/
def pause (c : Context) (e : Hook.Event) : Except Refusal Context :=
  if c.closed then .error .closed
  else if c.isPaused then .error .alreadyPaused
  else .ok { c with state := .paused, pausedAt := some e }

/-- **Resume:** the context afterwards, and whether it was paused. -/
def resume (c : Context) : Context × Bool :=
  if c.isPaused then ({ c with state := .running, pausedAt := none, waiters := [] }, true)
  else (c, false)

/-- **Close** for good: the context afterwards, and whether it was paused. -/
def close (c : Context) : Context × Bool :=
  ({ c with state := .running, pausedAt := none, closed := true, waiters := [] }, c.isPaused)

/-- A thread looks whether it has to wait, and queues up if so. -/
def wait (c : Context) (t : ThreadId) : Context × Bool :=
  if c.isPaused then ({ c with waiters := t :: c.waiters }, true) else (c, false)

/-- A thread leaves the queue to look again. -/
def wake (c : Context) (t : ThreadId) : Context :=
  { c with waiters := c.waiters.filter (· ≠ t) }

/-! ## What each operation leaves -/

theorem isPaused_resume (c : Context) : c.resume.1.isPaused = false := by
  unfold resume
  split
  · rfl
  · rename_i h
    exact Bool.eq_false_iff.2 h

theorem isPaused_close (c : Context) : c.close.1.isPaused = false := rfl

/-- **Consistent.** Paused exactly with an event; closed only when running;
waited on only when paused. -/
def Consistent (c : Context) : Prop :=
  (c.pausedAt.isSome ↔ c.state = .paused) ∧ (c.closed = true → c.state = .running) ∧
    (c.waiters ≠ [] → c.state = .paused)

theorem consistent_new (h : Handle) (name : String) : Consistent { handle := h, name := name } := by
  simp [Consistent]

theorem Consistent.pause {c d : Context} {e : Hook.Event} (hp : c.pause e = .ok d) :
    Consistent d := by
  simp only [Context.pause] at hp
  split at hp
  · simp at hp
  · split at hp
    · simp at hp
    · rename_i hc _
      simp only [Except.ok.injEq] at hp
      subst hp
      simp_all [Consistent]

theorem Consistent.resume {c : Context} (h : Consistent c) : Consistent c.resume.1 := by
  simp only [Context.resume]
  split
  · simp [Consistent]
  · exact h

theorem Consistent.close (c : Context) : Consistent c.close.1 := by
  simp [Context.close, Consistent]

theorem Consistent.wait {c : Context} (h : Consistent c) (t : ThreadId) :
    Consistent (c.wait t).1 := by
  simp only [Context.wait]
  split
  · rename_i hp
    have : c.state = .paused := by simpa [isPaused] using hp
    simp_all [Consistent]
  · exact h

theorem Consistent.wake {c : Context} (h : Consistent c) (t : ThreadId) :
    Consistent (c.wake t) := by
  refine ⟨h.1, h.2.1, fun hw => h.2.2 fun he => hw ?_⟩
  simp [Context.wake, he]

end Context

end ScriptDebug
