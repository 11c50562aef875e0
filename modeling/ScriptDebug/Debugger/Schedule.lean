import ScriptDebug.Debugger.Step

/-!
# Schedules

`Schedule` is any order of steps, with operations given to idle threads and early wake-ups in
between. The turn-taking schedule runs one thread until it parks or ends, and then the others,
lowest number first; it is what a session does, and one of the schedules.
-/

namespace ScriptDebug.Debugger

variable {S : Setup}

/-- One event of a schedule. -/
inductive Turn where
  /-- A thread does one step, if it can. -/
  | step (t : ThreadId)
  /-- A thread with nothing to do gets an operation. -/
  | call (t : ThreadId) (op : Operation)
  /-- A parked thread looks again without being woken. -/
  | wake (t : ThreadId) (c : ContextId)

/-- What a turn does; a turn that cannot be taken does nothing. -/
def take (d : Debugger S) : Turn → Debugger S
  | .step t => (d.step t).getD d
  | .call t op => if (d.thread t).agenda.isEmpty then d.call t op else d
  | .wake t c => d.wakeEarly t c

/-- **Schedule.** The state after any sequence of turns. -/
def takeAll (d : Debugger S) (turns : List Turn) : Debugger S := turns.foldl take d

@[simp] theorem takeAll_nil (d : Debugger S) : d.takeAll [] = d := rfl

@[simp] theorem takeAll_cons (d : Debugger S) (turn : Turn) (turns : List Turn) :
    d.takeAll (turn :: turns) = (d.take turn).takeAll turns := rfl

theorem takeAll_append (d : Debugger S) (l r : List Turn) :
    d.takeAll (l ++ r) = (d.takeAll l).takeAll r := List.foldl_append

/-! ## Taking turns -/

/-- Run one thread until it has nothing to do or has to wait, for at most `fuel` steps. -/
def runThread (d : Debugger S) (t : ThreadId) : Nat → Debugger S
  | 0 => d
  | fuel + 1 =>
    match d.step t with
    | none => d
    | some d => runThread d t fuel

/-- Whether a thread can do a step. -/
def canStep (d : Debugger S) (t : ThreadId) : Bool := (d.step t).isSome

/-- The first of some threads that can do a step. -/
def firstReady (d : Debugger S) (ts : List ThreadId) : Option ThreadId := ts.find? d.canStep

/-- Let threads take turns, the first one of the list that can go, until none can; at most `fuel`
turns of at most `fuel` steps. -/
def settle (d : Debugger S) (ts : List ThreadId) (fuel : Nat) : Nat → Debugger S
  | 0 => d
  | turns + 1 =>
    match d.firstReady ts with
    | none => d
    | some t => settle (d.runThread t fuel) ts fuel turns

/-- Running one thread is a schedule. -/
theorem runThread_eq_takeAll (d : Debugger S) (t : ThreadId) (fuel : Nat) :
    ∃ n, d.runThread t fuel = d.takeAll (List.replicate n (.step t)) := by
  induction fuel generalizing d with
  | zero => exact ⟨0, rfl⟩
  | succ fuel ih =>
    simp only [runThread]
    cases h : d.step t with
    | none => exact ⟨0, rfl⟩
    | some e =>
      obtain ⟨n, hn⟩ := ih e
      exact ⟨n + 1, by simp [List.replicate_succ, take, h, hn]⟩

/-- Taking turns is a schedule. -/
theorem settle_eq_takeAll (d : Debugger S) (ts : List ThreadId) (fuel turns : Nat) :
    ∃ l, d.settle ts fuel turns = d.takeAll l := by
  induction turns generalizing d with
  | zero => exact ⟨[], rfl⟩
  | succ turns ih =>
    simp only [settle]
    cases d.firstReady ts with
    | none => exact ⟨[], rfl⟩
    | some t =>
      obtain ⟨n, hn⟩ := runThread_eq_takeAll d t fuel
      obtain ⟨l, hl⟩ := ih (d.runThread t fuel)
      exact ⟨List.replicate n (.step t) ++ l, by rw [takeAll_append, ← hn]; exact hl⟩

end ScriptDebug.Debugger
