import ScriptDebug.Context

/-!
# Rendezvous

Threads that meet at one context: each of them pauses, resumes, closes or waits, in any order. A
call is one critical section, but for a wait: its thread looks whether it has to wait, queues up if
so, and looks again once it is out of the queue, woken by a resume or a close, or gone early.
-/

namespace ScriptDebug

/-- **Call** on a context. -/
inductive Context.Call where
  | pause (e : Hook.Event)
  | resume
  | close
  | wait

/-- What a turn gives back to its thread. -/
inductive Context.Reply where
  | paused
  | refused (why : Context.Refusal)
  /-- A resume or a close has ended; whether it found the context paused. -/
  | released (was : Bool)
  /-- A wait has ended. -/
  | waited
  /-- Nothing has ended. -/
  | pending
  deriving DecidableEq

/-- **Rendezvous.** A context, and the threads whose wait has not ended. -/
structure Rendezvous where
  context : Context
  waiting : List ThreadId := []

namespace Rendezvous

/-- One turn of a thread. -/
inductive Turn where
  /-- A thread that does not wait makes a call. -/
  | call (t : ThreadId) (c : Context.Call)
  /-- A thread leaves the queue early. -/
  | leave (t : ThreadId)
  /-- A thread whose wait has not ended looks again, once it is out of the queue. -/
  | look (t : ThreadId)

/-- Nobody has been at the context yet. -/
def start (h : Handle) (name : String) : Rendezvous where
  context := { handle := h, name }

/-- A thread looks whether it has to wait: it queues up, or its wait ends. -/
def look (r : Rendezvous) (t : ThreadId) : Rendezvous × Context.Reply :=
  match r.context.wait t with
  | (x, true) => ({ context := x, waiting := r.waiting.insert t }, .pending)
  | (_, false) => ({ r with waiting := r.waiting.filter (· ≠ t) }, .waited)

/-- A thread makes a call. -/
def call (r : Rendezvous) (t : ThreadId) : Context.Call → Rendezvous × Context.Reply
  | .pause e =>
    match r.context.pause e with
    | .ok x => ({ r with context := x }, .paused)
    | .error why => (r, .refused why)
  | .resume => ({ r with context := r.context.resume.1 }, .released r.context.resume.2)
  | .close => ({ r with context := r.context.close.1 }, .released r.context.close.2)
  | .wait => r.look t

/-- **Step.** What a turn does; a turn that cannot be taken does nothing. -/
def step (r : Rendezvous) : Turn → Rendezvous × Context.Reply
  | .call t c => if t ∈ r.waiting then (r, .pending) else r.call t c
  | .leave t => ({ r with context := r.context.wake t }, .pending)
  | .look t => if t ∈ r.waiting ∧ t ∉ r.context.waiters then r.look t else (r, .pending)

/-- The rendezvous after any sequence of turns. -/
def run (r : Rendezvous) (turns : List Turn) : Rendezvous :=
  turns.foldl (fun r turn => (r.step turn).1) r

/-- What the turns give back, one after the other. -/
def replies (r : Rendezvous) : List Turn → List Context.Reply
  | [] => []
  | turn :: turns => (r.step turn).2 :: (r.step turn).1.replies turns

@[simp] theorem run_nil (r : Rendezvous) : r.run [] = r := rfl

@[simp] theorem run_cons (r : Rendezvous) (turn : Turn) (turns : List Turn) :
    r.run (turn :: turns) = (r.step turn).1.run turns := rfl

theorem run_append (r : Rendezvous) (turns more : List Turn) :
    r.run (turns ++ more) = (r.run turns).run more := List.foldl_append

end Rendezvous

end ScriptDebug
