import ScriptDebug.Debugger.Schedule

/-!
# Sessions

A session drives a debugger from one command thread, which works off one operation at a time, and
from execution threads, each of which works off one operation of its own. Whenever a command is
done, the execution threads that can go take turns.
-/

namespace ScriptDebug.Debugger

variable {S : Setup}

/-- The thread that works off commands. -/
def commandThread : ThreadId := 0

/-- A debugger with nothing but a command thread. -/
def start (host : S.host.State) (logic : S.logic.State) (sink : S.sink.State) : Debugger S :=
  { host, logic, sink, threads := [{}] }

/-- How many steps a session waits for a thread to park or end. -/
def patience : Nat := 1000000000000

/-- **Perform** an operation on the command thread, and tell its answer. -/
def perform (d : Debugger S) (op : Operation) : Debugger S × Answer :=
  let d := (d.call commandThread op).runThread commandThread patience
  (d, (d.thread commandThread).answer)

/-- **Launch** an operation on a new execution thread, up to its first park or its end. -/
def launch (d : Debugger S) (op : Operation) : Debugger S × ThreadId :=
  let t := d.threads.length
  ((d.spawn op).runThread t patience, t)

/-- The execution threads. -/
def executionThreads (d : Debugger S) : List ThreadId :=
  (List.range d.threads.length).filter (· ≠ commandThread)

/-- The execution threads that have not ended. -/
def live (d : Debugger S) : List ThreadId :=
  d.executionThreads.filter fun t => !(d.thread t).agenda.isEmpty

/-- Let the execution threads take turns until each one waits or has ended. -/
def settleAll (d : Debugger S) : Debugger S :=
  d.settle d.executionThreads patience patience

/-- **Run out:** resume every context until no execution thread is left, at most `rounds` times. -/
def runOut (d : Debugger S) : Nat → Debugger S
  | 0 => d
  | rounds + 1 =>
    if d.live.isEmpty then d else runOut (d.perform .resumeAll).1.settleAll rounds

/-- A session is a schedule: performing an operation is one. -/
theorem perform_eq_takeAll (d : Debugger S) (op : Operation)
    (h : (d.thread commandThread).agenda = []) :
    ∃ l, (d.perform op).1 = d.takeAll l := by
  obtain ⟨n, hn⟩ := runThread_eq_takeAll (d.call commandThread op) commandThread patience
  refine ⟨.call commandThread op :: List.replicate n (.step commandThread), ?_⟩
  simp only [perform, takeAll_cons, hn, take, h, List.isEmpty_nil, if_true]

end ScriptDebug.Debugger
