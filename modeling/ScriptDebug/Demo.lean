import ScriptDebug.Debugger.Schedule
import ScriptDebug.Script.Host

/-!
# Demo threads

Workers that run the demo program over and over, each on an execution thread of its own that is
debugged under a name with its number. Either all of them start, or those that did are stopped
again; stopping a worker withdraws its execution thread from debugging, which wakes it if it is
parked, and waits for it to end.

The workers are started and stopped by the command thread; `control` is one atomic step of it, and
`work` one of a worker.
-/

namespace ScriptDebug

/-- The collaborators of a debugger over the script machine. -/
abbrev Demo.setup (logic : Logic) (sink : Sink) : Setup := ⟨Script.host, logic, sink⟩

/-- What a worker does next. -/
inductive Demo.Work where
  /-- Look whether to go on. -/
  | look
  /-- A run is under way. -/
  | run
  | over
  deriving DecidableEq, Repr

/-- **Worker.** -/
structure Demo.Worker where
  handle : Handle
  thread : ThreadId
  work : Demo.Work := .look
  deriving DecidableEq, Repr

/-- Why the workers were not started. -/
inductive Demo.Failure where
  | attach (name : String) (f : RegistryFailure)
  | spawn (name : String) (reason : String)
  deriving DecidableEq, Repr

/-- The wording of a failed start, the cause behind what failed. -/
def Demo.Failure.message : Demo.Failure → String
  | .attach name f => s!"failed to attach {name}: {f.message}"
  | .spawn name reason => s!"failed to spawn {name}: {reason}"

/-- The name of a worker. -/
def Demo.workerName (i : Nat) : String := s!"demo-{i}"

/-- **Stage** of the workers as a whole. -/
inductive Demo.Stage where
  /-- Worker `i` is next, of `count`. -/
  | start (i count : Nat)
  /-- The execution thread of a worker is being attached. -/
  | attach (i count : Nat) (h : Handle)
  /-- The attached worker gets a thread. -/
  | spawn (i count : Nat) (h : Handle)
  /-- The execution thread of a worker without a thread is being detached. -/
  | undo (f : Demo.Failure)
  | running
  /-- Stop the workers that are left. -/
  | stop (left : List Demo.Worker) (f : Option Demo.Failure)
  /-- The execution thread of a worker is being detached. -/
  | detach (w : Demo.Worker) (left : List Demo.Worker) (f : Option Demo.Failure)
  /-- Wait for a worker to end. -/
  | join (w : Demo.Worker) (left : List Demo.Worker) (f : Option Demo.Failure)
  | over (f : Option Demo.Failure)

/-- **Demo threads** over a debugger. -/
structure Demo (logic : Logic) (sink : Sink) where
  debugger : Debugger (Demo.setup logic sink)
  /-- The thread that starts and stops the workers. -/
  commands : ThreadId := 0
  /-- Whether the workers go on. -/
  keepOn : Bool := true
  /-- The workers that have a thread. -/
  workers : List Demo.Worker := []
  stage : Demo.Stage

namespace Demo

variable {logic : Logic} {sink : Sink}

/-- Start a number of workers. -/
def begin (debugger : Debugger (setup logic sink)) (count : Nat) : Demo logic sink :=
  { debugger, stage := .start 0 count }

/-- Whether a thread has nothing to do. -/
def isIdle (d : Demo logic sink) (t : ThreadId) : Bool := (d.debugger.thread t).agenda.isEmpty

/-- Give an operation to a thread. -/
def callOn (d : Demo logic sink) (t : ThreadId) (op : Operation) : Demo logic sink :=
  { d with debugger := d.debugger.call t op }

/-- Whether a worker has ended. -/
def hasEnded (d : Demo logic sink) (w : Worker) : Bool :=
  d.workers.any fun v => v.thread == w.thread && v.work == .over

/-- Stop all workers, after a failure or on request. -/
def stopAll (d : Demo logic sink) (f : Option Failure) : Demo logic sink :=
  { d with keepOn := false, stage := .stop d.workers f }

/-- Make the execution thread of a worker. -/
def create (d : Demo logic sink) (name : String) : Demo logic sink × Handle :=
  let (machine, h) := Script.Machine.create d.debugger.host name
  ({ d with debugger := { d.debugger with host := machine } }, h)

/-- Give a worker its thread. -/
def addWorker (d : Demo logic sink) (h : Handle) : Demo logic sink :=
  { d with
    debugger := { d.debugger with threads := d.debugger.threads ++ [{}] }
    workers := d.workers ++ [{ handle := h, thread := d.debugger.threads.length }] }

/-- **One step** of the command thread; `fault` says why a thread cannot be made, if it cannot. -/
def control (d : Demo logic sink) (fault : Option String) : Demo logic sink :=
  match d.stage with
  | .start i count =>
    if count ≤ i then { d with stage := .running }
    else
      let (d, h) := d.create (workerName i)
      { d.callOn d.commands (.attach h (workerName i)) with stage := .attach i count h }
  | .attach i count h =>
    if !d.isIdle d.commands then d
    else
      match (d.debugger.thread d.commands).answer with
      | .registered (.error f) => d.stopAll (some (.attach (workerName i) f))
      | _ => { d with stage := .spawn i count h }
  | .spawn i count h =>
    match fault with
    | none => { d.addWorker h with stage := .start (i + 1) count }
    | some reason =>
      { d.callOn d.commands (.detach h) with stage := .undo (.spawn (workerName i) reason) }
  | .undo f => if d.isIdle d.commands then d.stopAll (some f) else d
  | .running => d
  | .stop [] f => { d with stage := .over f }
  | .stop (w :: left) f =>
    { d.callOn d.commands (.detach w.handle) with stage := .detach w left f }
  | .detach w left f => if d.isIdle d.commands then { d with stage := .join w left f } else d
  | .join w left f => if d.hasEnded w then { d with stage := .stop left f } else d
  | .over _ => d

/-- Bring a worker to its next work. -/
def goTo (d : Demo logic sink) (i : Nat) (work : Work) : Demo logic sink :=
  { d with workers := d.workers.modify i fun w => { w with work } }

/-- **One step** of a worker: it goes on while it is told to and its runs succeed. -/
def work (d : Demo logic sink) (i : Nat) : Demo logic sink :=
  match d.workers[i]? with
  | none => d
  | some w =>
    match w.work with
    | .look => if d.keepOn then (d.callOn w.thread (.run w.handle)).goTo i .run else d.goTo i .over
    | .run =>
      if !d.isIdle w.thread then d
      else
        match (d.debugger.thread w.thread).answer with
        | .ran (.error _) => d.goTo i .over
        | _ => d.goTo i .look
    | .over => d

/-- **Event** of the demo threads. -/
inductive Event where
  | control (fault : Option String)
  | work (i : Nat)
  /-- The workers are told to stop. -/
  | shutDown
  /-- A thread of the debugger does one step. -/
  | turn (t : ThreadId)
  /-- A parked thread looks again without being woken. -/
  | wake (t : ThreadId) (c : ContextId)

/-- **Step** of the demo threads; an event that cannot happen changes nothing. -/
def step (d : Demo logic sink) : Event → Demo logic sink
  | .control fault => d.control fault
  | .work i => d.work i
  | .shutDown =>
    match d.stage with
    | .running => d.stopAll none
    | _ => d
  | .turn t => { d with debugger := d.debugger.take (.step t) }
  | .wake t c => { d with debugger := d.debugger.take (.wake t c) }

/-- The demo threads after any sequence of events. -/
def run (d : Demo logic sink) (es : List Event) : Demo logic sink := es.foldl step d

@[simp] theorem run_nil (d : Demo logic sink) : d.run [] = d := rfl

@[simp] theorem run_cons (d : Demo logic sink) (e : Event) (es : List Event) :
    d.run (e :: es) = (d.step e).run es := rfl

/-! ## Taking turns -/

/-- Whether the command thread waits for a worker, to end or to let go of a lock. -/
def isWaiting (d : Demo logic sink) : Bool :=
  match d.stage with
  | .join w _ _ => !d.hasEnded w
  | _ => !d.isIdle d.commands && !d.debugger.canStep d.commands

/-- Each worker in turn does a step. -/
def workAll (d : Demo logic sink) : Demo logic sink :=
  let d := (List.range d.workers.length).foldl (fun d i => d.step (.work i)) d
  d.workers.foldl (fun d w => d.step (.turn w.thread)) d

/-- Let the command thread go on, and the workers take turns while it waits, for at most `fuel`
rounds, until `done`. -/
def runUntil (d : Demo logic sink) (done : Stage → Bool) : Nat → Demo logic sink
  | 0 => d
  | fuel + 1 =>
    if done d.stage then d
    else if d.isWaiting then d.workAll.runUntil done fuel
    else (d.run [.control none, .turn d.commands]).runUntil done fuel

/-- Whether the workers are all started, or none is left. -/
def Stage.isSettled : Stage → Bool
  | .running => true
  | .over _ => true
  | _ => false

/-- Whether no worker is left. -/
def Stage.isOver : Stage → Bool
  | .over _ => true
  | _ => false

/-- Why the workers were not started, if they were not. -/
def Stage.failure? : Stage → Option Failure
  | .over f => f
  | _ => none

/-- How many rounds to wait. -/
def patience : Nat := 1000000000

/-- **Start** a number of workers; either all run, or none is left. -/
def launch (debugger : Debugger (setup logic sink)) (count : Nat) : Demo logic sink :=
  (begin debugger count).runUntil Stage.isSettled patience

/-- **Shut down** the workers and wait until they have ended. -/
def shutDown (d : Demo logic sink) : Demo logic sink :=
  (d.step .shutDown).runUntil Stage.isOver patience

end Demo

end ScriptDebug
