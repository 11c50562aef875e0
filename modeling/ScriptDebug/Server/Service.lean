import ScriptDebug.Debugger.Schedule
import ScriptDebug.Server.Slot

/-!
# Serving one client at a time

The gate lets connections in one after the other. A connection that finds the slot free holds it,
turns listening on, and gets a thread that passes its messages to the client logic; any other one is
shut down at once. When the connection is lost, its thread gives the slot back, sets listening as it
is without a client, and resumes every paused context.

Every event is one atomic step; an event that cannot happen changes nothing. A stage of a visit says
what its next step is.
-/

namespace ScriptDebug

open Server (Slot Connection ConnectionId slotSink)

/-- **Stage** of a client's visit, named for what is done next. -/
inductive Server.Stage where
  -- at the gate
  | claim | listen | spawn
  -- the thread of the client
  | read
  /-- A message is under way. -/
  | dispatch
  -- the client is lost
  | release | shut | quiet
  /-- The paused contexts are being resumed. -/
  | sweep
  | over
  deriving DecidableEq, Repr

/-- Whether a visit is still at the gate. -/
def Server.Stage.atGate : Server.Stage → Bool
  | .claim | .listen | .spawn => true
  | _ => false

/-- Whether a visit has lost its client and is not yet over. -/
def Server.Stage.isTeardown : Server.Stage → Bool
  | .release | .shut | .quiet | .sweep => true
  | _ => false

/-- **Visit** of a client, and the thread that serves it. -/
structure Server.Visit where
  stage : Server.Stage := .claim
  thread : Option ThreadId := none
  deriving DecidableEq, Repr

/-- Whether connections are let in. -/
inductive Server.Gate where
  | opened
  /-- No more connections come in; the client is not yet sent away. -/
  | closing
  | closed
  deriving DecidableEq, Repr

/-- The collaborators of a debugger that sends to the slot. -/
abbrev Server.setup (host : Host) (logic : Logic) : Setup := ⟨host, logic, slotSink⟩

/-- **Server.** A debugger, and the visits by their connections. -/
structure Server (host : Host) (logic : Logic) where
  debugger : Debugger (Server.setup host logic)
  /-- Whether hook events are looked at while there is no client. -/
  breakWithoutClient : Bool := false
  visits : List Server.Visit := []
  gate : Server.Gate := .opened

namespace Server

variable {host : Host} {logic : Logic}

/-- The slot. -/
def slot (s : Server host logic) : Slot := s.debugger.sink

/-- Change the slot. -/
def onSlot (s : Server host logic) (f : Slot → Slot) : Server host logic :=
  { s with debugger := { s.debugger with sink := f s.debugger.sink } }

/-- Set whether hook events are looked at. -/
def setListening (s : Server host logic) (on : Bool) : Server host logic :=
  { s with debugger := { s.debugger with listening := on } }

/-- The connection that holds the slot. -/
def holder (s : Server host logic) : Option ConnectionId := s.slot.holder

/-- Whether a connection is still at the gate. -/
def isAdmitting (s : Server host logic) : Bool := s.visits.any (·.stage.atGate)

/-- Whether a lost client is still being dealt with. -/
def isTearingDown (s : Server host logic) : Bool := s.visits.any (·.stage.isTeardown)

/-- Bring a visit to a stage. -/
def goTo (s : Server host logic) (c : ConnectionId) (stage : Stage) : Server host logic :=
  { s with visits := s.visits.modify c fun v => { v with stage } }

/-- Give an operation to the thread of a visit. -/
def callOn (s : Server host logic) (t : ThreadId) (op : Operation) : Server host logic :=
  { s with debugger := s.debugger.call t op }

/-- Whether the thread of a visit has nothing to do. -/
def isIdle (s : Server host logic) (t : ThreadId) : Bool :=
  (s.debugger.thread t).agenda.isEmpty

/-- **Event** of the server. -/
inductive Event where
  /-- A connection comes in. -/
  | accept (x : Connection)
  /-- A visit does its next step; `spawns` says whether its thread can be made. -/
  | advance (c : ConnectionId) (spawns : Bool)
  /-- The server is told to stop, or, told before, sends its client away. -/
  | stop
  /-- A thread of the debugger takes a turn. -/
  | turn (turn : Debugger.Turn)

/-- A connection comes in, if the gate is free. -/
def accept (s : Server host logic) (x : Connection) : Server host logic :=
  if s.gate = .opened ∧ !s.isAdmitting then
    { (s.onSlot fun slot => (slot.arrive x).1) with visits := s.visits ++ [{}] }
  else s

/-- The thread of a new client, with nothing to do yet. -/
def spawnThread (s : Server host logic) (c : ConnectionId) : Server host logic :=
  let t := s.debugger.threads.length
  { s with
    debugger := { s.debugger with threads := s.debugger.threads ++ [{}] }
    visits := s.visits.modify c fun v => { v with stage := .read, thread := some t } }

/-- Read the next message of a client and pass it on; a message that is no text is dropped, and any
other failure ends the visit. -/
def readNext (s : Server host logic) (c : ConnectionId) (t : ThreadId) : Server host logic :=
  let (slot, r) := s.slot.receive c
  let s := s.onSlot fun _ => slot
  match r with
  | .ok text => (s.callOn t (.message text)).goTo c .dispatch
  | .error e => if e.isFatal then s.goTo c .release else s

/-- **One step** of a visit. -/
def advance (s : Server host logic) (c : ConnectionId) (spawns : Bool) : Server host logic :=
  match s.visits[c]? with
  | none => s
  | some v =>
    match v.stage, v.thread with
    | .claim, _ =>
      match s.slot.claim c with
      | (slot, true) => (s.onSlot fun _ => slot).goTo c .listen
      | (_, false) => (s.onSlot fun slot => slot.shut c).goTo c .over
    | .listen, _ => (s.setListening true).goTo c .spawn
    | .spawn, _ =>
      if spawns then s.spawnThread c
      else (s.onSlot Slot.close).goTo c .over
    | .read, some t => s.readNext c t
    | .dispatch, some t => if s.isIdle t then s.goTo c .read else s
    | .release, _ => (s.onSlot fun slot => slot.release c).goTo c .shut
    | .shut, _ => (s.onSlot fun slot => slot.shut c).goTo c .quiet
    | .quiet, some t => ((s.setListening s.breakWithoutClient).callOn t .resumeAll).goTo c .sweep
    | .sweep, some t => if s.isIdle t then s.goTo c .over else s
    | _, _ => s

/-- Stop the server, in two steps. -/
def stop (s : Server host logic) : Server host logic :=
  match s.gate with
  | .opened => if s.isAdmitting then s else { s with gate := .closing }
  | .closing => { s.onSlot Slot.close with gate := .closed }
  | .closed => s

/-- Whether a thread belongs to a visit. -/
def serves (s : Server host logic) (t : ThreadId) : Bool := s.visits.any (·.thread == some t)

/-- A thread of the debugger takes a turn; the threads of visits get no operations from outside. -/
def takeTurn (s : Server host logic) (turn : Debugger.Turn) : Server host logic :=
  match turn with
  | .call t _ => if s.serves t then s else { s with debugger := s.debugger.take turn }
  | _ => { s with debugger := s.debugger.take turn }

/-- **Step** of the server. -/
def step (s : Server host logic) : Event → Server host logic
  | .accept x => s.accept x
  | .advance c spawns => s.advance c spawns
  | .stop => s.stop
  | .turn turn => s.takeTurn turn

/-- The server after any sequence of events. -/
def run (s : Server host logic) (es : List Event) : Server host logic := es.foldl step s

@[simp] theorem run_nil (s : Server host logic) : s.run [] = s := rfl

@[simp] theorem run_cons (s : Server host logic) (e : Event) (es : List Event) :
    s.run (e :: es) = (s.step e).run es := rfl

end Server

end ScriptDebug
