import ScriptDebug.Debugger.Session
import ScriptDebug.Server.Service

/-!
# Server sessions

Clients that come, send and leave one after the other: each time the visit goes on until it waits,
for its client or for another thread, or is over. All of this is one of the sequences of events that
a server may see.

* `welcome`: a client comes;
* `deliver`: a client sends whole frames;
* `depart`: a client leaves;
* `shutDown`: the server stops.
-/

namespace ScriptDebug.Server

variable {host : Host} {logic : Logic}

/-- Whether nothing more has arrived on a connection. -/
def isDrained (s : Server host logic) (c : ConnectionId) : Bool :=
  match s.slot.connections[c]? with
  | some x => (Wire.delivered x.inlet).isEmpty
  | none => true

/-- Whether the thread of a visit waits for another thread. -/
def isHeldUp (s : Server host logic) (v : Visit) : Bool :=
  match v.thread with
  | some t => !s.isIdle t
  | none => false

/-- Let the thread of a visit go on until it waits or has nothing to do. -/
def runVisit (s : Server host logic) (v : Visit) : Server host logic :=
  match v.thread with
  | some t => { s with debugger := s.debugger.runThread t Debugger.patience }
  | none => s

/-- **Pursue** a visit for at most `fuel` steps, until it is over or waits for its client or for
another thread; a client that is `gone` is not waited for. -/
def pursue (s : Server host logic) (c : ConnectionId) (gone : Bool) : Nat → Server host logic
  | 0 => s
  | fuel + 1 =>
    match s.visits[c]? with
    | none => s
    | some v =>
      if v.stage = .over || (v.stage = .read && !gone && s.isDrained c) then s
      else
        let s := s.runVisit v
        if s.isHeldUp v then s else (s.advance c true).pursue c gone fuel

/-- Whether a visit waits for its client. -/
def awaits (s : Server host logic) (c : ConnectionId) : Bool :=
  match s.visits[c]? with
  | some v => v.stage = .read && s.isDrained c
  | none => false

/-- Whether a visit is over. -/
def isOver (s : Server host logic) (c : ConnectionId) : Bool :=
  match s.visits[c]? with
  | some v => v.stage = .over
  | none => true

/-- Bytes arrive from a client. -/
def arrive (s : Server host logic) (c : ConnectionId) (bytes : Wire.Bytes) : Server host logic :=
  s.onSlot fun slot => slot.onConnection c fun x =>
    { x with inlet := x.inlet ++ [.data bytes bytes.length] }

/-- **Admit** a client, unless there is one already; tell its connection if it is let in. -/
def welcome (s : Server host logic) : Server host logic × Option ConnectionId :=
  let c := s.visits.length
  let s := (s.step (.accept {})).pursue c false Debugger.patience
  (s, if s.holder = some c then some c else none)

/-- **Deliver** whole frames from a client, and work them off. -/
def deliver (s : Server host logic) (c : ConnectionId) (frames : Wire.Bytes) : Server host logic :=
  (s.arrive c frames).pursue c false Debugger.patience

/-- **Depart:** a client sends its last bytes and leaves. -/
def depart (s : Server host logic) (c : ConnectionId) (bytes : Wire.Bytes) : Server host logic :=
  (s.arrive c bytes).pursue c true Debugger.patience

/-- **Shut down:** let no more clients in and send the one there is away. -/
def shutDown (s : Server host logic) : Server host logic :=
  let holder := s.holder
  let s := s.run [.stop, .stop]
  match holder with
  | some c => s.pursue c true Debugger.patience
  | none => s

/-- What a client has been sent since this was last asked. -/
def collect (s : Server host logic) (c : ConnectionId) : Server host logic × Wire.Bytes :=
  let sent := ((s.slot.connections[c]?).map (·.outlet.written)).getD []
  (s.onSlot fun slot => slot.onConnection c fun x =>
    { x with outlet := { x.outlet with taken := [] } }, sent)

end ScriptDebug.Server
