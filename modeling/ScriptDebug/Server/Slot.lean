import ScriptDebug.Debugger.Logic
import ScriptDebug.Wire.Reading
import ScriptDebug.Wire.Writing

/-!
# The client slot

Connections to clients, and the slot that at most one of them holds. The holder is the client that
messages go to: the slot is the sink of the debugger.

* `claim`, `release`, `close`: who holds the slot;
* `send`: one message to the holder;
* `receive`: the next message of a connection.
-/

namespace ScriptDebug.Server

/-- The number of a connection, in the order of arrival. -/
abbrev ConnectionId := Nat

/-- **Connection** to a client. -/
structure Connection where
  /-- What comes from the client. -/
  inlet : List Wire.Delivery := []
  /-- What goes to the client. -/
  outlet : Wire.Outlet := {}
  /-- Whether the connection was shut down here. -/
  shut : Bool := false

/-- The next message from a client; none comes behind a shutdown. -/
def Connection.receive (x : Connection) : Connection × Except Wire.Failure String :=
  if x.shut then (x, .error .closed)
  else
    let (r, inlet) := Wire.readText x.inlet
    ({ x with inlet }, r)

/-- Send a message to a client; it fails behind a shutdown. -/
def Connection.send (x : Connection) (message : Wire.Bytes) :
    Connection × Except Wire.Failure Unit :=
  match Wire.encodeLength message.length with
  | .error e => (x, .error e)
  | .ok _ =>
    if x.shut then (x, .error .brokenPipe)
    else
      let (outlet, r) := Wire.writeMessage x.outlet message
      ({ x with outlet }, r)

/-- **Slot.** All connections there have been, and the one that holds the slot. -/
structure Slot where
  connections : List Connection := []
  holder : Option ConnectionId := none

namespace Slot

/-- Change one connection. -/
def onConnection (s : Slot) (c : ConnectionId) (f : Connection → Connection) : Slot :=
  { s with connections := s.connections.modify c f }

/-- Add a connection, which holds nothing yet. -/
def arrive (s : Slot) (x : Connection) : Slot × ConnectionId :=
  ({ s with connections := s.connections ++ [x] }, s.connections.length)

/-- **Claim** the slot, if no other connection holds it. -/
def claim (s : Slot) (c : ConnectionId) : Slot × Bool :=
  if s.holder.isSome then (s, false) else ({ s with holder := some c }, true)

/-- **Release** the slot, if the connection still holds it. -/
def release (s : Slot) (c : ConnectionId) : Slot :=
  if s.holder = some c then { s with holder := none } else s

/-- Shut a connection down. -/
def shut (s : Slot) (c : ConnectionId) : Slot :=
  s.onConnection c fun x => { x with shut := true }

/-- **Close** the slot: its holder loses it and is shut down. -/
def close (s : Slot) : Slot :=
  match s.holder with
  | some c => ({ s with holder := none }).shut c
  | none => s

/-- The next message of a connection. -/
def receive (s : Slot) (c : ConnectionId) : Slot × Except Wire.Failure String :=
  match s.connections[c]? with
  | some x =>
    let (x, r) := x.receive
    ({ s with connections := s.connections.set c x }, r)
  | none => (s, .error .closed)

/-- **Send** a text to the holder. -/
def send (s : Slot) (text : String) : Slot × Except SinkFailure Unit :=
  match s.holder with
  | none => (s, .error .notConnected)
  | some c =>
    match s.connections[c]? with
    | none => (s, .error .notConnected)
    | some x =>
      let (x, r) := x.send (Wire.ofText text)
      ({ s with connections := s.connections.set c x },
        r.mapError fun e => .transport e.message)

end Slot

/-- **The slot as a sink.** -/
def slotSink : Sink where
  State := Slot
  send := Slot.send

end ScriptDebug.Server
