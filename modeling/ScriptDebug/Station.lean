import ScriptDebug.Demo
import ScriptDebug.Protocol.Session
import ScriptDebug.Server.Session
import ScriptDebug.Settings.Basic

/-!
# The debug station

A server and demo threads around one debugger, with a client on a stream of bytes.

* `start`: the demo threads run and the client is let in;
* `receive`: bytes come from the client;
* `attend`, `burst`: the visit of the client and the demo threads go on;
* `finish`: the client has left, and the demo threads stop.
-/

namespace ScriptDebug

/-- **Station.** The demo threads hold the debugger in common with the server. -/
structure Station where
  server : Server Script.host Protocol.logic
  demo : Demo Protocol.logic Server.slotSink
  client : Server.ConnectionId
  /-- The bytes of a frame that is not yet whole. -/
  unread : Wire.Bytes := []

namespace Station

/-- Let the demo threads do something with the debugger. -/
def onDemo (s : Station)
    (f : Demo Protocol.logic Server.slotSink → Demo Protocol.logic Server.slotSink) : Station :=
  let demo := f { s.demo with debugger := s.server.debugger }
  { s with demo, server := { s.server with debugger := demo.debugger } }

/-- **Start** with the given settings. -/
def start (settings : Settings) : Except String Station :=
  let machine : Script.Machine := { program := .demo settings.demo.scriptName }
  let debugger : Debugger (Server.setup Script.host Protocol.logic) :=
    { Debugger.start machine ({} : BreakpointTable) ({} : Server.Slot) with
      listening := settings.debugger.breakWithoutClient }
  let demo : Demo Protocol.logic Server.slotSink := Demo.launch debugger settings.demo.threads
  match demo.stage.failure? with
  | some f => .error f.message
  | none =>
    let server : Server Script.host Protocol.logic :=
      { debugger := demo.debugger
        breakWithoutClient := settings.debugger.breakWithoutClient }
    match server.welcome with
    | (server, some client) => .ok { server, demo, client }
    | (_, none) => .error "a client is already connected"

/-- **Attend** to the client: go on with its visit, and work off the whole frames that have come, at
most `fuel` of them. -/
def attend (s : Station) : Nat → Station
  | 0 => s
  | fuel + 1 =>
    let s := { s with server := s.server.pursue s.client false Debugger.patience }
    match Wire.decode s.unread with
    | .error _ => s
    | .ok (_, used) =>
      if s.server.awaits s.client then
        attend { s with
          server := s.server.arrive s.client (s.unread.take used)
          unread := s.unread.drop used } fuel
      else s

/-- **Receive** bytes from the client. -/
def receive (s : Station) (bytes : Wire.Bytes) : Station :=
  { s with unread := s.unread ++ bytes }

/-- How many steps a demo thread does in a burst. -/
def burstLength : Nat := 64

/-- **Burst.** Every demo thread goes on for a while. -/
def burst (s : Station) : Station :=
  s.onDemo fun demo =>
    (List.range demo.workers.length).foldl
      (fun demo i =>
        let demo := demo.step (.work i)
        match demo.workers[i]? with
        | some w => demo.run (List.replicate burstLength (.turn w.thread))
        | none => demo) demo

/-- Take out what the client has been sent. -/
def collect (s : Station) : Station × Wire.Bytes :=
  let (server, sent) := s.server.collect s.client
  ({ s with server }, sent)

/-- Let the visit of a client that is gone come to its end, in at most `fuel` rounds. -/
def seeOff (s : Station) : Nat → Station
  | 0 => s
  | fuel + 1 =>
    let s := { s with server := s.server.pursue s.client true Debugger.patience }
    if s.server.isOver s.client then s else s.burst.seeOff fuel

/-- **Finish:** the client has left in the middle of whatever it was sending. -/
def finish (s : Station) : Station :=
  let s := { s with server := s.server.arrive s.client s.unread, unread := [] }
  let s := s.seeOff Debugger.patience
  { s with server := s.server.shutDown.setListening false }.onDemo Demo.shutDown

end Station

end ScriptDebug
