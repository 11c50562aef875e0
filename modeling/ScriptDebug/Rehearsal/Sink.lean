import ScriptDebug.Debugger.Logic

/-!
# A sink for rehearsals

It keeps what is sent, or refuses it for want of a client, or fails.
-/

namespace ScriptDebug.Rehearsal

/-- What a sink does with a text. -/
inductive SinkMode where
  | capture | disconnected | broken
  deriving DecidableEq, Repr

/-- A sink and the texts it has kept, the last one first. -/
structure SinkState where
  mode : SinkMode := .capture
  kept : List String := []
  deriving Repr

/-- Send a text. -/
def SinkState.send (s : SinkState) (text : String) : SinkState × Except SinkFailure Unit :=
  match s.mode with
  | .capture => ({ s with kept := text :: s.kept }, .ok ())
  | .disconnected => (s, .error .notConnected)
  | .broken => (s, .error (.transport "sink is broken"))

/-- Take out the texts that were kept. -/
def SinkState.drain (s : SinkState) : List String × SinkState :=
  (s.kept.reverse, { s with kept := [] })

/-- **Sink** for rehearsals. -/
def sink : Sink where
  State := SinkState
  send := SinkState.send

end ScriptDebug.Rehearsal
