import ScriptDebug.Debugger.Operation

/-!
# Client logic and sink

The client logic is called when a context comes or goes, when an event may pause, and with what the
client sends. It runs step by step, and may use every operation of the debugger on the way. The sink
carries messages to the client.
-/

namespace ScriptDebug

/-- **Call** of the client logic. -/
inductive LogicCall where
  /-- Load anew; comes before the first call and after every failure. -/
  | reload
  | added (h : Handle) (name : String)
  | removed (h : Handle) (name : String)
  /-- Decide about an event; one that is not dealt with pauses the context. -/
  | breakpoint (h : Handle) (name : String) (e : Hook.Event)
  | message (text : String)
  | request (j : Json)

/-- **Move.** One step of a call, at a point `π` of it. -/
inductive LogicMove (π : Type) where
  /-- Use an operation, and go on with its answer. -/
  | use (op : Operation) (next : π)
  | done (r : Except LogicFailure Verdict)

/-- **Client logic.** -/
structure Logic where
  State : Type
  Point : Type
  enter : LogicCall → Point
  /-- One step at a point, with the answer of the operation used before it. -/
  step : State → Point → Answer → State × LogicMove Point

/-- **Sink.** -/
structure Sink where
  State : Type
  send : State → String → State × Except SinkFailure Unit

/-- The collaborators of a debugger. -/
structure Setup where
  host : Host
  logic : Logic
  sink : Sink

end ScriptDebug
