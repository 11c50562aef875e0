import ScriptDebug.Breakpoint
import ScriptDebug.Debugger.Operation
import ScriptDebug.Json.Parser
import ScriptDebug.Json.Record

/-!
# Messages to the client

Two kinds of messages go to the client: replies, one to each request, with the request as it was
read; and events, when a context comes, goes or pauses.
-/

namespace ScriptDebug.Protocol

/-- Why a request is not answered with a value. -/
inductive Refusal where
  /-- The message is not JSON. -/
  | notJson (e : Json.ReadError)
  /-- The JSON value is not a request. -/
  | notRequest (m : Json.Mismatch)
  | arguments (command : String) (m : Json.Mismatch)
  | unknownCommand (command : String)
  | noBreakpoint
  | failed (f : CommandFailure)

/-- The code of a refusal. -/
def Refusal.code : Refusal → Int
  | .failed f => f.code
  | _ => -1

/-- The wording of a refusal. -/
def Refusal.message : Refusal → String
  | .notJson e => s!"Malformed request: {e.message}"
  | .notRequest m => s!"Malformed request: {m.message}"
  | .arguments command m => s!"Invalid arguments for {command}: {m.message}"
  | .unknownCommand command => s!"Unknown command: {command}"
  | .noBreakpoint => "No such breakpoint."
  | .failed f => f.message

/-- **Reply.** A code, zero on success; the value or the wording of the refusal; and the request. -/
structure Reply where
  code : Int
  value : Json
  request : Option Json

/-- The reply to a request. -/
def Reply.of (r : Except Refusal Json) (request : Option Json) : Reply :=
  match r with
  | .ok value => ⟨0, value, request⟩
  | .error refusal => ⟨refusal.code, .string refusal.message, request⟩

/-- The JSON form of a reply; what it quotes stands in canonical order. -/
def Reply.json (r : Reply) : Json :=
  .object ([("type", .string "Reply"), ("code", .ofInt r.code), ("value", r.value.sorted)] ++
    (r.request.map fun j => ("original", j.sorted)).toList)

/-- **Event** of a context. -/
inductive Notice where
  | added (h : Handle) (name : String)
  | removed (h : Handle) (name : String)
  | paused (h : Handle) (name : String) (b : Breakpoint) (e : Hook.Event)

/-- The name of an event. -/
def Notice.title : Notice → String
  | .added .. => "ContextAdded"
  | .removed .. => "ContextRemoved"
  | .paused .. => "ContextPaused"

/-- What an event tells. -/
def Notice.data : Notice → Json
  | .added h name => .object [("context", h.json), ("name", .string name)]
  | .removed h name => .object [("context", h.json), ("name", .string name)]
  | .paused h name b e =>
    .object [("context", h.json), ("name", .string name), ("breakpoint", b.json),
      ("location", .string e.location), ("event", e.json)]

/-- The JSON form of an event. -/
def Notice.json (n : Notice) : Json :=
  .object [("type", .string "Event"), ("event", .string n.title), ("data", n.data)]

end ScriptDebug.Protocol
