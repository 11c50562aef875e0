import ScriptDebug.Breakpoint.Table
import ScriptDebug.Protocol.Message
import ScriptDebug.Protocol.Request

/-!
# Commands

A request is read as a command. Some commands only concern the breakpoints; the others use an
operation of the debugger, and the reply shows its answer.
-/

namespace ScriptDebug.Protocol

/-- **Command** of a client. -/
inductive Command where
  /-- Use an operation of the debugger. -/
  | use (op : Operation)
  | setBreakpoint (b : Breakpoint)
  | clearBreakpoint (b : Breakpoint)
  | clearAll
  | listBreakpoints

/-- Read the arguments of a request. -/
def Request.arguments (r : Request) (read : Json → Json.Read α) : Except Refusal α :=
  (read r.data).mapError (.arguments r.command)

/-- The command to list the variables of a frame. -/
def Request.listing (r : Request) (kind : VariableKind) : Except Refusal Command := do
  let a ← r.arguments FrameArgs.record.read
  return .use (.listVariables kind a.context a.frame)

/-- The command to show a variable. -/
def Request.showing (r : Request) (kind : VariableKind) : Except Refusal Command := do
  let a ← r.arguments VariableArgs.record.read
  return .use (.fetchVariable kind a.context a.frame a.index a.levels)

/-- The command to set a variable. -/
def Request.setting (r : Request) (kind : VariableKind) : Except Refusal Command := do
  let a ← r.arguments SetVariableArgs.record.read
  return .use (.setVariable kind a.context a.frame a.index a.value)

/-- **Read a command.** -/
def Request.toCommand (r : Request) : Except Refusal Command :=
  match r.command with
  | "contexts" => .ok (.use .contexts)
  | "continue" => do
    let a ← r.arguments ContextArgs.record.read
    return .use (.resume a.context)
  | "eval" => do
    let a ← r.arguments EvalArgs.record.read
    return .use (.evaluate a.context a.expression)
  | "locals" => r.listing .local
  | "local" => r.showing .local
  | "upvalues" => r.listing .upvalue
  | "upvalue" => r.showing .upvalue
  | "setlocal" => r.setting .local
  | "setupvalue" => r.setting .upvalue
  | "break" => return .setBreakpoint (← r.arguments Breakpoint.read)
  | "clear" => return .clearBreakpoint (← r.arguments Breakpoint.read)
  | "clearall" => .ok .clearAll
  | "breakpoints" => .ok .listBreakpoints
  | "load" => do
    let a ← r.arguments LoadArgs.record.read
    return .use (.load a.context a.file)
  | "reload" => .ok (.use .reload)
  | other => .error (.unknownCommand other)

/-- Read a command from a JSON value. -/
def readCommand (j : Json) : Except Refusal Command := do
  let r ← (Request.record.read j).mapError .notRequest
  r.toCommand

/-- The value that a reply shows for the answer of an operation. -/
def answerValue : Answer → Except Refusal Json
  | .contexts cs => .ok (.array (cs.map ContextInfo.json))
  | .command r => (r.map fun _ => Json.null).mapError .failed
  | .node r => (r.map Node.json).mapError .failed
  | .slots r => (r.map fun slots => .array (slots.map Slot.json)).mapError .failed
  | _ => .ok .null

end ScriptDebug.Protocol
