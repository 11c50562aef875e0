import ScriptDebug.Breakpoint
import ScriptDebug.Json.Record

/-!
# Requests

A client asks by a command name with a JSON value as its arguments; each command reads the record
that it takes from that value.
-/

namespace ScriptDebug.Protocol

open Json (Read Record)

/-- **Request** of a client. -/
structure Request where
  /-- What the client marks the request with. -/
  id : Option Json := none
  command : String
  data : Json := .null

/-- How a request is read. -/
def Request.record : Record Request where
  name := "Request"
  fields := [⟨"id", none, false⟩, ⟨"cmd", none, true⟩, ⟨"data", none, false⟩]
  blank := { command := "" }
  set r name j :=
    match name with
    | "id" => .ok { r with id := match j with | .null => none | j => some j }
    | "cmd" => do return { r with command := ← Json.asString "a string" j }
    | _ => .ok { r with data := j }

/-- The JSON form of a request. -/
def Request.json (r : Request) : Json :=
  .object ((r.id.map fun j => ("id", j)).toList ++
    [("cmd", .string r.command), ("data", r.data)])

/-! ## Arguments -/

/-- A context. -/
structure ContextArgs where
  context : Handle := default

/-- How a context is read. -/
def ContextArgs.record : Record ContextArgs where
  name := "ContextArgs"
  fields := [⟨"context", none, true⟩]
  blank := {}
  set a _ j := do return { a with context := ← Json.asHandle j }

/-- An expression to evaluate in a context. -/
structure EvalArgs where
  context : Handle := default
  expression : String := ""

/-- How an expression is read. -/
def EvalArgs.record : Record EvalArgs where
  name := "EvalArgs"
  fields := [⟨"context", none, true⟩, ⟨"expr_str", none, true⟩]
  blank := {}
  set a name j :=
    match name with
    | "context" => do return { a with context := ← Json.asHandle j }
    | _ => do return { a with expression := ← Json.asString "a string" j }

/-- A frame of a context, the innermost one if none is given. -/
structure FrameArgs where
  context : Handle := default
  frame : Nat := 0

/-- How a frame is read. -/
def FrameArgs.record : Record FrameArgs where
  name := "FrameArgs"
  fields := [⟨"context", none, true⟩, ⟨"frame", none, false⟩]
  blank := {}
  set a name j :=
    match name with
    | "context" => do return { a with context := ← Json.asHandle j }
    | _ => do return { a with frame := ← Json.asSize j }

/-- The field of a variable index, which may be given as that of a local or of an upvalue. -/
def indexField : Json.Field := ⟨"lv", some "uv", false⟩

/-- A variable of a frame, and how many levels of it to show. -/
structure VariableArgs where
  context : Handle := default
  index : Nat := 1
  levels : Int := 1
  frame : Nat := 0

/-- How a variable is read. -/
def VariableArgs.record : Record VariableArgs where
  name := "VariableArgs"
  fields := [⟨"context", none, true⟩, indexField, ⟨"nlevels", none, false⟩,
    ⟨"frame", none, false⟩]
  blank := {}
  set a name j :=
    match name with
    | "context" => do return { a with context := ← Json.asHandle j }
    | "lv" => do return { a with index := ← Json.asWord j }
    | "nlevels" => do return { a with levels := ← Json.asSigned j }
    | _ => do return { a with frame := ← Json.asSize j }

/-- A variable of a frame, and the value to give it. -/
structure SetVariableArgs where
  context : Handle := default
  index : Nat := 1
  frame : Nat := 0
  value : Json := .null

/-- How an assignment is read. -/
def SetVariableArgs.record : Record SetVariableArgs where
  name := "SetVariableArgs"
  fields := [⟨"context", none, true⟩, indexField, ⟨"frame", none, false⟩,
    ⟨"value", none, false⟩]
  blank := {}
  set a name j :=
    match name with
    | "context" => do return { a with context := ← Json.asHandle j }
    | "lv" => do return { a with index := ← Json.asWord j }
    | "frame" => do return { a with frame := ← Json.asSize j }
    | _ => .ok { a with value := j }

/-- A script file to load in a context. -/
structure LoadArgs where
  context : Handle := default
  file : String := ""

/-- How a script file is read. -/
def LoadArgs.record : Record LoadArgs where
  name := "LoadArgs"
  fields := [⟨"context", none, true⟩, ⟨"file", none, true⟩]
  blank := {}
  set a name j :=
    match name with
    | "context" => do return { a with context := ← Json.asHandle j }
    | _ => do return { a with file := ← Json.asString "path string" j }

end ScriptDebug.Protocol
