import ScriptDebug.Hook.Event
import ScriptDebug.Json.Record
import ScriptDebug.Text.FilePath

/-!
# Breakpoints

A breakpoint stops at a line of a file or at the call of a function. A line breakpoint may name the
file by the last parts of its path.
-/

namespace ScriptDebug

/-- **Breakpoint.** -/
inductive Breakpoint where
  | line (file : String) (line : Int)
  | function (name : String)
  deriving DecidableEq, Repr

namespace Breakpoint

/-- **Hit.** Whether an event reaches the breakpoint. -/
def hits (b : Breakpoint) (e : Hook.Event) : Bool :=
  match b with
  | .line file n =>
    e.kind == .line && e.line == n &&
      match e.file? with
      | some running => Text.pathEndsWith running file
      | none => false
  | .function name => e.kind == .call && e.functionName == some name

/-- The JSON form of a breakpoint. -/
def json : Breakpoint → Json
  | .line file n => .object [("filename", .string file), ("linenum", .ofInt n)]
  | .function name => .object [("funcname", .string name)]

/-- Read a line breakpoint, else a function breakpoint, from the members of an object. -/
def ofJson? (j : Json) : Option Breakpoint :=
  match j.member? "filename", j.member? "linenum", j.member? "funcname" with
  | some (.string file), some number, name =>
    match Json.asSigned number, name with
    | .ok n, _ => some (.line file n)
    | .error _, some (.string name) => some (.function name)
    | .error _, _ => none
  | _, _, some (.string name) => some (.function name)
  | _, _, _ => none

/-- **Read a breakpoint.** -/
def read (j : Json) : Json.Read Breakpoint :=
  match ofJson? j with
  | some b => .ok b
  | none => .error (.noVariant "Breakpoint")

end Breakpoint

end ScriptDebug
