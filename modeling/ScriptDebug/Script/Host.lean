import ScriptDebug.Debugger.Host
import ScriptDebug.Script.Expression
import ScriptDebug.Script.Loading

/-!
# The script machine as a host

Expressions and files are dealt with in one step; a run goes instruction by instruction, and raises
a hook event where an instruction tells the hook.
-/

namespace ScriptDebug.Script

/-- **Code** that the machine runs. -/
inductive Code where
  | expression (h : Handle) (text : String)
  | file (h : Handle) (path : String)
  /-- What is left of a run. -/
  | agenda (h : Handle) (todo : List Instruction)

/-- One step of code. -/
def Machine.step (m : Machine) : Code → Machine × HostMove Code Value
  | .expression h text => (m, .done ((m.evaluate h text).map fun v => [v]))
  | .file h path =>
    let (m, r) := m.load h path
    (m, .done (r.map fun _ => []))
  | .agenda _ [] => (m, .done (.ok []))
  | .agenda h (i :: rest) =>
    match m.obey h i with
    | (m, some report, todo) => (m, .raise h report (.agenda h (todo ++ rest)))
    | (m, none, todo) => (m, .next (.agenda h (todo ++ rest)))

/-- The variables of a kind in a frame. -/
def Frame.variablesOf (f : Frame) : VariableKind → List Variable
  | .local => f.locals
  | .upvalue => f.function.upvalues

/-- Look for a variable of a frame by its index, counted from one. -/
def Machine.probe (m : Machine) (kind : VariableKind) (h : Handle) (frame index : Nat) :
    Probe Value :=
  match (m.frame? h frame).bind fun f =>
      ((f.variablesOf kind)[index - 1]?).filter fun _ => 0 < index with
  | some v => { shown := some v, found := true }
  | none => {}

end ScriptDebug.Script

namespace ScriptDebug

/-- **The script machine** as a host. -/
def Script.host : Host where
  State := Script.Machine
  Value := Script.Value
  Code := Script.Code
  look _ := Script.Value.look
  installHook := Script.Machine.installHook
  removeHook := Script.Machine.removeHook
  probe := Script.Machine.probe
  evaluate := .expression
  load := .file
  run m h := if m.knows h then .ok (.agenda h m.agenda) else .error (.unknownExecution h)
  step := Script.Machine.step

end ScriptDebug
