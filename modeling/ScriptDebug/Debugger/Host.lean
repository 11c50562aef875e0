import ScriptDebug.Debugger.Failure
import ScriptDebug.Hook.Event

/-!
# The script runtime as the debugger sees it

A host installs and removes hooks, shows the variables of its frames, and runs code of its own: a
script on an execution thread, or an expression or file on the thread of a command. Code runs step
by step, as any step may raise a hook event on the thread that runs it.
-/

namespace ScriptDebug

/-- Which variables of a frame are meant. -/
inductive VariableKind where
  | local | upvalue
  deriving DecidableEq, Repr

/-- What looking for a variable gives: its name and value, if they are shown, and whether the host
says that there is one. -/
structure Probe (ν : Type) where
  shown : Option (String × ν) := none
  found : Bool := false

/-- **Move.** One step of host code `κ` over values `ν`. -/
inductive HostMove (κ ν : Type) where
  /-- Raise a hook event for an execution, then go on. -/
  | raise (h : Handle) (report : Hook.Report) (next : κ)
  | next (code : κ)
  /-- Finish, with the values of an expression. -/
  | done (result : Except ScriptFailure (List ν))

/-- **Host.** A script runtime. -/
structure Host where
  State : Type
  Value : Type
  Code : Type
  look : State → Value → Shape Value
  installHook : State → Handle → State × Except HookFailure Unit
  removeHook : State → Handle → State × Except HookFailure Unit
  /-- Look for a variable by its index, counted from one, in a frame, counted from the innermost. -/
  probe : State → VariableKind → Handle → Nat → Nat → Probe Value
  /-- The code of an expression. -/
  evaluate : Handle → String → Code
  /-- The code that loads a script file. -/
  load : Handle → String → Code
  /-- The code of a whole run of an execution. -/
  run : State → Handle → Except HookFailure Code
  step : State → Code → State × HostMove Code Value

end ScriptDebug
