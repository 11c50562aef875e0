import ScriptDebug.Script.Program

/-!
# The trace of a program

What a whole run of a program tells its hook, by recursion over the program: a call and a return
around the lines of a body, and behind the line of a call the trace of the function called.
-/

namespace ScriptDebug.Script

/-- What the call of a native function tells. -/
def nativeTrace (target : String) : List Hook.Report :=
  [nativeReport target .call, nativeReport target .return]

/-- What one statement of a function tells, given what the call of another function tells. -/
def Program.statementTrace (p : Program) (f : Function) (tag : String)
    (callee : Function → List Hook.Report) (s : Statement) : List Hook.Report :=
  p.report f tag .line s.line ::
    match s with
    | .call _ target =>
      match p.find? target with
      | some g => callee g
      | none => nativeTrace target
    | _ => []

/-- What one activation of a function tells, given what the call of another function tells. -/
def Program.activationTrace (p : Program) (f : Function) (tag : String)
    (callee : Function → List Hook.Report) : List Hook.Report :=
  p.report f tag .call f.lineDefined ::
    f.body.flatMap (p.statementTrace f tag callee) ++ [p.report f tag .return f.lastLineDefined]

/-- What an activation tells when calls may nest `budget` deep below it. -/
def Program.traceFrom (p : Program) (f : Function) (tag : String) : Nat → List Hook.Report
  | 0 => p.activationTrace f tag fun _ => []
  | budget + 1 => p.activationTrace f tag fun g => p.traceFrom g scriptTag budget

/-- **Trace** of a whole run. -/
def Program.trace (p : Program) : List Hook.Report :=
  p.traceFrom p.main mainTag deepestCall

end ScriptDebug.Script
