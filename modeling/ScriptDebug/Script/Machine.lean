import ScriptDebug.Ascending
import ScriptDebug.Debugger.Failure
import ScriptDebug.Files
import ScriptDebug.Handle
import ScriptDebug.Script.Literal
import ScriptDebug.Script.Program

/-!
# The machine that runs scripts

Its state: the execution threads with their frames, the threads that have a hook, the globals, and
the files that scripts are loaded from. A run of the program on a thread is an agenda of
instructions; each instruction is one atomic step on the state.
-/

namespace ScriptDebug.Script

/-- **Frame** of an active function. -/
structure Frame where
  function : Function
  /-- The local variables, in the order of their declarations. -/
  locals : List Variable := []
  line : Int

/-- **Execution thread.** -/
structure Execution where
  name : String
  /-- The frames, the innermost first. -/
  frames : List Frame := []

/-- **Machine.** -/
structure Machine where
  program : Program
  executions : List (Handle × Execution) := []
  hooked : List Handle := []
  globals : List Variable := []
  /-- The handle of the next execution thread. -/
  next : UInt64 := 0x1000
  files : Files := {}

namespace Machine

/-- An execution thread. -/
def execution? (m : Machine) (h : Handle) : Option Execution := Ascending.get? h m.executions

/-- Whether there is such an execution thread. -/
def knows (m : Machine) (h : Handle) : Bool := (m.execution? h).isSome

/-- Make an execution thread, and tell its handle. -/
def create (m : Machine) (name : String) : Machine × Handle :=
  let h : Handle := ⟨m.next⟩
  ({ m with executions := Ascending.put h { name } m.executions, next := m.next + 0x10 }, h)

/-- Change the frames of an execution thread. -/
def onFrames (m : Machine) (h : Handle) (f : List Frame → List Frame) : Machine :=
  match m.execution? h with
  | some x => { m with executions := Ascending.put h { x with frames := f x.frames } m.executions }
  | none => m

/-- Change the innermost frame of an execution thread. -/
def onFrame (m : Machine) (h : Handle) (f : Frame → Frame) : Machine :=
  m.onFrames h fun frames => match frames with
    | [] => []
    | frame :: outer => f frame :: outer

/-- A frame of an execution thread, counted from the innermost one. -/
def frame? (m : Machine) (h : Handle) (n : Nat) : Option Frame :=
  (m.execution? h).bind fun x => x.frames[n]?

/-- A global variable. -/
def global? (m : Machine) (name : String) : Option Value := Ascending.get? name m.globals

/-- Assign a global variable. -/
def assign (m : Machine) (name : String) (v : Value) : Machine :=
  { m with globals := Ascending.put name v m.globals }

/-! ## Hooks -/

/-- Whether an execution thread has a hook. -/
def isHooked (m : Machine) (h : Handle) : Bool := m.hooked.contains h

/-- Install the hook of an execution thread. -/
def installHook (m : Machine) (h : Handle) : Machine × Except HookFailure Unit :=
  if m.knows h then ({ m with hooked := Ascending.insert h m.hooked }, .ok ())
  else (m, .error (.unknownExecution h))

/-- Remove the hook of an execution thread. -/
def removeHook (m : Machine) (h : Handle) : Machine × Except HookFailure Unit :=
  if m.isHooked h then ({ m with hooked := Ascending.erase h m.hooked }, .ok ())
  else (m, .error (.refused s!"no hook installed for {h}"))

end Machine

/-! ## Instructions -/

/-- **Instruction** of a run. -/
inductive Instruction where
  /-- Put a frame on the stack. -/
  | enter (f : Function)
  /-- Tell the hook about the running function. -/
  | tell (f : Function) (tag : String) (kind : Hook.Kind) (line : Int)
  /-- Come to a line. -/
  | reach (line : Int)
  /-- Carry out a statement, with `budget` more calls to nest. -/
  | execute (s : Statement) (budget : Nat)
  /-- Call a native function: tell the hook of its call and, if there was one, of its return. -/
  | callNative (target : String)
  | returnNative (target : String)
  /-- Take the innermost frame off the stack. -/
  | leave

/-- The instructions of a statement. -/
def Statement.instructions (f : Function) (tag : String) (budget : Nat) (s : Statement) :
    List Instruction :=
  [.reach s.line, .tell f tag .line s.line, .execute s budget]

/-- The instructions of an activation. -/
def Function.instructions (f : Function) (tag : String) (budget : Nat) : List Instruction :=
  [.enter f, .tell f tag .call f.lineDefined] ++
    f.body.flatMap (Statement.instructions f tag budget) ++
    [.tell f tag .return f.lastLineDefined, .leave]

/-- What an instruction raises, if anything, and the instructions that come in its place. -/
abbrev Effect := Option Hook.Report × List Instruction

namespace Machine

/-- Tell the hook of an execution thread, if it has one. -/
def told (m : Machine) (h : Handle) (report : Hook.Report) (behind : List Instruction) : Effect :=
  if m.isHooked h then (some report, behind) else (none, [])

/-- Carry out a statement. -/
def execute (m : Machine) (h : Handle) (budget : Nat) : Statement → Machine × List Instruction
  | .declare _ name v => (m.onFrame h fun f => { f with locals := f.locals ++ [(name, v)] }, [])
  | .assign _ name v => (m.assign name v, [])
  | .call _ target =>
    match m.program.find? target, budget with
    | none, _ => (m, [.callNative target])
    | some _, 0 => (m, [])
    | some g, budget + 1 => (m, g.instructions scriptTag budget)

/-- **One instruction** on an execution thread. -/
def obey (m : Machine) (h : Handle) : Instruction → Machine × Effect
  | .enter f =>
    (m.onFrames h fun frames => { function := f, line := f.lineDefined } :: frames, none, [])
  | .tell f tag kind line => (m, m.told h (m.program.report f tag kind line) [])
  | .reach line => (m.onFrame h fun f => { f with line }, none, [])
  | .execute s budget =>
    let (m, todo) := m.execute h budget s
    (m, none, todo)
  | .callNative target => (m, m.told h (nativeReport target .call) [.returnNative target])
  | .returnNative target => (m, m.told h (nativeReport target .return) [])
  | .leave => (m.onFrames h List.tail, none, [])

/-- The agenda of a whole run. -/
def agenda (m : Machine) : List Instruction :=
  m.program.main.instructions mainTag deepestCall

end Machine

end ScriptDebug.Script
