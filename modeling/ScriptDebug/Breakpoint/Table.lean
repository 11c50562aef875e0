import ScriptDebug.Ascending
import ScriptDebug.Breakpoint

/-!
# The breakpoints of a session

A table keeps the lines of each file, and the functions, in ascending order. Adding and removing say
whether they changed the table; a file without lines is not kept, so that equal sets of breakpoints
have equal tables.
-/

namespace ScriptDebug

/-- **Breakpoint table.** -/
structure BreakpointTable where
  files : List (String × List Int) := []
  functions : List String := []
  deriving DecidableEq, Repr

namespace BreakpointTable

/-- The lines set in a file. -/
def linesOf (t : BreakpointTable) (file : String) : List Int :=
  (Ascending.get? file t.files).getD []

/-- Whether a breakpoint is set. -/
def contains (t : BreakpointTable) : Breakpoint → Bool
  | .line file line => (t.linesOf file).contains line
  | .function name => t.functions.contains name

/-- **Add** a breakpoint: the table, and whether the breakpoint is new. -/
def add (t : BreakpointTable) (b : Breakpoint) : BreakpointTable × Bool :=
  let new := !t.contains b
  match b with
  | .line file line =>
    ({ t with files := Ascending.put file (Ascending.insert line (t.linesOf file)) t.files }, new)
  | .function name => ({ t with functions := Ascending.insert name t.functions }, new)

/-- **Remove** a breakpoint: the table, and whether the breakpoint was set. -/
def remove (t : BreakpointTable) (b : Breakpoint) : BreakpointTable × Bool :=
  let was := t.contains b
  match b with
  | .line file line =>
    match Ascending.get? file t.files with
    | none => (t, was)
    | some lines =>
      match Ascending.erase line lines with
      | [] => ({ t with files := Ascending.remove file t.files }, was)
      | rest => ({ t with files := Ascending.put file rest t.files }, was)
  | .function name => ({ t with functions := Ascending.erase name t.functions }, was)

/-- Whether no breakpoint is set. -/
def isEmpty (t : BreakpointTable) : Bool := t.files.isEmpty && t.functions.isEmpty

/-- **All breakpoints:** those on lines, by file and line, then those on functions. -/
def all (t : BreakpointTable) : List Breakpoint :=
  t.files.flatMap (fun (file, lines) => lines.map (.line file)) ++ t.functions.map .function

/-- **Match:** the breakpoint that an event hits. The one that names the running file in full goes
before those that name the end of its path, which are tried in the order of their names. -/
def match? (t : BreakpointTable) (e : Hook.Event) : Option Breakpoint :=
  match e.kind with
  | .line => do
    let running ← e.file?
    if (t.linesOf running).contains e.line then some (.line running e.line)
    else
      let (file, _) ← t.files.find? fun (file, lines) =>
        lines.contains e.line && Text.pathEndsWith running file
      some (.line file e.line)
  | .call => do
    let name ← e.functionName
    if t.functions.contains name then some (.function name) else none
  | _ => none

/-! ## What is told -/

theorem snd_add (t : BreakpointTable) (b : Breakpoint) : (t.add b).2 = !t.contains b := by
  cases b <;> rfl

theorem snd_remove (t : BreakpointTable) (b : Breakpoint) : (t.remove b).2 = t.contains b := by
  unfold remove
  split
  · split
    · rfl
    · split <;> rfl
  · rfl

end BreakpointTable

end ScriptDebug
