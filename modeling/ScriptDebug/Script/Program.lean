import ScriptDebug.Hook.Event
import ScriptDebug.Script.Value

/-!
# Programs

A program is a main function and the functions it may call by name. A body is a list of statements,
one behind the other; there are no branches and no loops, but functions may call each other.
-/

namespace ScriptDebug.Script

/-- **Statement,** with its line. -/
inductive Statement where
  /-- Declare a local variable. -/
  | declare (line : Int) (name : String) (value : Value)
  /-- Assign a global variable. -/
  | assign (line : Int) (name : String) (value : Value)
  /-- Call a function; one that the program does not define is native. -/
  | call (line : Int) (target : String)

/-- The line of a statement. -/
def Statement.line : Statement → Int
  | .declare n .. => n
  | .assign n .. => n
  | .call n _ => n

/-- **Function.** Without a name it is anonymous. -/
structure Function where
  name : String := ""
  lineDefined : Int
  lastLineDefined : Int
  upvalues : List Variable := []
  body : List Statement := []

/-- **Program.** -/
structure Program where
  /-- The name of the chunk; `@` stands before the path of a file. -/
  source : String
  main : Function
  /-- The functions to call; of several with one name the last one counts. -/
  functions : List Function := []

/-- The function that a call reaches. -/
def Program.find? (p : Program) (name : String) : Option Function :=
  p.functions.reverse.find? (·.name == name)

/-- Calls nested deeper than this are skipped. -/
def deepestCall : Nat := 64

/-! ## Reports -/

/-- The tag of a main function. -/
def mainTag : String := "main"

/-- The tag of any other function of a program. -/
def scriptTag : String := "Lua"

/-- What the hook is told about a function of the program at a line. -/
def Program.report (p : Program) (f : Function) (tag : String) (kind : Hook.Kind) (line : Int) :
    Hook.Report :=
  { code := kind.code
    name := if f.name.isEmpty then none else some f.name
    nameKind := if f.name.isEmpty then none else some "global"
    tag
    source := p.source
    line
    upvalues := f.upvalues.length
    lineDefined := f.lineDefined
    lastLineDefined := f.lastLineDefined }

/-- What the hook is told about a native function. -/
def nativeReport (target : String) (kind : Hook.Kind) : Hook.Report :=
  { code := kind.code
    name := some target
    nameKind := some "global"
    tag := "C"
    source := "=[C]"
    line := -1
    upvalues := 0
    lineDefined := -1
    lastLineDefined := -1 }

/-! ## The demo program -/

/-- **Demo program.** One round of a game loop: `update` calls a helper, and a native function
prints. Its three tables get the identities from `first` on. -/
def Program.demo (script : String) (first : Identity := 1) : Program :=
  let sprites := Value.ofRecord first [("name", .text "sprites"), ("visible", .boolean true)]
  let layers := Value.ofItems (first + 1) [.text "background", sprites]
  let config := Value.ofRecord (first + 2)
    [("title", .text "demo"), ("speed", .number 2.5), ("layers", layers)]
  { source := "@" ++ script
    main :=
      { lineDefined := 1
        lastLineDefined := 40
        body := [
          .assign 1 "frame" (.number 0.0),
          .declare 2 "config" config,
          .call 3 "update",
          .call 4 "print"] }
    functions := [
      { name := "update"
        lineDefined := 10
        lastLineDefined := 20
        upvalues := [("config", config)]
        body := [
          .declare 11 "dt" (.number 0.016),
          .declare 12 "label" (.text "tick"),
          .call 13 "step",
          .declare 14 "done" (.boolean false)] },
      { name := "step"
        lineDefined := 22
        lastLineDefined := 30
        upvalues := [("gravity", .number (-9.8))]
        body := [
          .declare 23 "x" (.number 1.0),
          .declare 24 "y" (.number 2.0),
          .call 25 "print"] }] }

end ScriptDebug.Script
