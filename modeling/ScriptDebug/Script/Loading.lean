import ScriptDebug.Script.Machine
import ScriptDebug.Text.Blank

/-!
# Script files

A script file assigns literals to globals, one assignment a line; `--` starts a comment, and blank
lines do not count. A file is loaded as a whole or not at all.
-/

namespace ScriptDebug.Script

/-- A line up to its comment. -/
def beforeComment : List Char → List Char
  | [] => []
  | '-' :: '-' :: _ => []
  | c :: rest => c :: beforeComment rest

/-- What counts of a line. -/
def contentOf (line : List Char) : List Char := Text.trimChars (beforeComment line)

/-- The assignment that the content of a line makes. -/
def assignment? (content : List Char) : Option Variable := do
  let (left, right) ← Text.splitOnce '=' content
  let name := Text.trimChars left
  if isName name then
    let v ← literal? (Text.trimChars right)
    return (String.ofList name, v)
  else none

/-- The assignments of lines that start at a line number; or the number and content of the first
line that makes none. -/
def assignmentsFrom (number : Nat) : List (List Char) → Except (Nat × List Char) (List Variable)
  | [] => .ok []
  | line :: rest =>
    let content := contentOf line
    if content.isEmpty then assignmentsFrom (number + 1) rest
    else
      match assignment? content with
      | none => .error (number, content)
      | some v => (assignmentsFrom (number + 1) rest).map (v :: ·)

/-- The assignments of a file. -/
def assignments (text : String) : Except (Nat × List Char) (List Variable) :=
  assignmentsFrom 1 (Text.lines text)

/-- Make assignments, one after the other. -/
def Machine.assignAll (m : Machine) (vs : List Variable) : Machine :=
  vs.foldl (fun m (name, v) => m.assign name v) m

/-- **Load** a script file on an execution thread. -/
def Machine.load (m : Machine) (h : Handle) (path : String) : Machine × Except ScriptFailure Unit :=
  if !m.knows h then (m, .error ⟨2, s!"no execution {h}"⟩)
  else
    match m.files.readText path with
    | .error e => (m, .error ⟨6, s!"cannot open {path}: {e.message}"⟩)
    | .ok text =>
      match assignments text with
      | .error (n, content) =>
        (m, .error ⟨3, s!"{path}:{n}: unexpected symbol near '{String.ofList content}'"⟩)
      | .ok vs => (m.assignAll vs, .ok ())

end ScriptDebug.Script
