import ScriptDebug.Text.FilePath
import ScriptDebug.Wire.Frame

/-!
# A tree of files

Directories and files under one root, which is also where relative paths start. A path is walked
part by part: every part but the last one has to lead to a directory, `.` stays, and `..` goes up.

* `find?`: what a path leads to;
* `readText`, `write`: the content of a file;
* `makeDirectory`, `makeDirectories`: one directory, or those on the way to it as well.
-/

namespace ScriptDebug

/-- What a number stands for in a tree. -/
inductive Files.Node where
  | file (content : List UInt8)
  /-- The names in a directory, and the numbers they stand for. -/
  | directory (entries : List (List Char × Nat))
  deriving DecidableEq, Repr

/-- **File tree.** Its files and directories by number; the root has the number zero. -/
structure Files where
  nodes : Array Files.Node := #[.directory []]
  deriving Repr

namespace Files

/-- Why a file operation fails. -/
inductive Failure where
  | notFound
  | alreadyThere
  | notDirectory
  | isDirectory
  /-- A name, or a path as a whole, is longer than the longest one. -/
  | nameTooLong
  /-- The file is no UTF-8 text. -/
  | notText
  /-- A path holds the character that ends paths. -/
  | zeroInPath
  deriving DecidableEq, Repr

/-- The wording of a failure. -/
def Failure.message : Failure → String
  | .notFound => "No such file or directory (os error 2)"
  | .alreadyThere => "File exists (os error 17)"
  | .notDirectory => "Not a directory (os error 20)"
  | .isDirectory => "Is a directory (os error 21)"
  | .nameTooLong => "File name too long (os error 36)"
  | .notText => "stream did not contain valid UTF-8"
  | .zeroInPath => "file name contained an unexpected NUL byte"

/-- The longest name, in bytes. -/
def longestName : Nat := 255

/-- The longest path, in bytes. -/
def longestPath : Nat := 4095

/-- What is wrong with a path before any part of it is looked at. -/
def pathFault? (path : String) : Option Failure :=
  if path.toList.contains '\x00' then some .zeroInPath
  else if longestPath < path.utf8ByteSize then some .nameTooLong
  else none

/-- What a number stands for; one without a meaning is an empty directory. -/
def node (files : Files) (n : Nat) : Node := (files.nodes[n]?).getD (.directory [])

/-! ## Walking paths -/

/-- **Spot.** Where a path leads. -/
inductive Spot where
  | taken (n : Nat)
  /-- A name that is free in a directory. -/
  | free (directory : Nat) (name : List Char)
  deriving DecidableEq, Repr

/-- **Walk** the parts of a path from a place, given by the numbers of the directories above it, the
nearest one first, and its own. Only the last part may be a free name. -/
def walk (files : Files) (above : List Nat) (here : Nat) : List (List Char) → Except Failure Spot
  | [] => .ok (.taken here)
  | part :: rest =>
    match files.node here with
    | .file _ => .error .notDirectory
    | .directory entries =>
      if part = [] ∨ part = ['.'] then files.walk above here rest
      else if part = ['.', '.'] then files.walk above.tail (above.headD here) rest
      else if longestName < (String.ofList part).utf8ByteSize then .error .nameTooLong
      else
        match entries.find? (·.1 == part), rest with
        | some (_, n), _ => files.walk (here :: above) n rest
        | none, [] => .ok (.free here part)
        | none, _ => .error .notFound

/-- Walk parts from the root. -/
def fromRoot (files : Files) (parts : List (List Char)) : Except Failure Spot :=
  files.walk [] 0 parts

/-- The spot that a path leads to. -/
def spot (files : Files) (path : String) : Except Failure Spot :=
  match pathFault? path with
  | some e => .error e
  | none =>
    if path.isEmpty then .error .notFound
    else files.fromRoot (Text.splitAll '/' path.toList)

/-- Put a file or a directory at a spot. -/
def put (files : Files) (node : Node) : Spot → Files
  | .taken n => ⟨files.nodes.setIfInBounds n node⟩
  | .free d name =>
    match files.node d with
    | .file _ => files
    | .directory entries =>
      ⟨(files.nodes.setIfInBounds d (.directory ((name, files.nodes.size) :: entries))).push node⟩

/-- What a path leads to. -/
def find? (files : Files) (path : String) : Except Failure Node := do
  match ← files.spot path with
  | .taken n => return files.node n
  | .free _ _ => throw .notFound

/-- Whether a path leads anywhere. -/
def exists? (files : Files) (path : String) : Bool := (files.find? path).isOk

/-- Whether a path leads to a file. -/
def isFile (files : Files) (path : String) : Bool :=
  match files.find? path with
  | .ok (.file _) => true
  | _ => false

/-! ## Contents -/

/-- Read a file as text. -/
def readText (files : Files) (path : String) : Except Failure String := do
  match ← files.find? path with
  | .directory _ => throw .isDirectory
  | .file content =>
    match Wire.text? content with
    | some s => return s
    | none => throw .notText

/-- Write a file, over the one that was there. -/
def write (files : Files) (path : String) (content : List UInt8) : Except Failure Files := do
  let spot ← files.spot path
  match spot with
  | .taken n =>
    if let .directory _ := files.node n then throw .isDirectory
    return files.put (.file content) spot
  | .free _ _ => return files.put (.file content) spot

/-! ## Directories -/

/-- Put a directory at the end of a path, given by its parts. -/
def makeAt (files : Files) (parts : List (List Char)) : Except Failure Files := do
  match ← files.fromRoot parts with
  | .taken _ => throw .alreadyThere
  | spot => return files.put (.directory []) spot

/-- A failure to make what is there as a directory anyway is none. -/
def forgive (files : Files) (parts : List (List Char)) (e : Failure) : Except Failure Unit :=
  match files.fromRoot parts with
  | .ok (.taken n) =>
    match files.node n with
    | .directory _ => .ok ()
    | .file _ => .error e
  | _ => .error e

/-- Make a directory; where the way to it is missing, make the way and try again. The directories
made so far stay when a later one fails. -/
def makeBehind (way : Files → Files × Except Failure Unit) (parts : List (List Char))
    (files : Files) : Files × Except Failure Unit :=
  match files.makeAt parts with
  | .ok made => (made, .ok ())
  | .error .notFound =>
    match way files with
    | (files, .error e) => (files, .error e)
    | (files, .ok ()) =>
      match files.makeAt parts with
      | .ok made => (made, .ok ())
      | .error e => (files, files.forgive parts e)
  | .error e => (files, files.forgive parts e)

/-- Make the directories along parts that are given back to front. -/
def makeWay : List (List Char) → Files → Files × Except Failure Unit
  | [] => fun files => (files, .ok ())
  | last :: up => makeBehind (makeWay up) (last :: up).reverse

/-- **Make directories** along a path; one that is there already is kept. -/
def makeDirectories (files : Files) (path : String) : Files × Except Failure Unit :=
  match pathFault? path with
  | some e => (files, .error e)
  | none =>
    let parts := Text.splitAll '/' path.toList
    let names := parts.filter fun p => p ≠ [] ∧ p ≠ ['.']
    let way := makeWay names.dropLast.reverse
    if names.isEmpty then (files, .ok ())
    else makeBehind way (parts.reverse.dropWhile (· = [])).reverse files

end Files

end ScriptDebug
