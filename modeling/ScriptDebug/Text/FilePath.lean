import ScriptDebug.Text.Lines

/-!
# Paths by their parts

A path is compared part by part: doubled and trailing separators and inner `.` parts do not count,
a leading `/` and a leading `.` do, and `..` is a part like any other.
-/

namespace ScriptDebug.Text

/-- One part of a path. -/
inductive PathPart where
  | root | here | parent
  | name (cs : List Char)
  deriving DecidableEq, Repr

/-- The part that a text between separators stands for, except at the very start. -/
def pathPart? : List Char → Option PathPart
  | [] => none
  | ['.'] => none
  | ['.', '.'] => some .parent
  | cs => some (.name cs)

/-- **Parts** of a path. -/
def pathParts (path : String) : List PathPart :=
  let segments := splitAll '/' path.toList
  let rest := segments.filterMap pathPart?
  match path.toList, segments with
  | '/' :: _, _ => .root :: rest
  | _, ['.'] :: _ => .here :: rest
  | _, _ => rest

/-- Whether the parts of a path end with the parts of another one. -/
def pathEndsWith (path tail : String) : Bool :=
  (pathParts tail).isSuffixOf (pathParts path)

/-- Put a relative path behind a directory; an absolute one replaces it. -/
def joinPath (directory path : String) : String :=
  if path.startsWith "/" then path
  else if directory.isEmpty || directory.endsWith "/" then directory ++ path
  else directory ++ "/" ++ path

end ScriptDebug.Text
