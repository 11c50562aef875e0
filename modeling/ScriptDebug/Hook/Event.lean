import ScriptDebug.Json.Basic

/-!
# Hook events

The script runtime reports checkpoints of a running script: calls, returns, lines. A report is
copied into an event, which may be kept after the hook returns.
-/

namespace ScriptDebug.Hook

/-- **Checkpoint.** What a hook event reports. -/
inductive Kind where
  | call | return | line | count | tailReturn
  | unknown (code : Int)
  deriving DecidableEq, Repr

/-- The checkpoint with the given code of the runtime. -/
def Kind.ofCode (code : Int) : Kind :=
  if code = 0 then .call
  else if code = 1 then .return
  else if code = 2 then .line
  else if code = 3 then .count
  else if code = 4 then .tailReturn
  else .unknown code

/-- The code of the runtime for a checkpoint. -/
def Kind.code : Kind → Int
  | .call => 0
  | .return => 1
  | .line => 2
  | .count => 3
  | .tailReturn => 4
  | .unknown code => code

@[simp] theorem Kind.code_ofCode (code : Int) : (Kind.ofCode code).code = code := by
  unfold Kind.ofCode
  repeat' split
  all_goals simp_all [Kind.code]

/-- The JSON form of a checkpoint. -/
def Kind.json : Kind → Json
  | .call => .string "call"
  | .return => .string "return"
  | .line => .string "line"
  | .count => .string "count"
  | .tailReturn => .string "tail_return"
  | .unknown code => .object [("unknown", .ofInt code)]

/-- **Frame.** What kind of code the current frame runs. -/
inductive Frame where
  | script | main | tail | native
  deriving DecidableEq, Repr

/-- A text with the letters `A` to `Z` in lower case. -/
def lowerAscii (s : String) : String := s.map Char.toLower

/-- The frame with the given tag of the runtime, in any case; another tag is native code. -/
def Frame.ofTag (tag : String) : Frame :=
  if lowerAscii tag = "lua" then .script
  else if lowerAscii tag = "main" then .main
  else if lowerAscii tag = "tail" then .tail
  else .native

/-- The JSON form of a frame kind. -/
def Frame.json : Frame → Json
  | .script => .string "script"
  | .main => .string "main"
  | .tail => .string "tail"
  | .native => .string "native"

/-- **Report.** A hook event as the runtime hands it over. -/
structure Report where
  code : Int
  /-- The name of the function, where the runtime could find one. -/
  name : Option String
  /-- How the name was found. -/
  nameKind : Option String
  /-- The tag of the current frame. -/
  tag : String
  /-- The name of the chunk; `@` stands before the path of a file. -/
  source : String
  /-- The current line, or `-1`. -/
  line : Int
  upvalues : Nat
  lineDefined : Int
  lastLineDefined : Int
  deriving DecidableEq, Repr

/-- **Event.** A hook event that may be kept. -/
structure Event where
  kind : Kind
  functionName : Option String
  nameKind : Option String
  frame : Frame
  source : String
  line : Int
  upvalues : Nat
  lineDefined : Int
  lastLineDefined : Int
  deriving DecidableEq, Repr

/-- Copy a report; an empty name is no name. -/
def Event.ofReport (r : Report) : Event :=
  { kind := .ofCode r.code
    functionName := r.name.filter (· ≠ "")
    nameKind := r.nameKind.filter (· ≠ "")
    frame := .ofTag r.tag
    source := r.source
    line := r.line
    upvalues := r.upvalues
    lineDefined := r.lineDefined
    lastLineDefined := r.lastLineDefined }

/-- The path of a chunk that was loaded from a file. -/
def Event.file? (e : Event) : Option String :=
  match e.source.toList with
  | '@' :: path => some (String.ofList path)
  | _ => none

/-- Whether the running chunk was loaded from a file. -/
def Event.isFile (e : Event) : Bool := e.file?.isSome

/-- **Location.** The file, or else the chunk name, and the line. -/
def Event.location (e : Event) : String :=
  e.file?.getD e.source ++ ":" ++ toString e.line

/-- The JSON form of an event. -/
def Event.json (e : Event) : Json :=
  .object [
    ("kind", e.kind.json),
    ("function_name", .ofOption .string e.functionName),
    ("name_kind", .ofOption .string e.nameKind),
    ("frame_kind", e.frame.json),
    ("source", .string e.source),
    ("current_line", .ofInt e.line),
    ("upvalue_count", .ofNat e.upvalues),
    ("line_defined", .ofInt e.lineDefined),
    ("last_line_defined", .ofInt e.lastLineDefined)]

end ScriptDebug.Hook
