import ScriptDebug.Context
import ScriptDebug.Debugger.Host

/-!
# Operations and answers

The operations of the debugger, as an embedder calls them, as a client asks for them, and as the
client logic itself may use them while it is called. Each gives an answer.
-/

namespace ScriptDebug

/-- **Operation.** -/
inductive Operation where
  /-- Register an execution under a name. -/
  | start (h : Handle) (name : String)
  /-- Take an execution out of the registry. -/
  | stop (h : Handle)
  /-- Register an execution and install its hook. -/
  | attach (h : Handle) (name : String)
  /-- Remove the hook of an execution and take it out of the registry. -/
  | detach (h : Handle)
  /-- The runtime reports a hook event. -/
  | hook (h : Handle) (report : Hook.Report)
  /-- Run the script of an execution. -/
  | run (h : Handle)
  /-- Pause a context from outside. -/
  | pause (h : Handle) (report : Hook.Report)
  | setListening (on : Bool)
  | resumeAll
  /-- Pass a message to the client logic. -/
  | message (text : String)
  /-- Pass a request to the client logic. -/
  | request (j : Json)
  /-- Ask the client logic about an event. -/
  | breakpoint (h : Handle) (report : Hook.Report)
  | resume (h : Handle)
  | load (h : Handle) (path : String)
  | evaluate (h : Handle) (expression : String)
  | listVariables (kind : VariableKind) (h : Handle) (frame : Nat)
  | fetchVariable (kind : VariableKind) (h : Handle) (frame index : Nat) (levels : Int)
  | setVariable (kind : VariableKind) (h : Handle) (frame index : Nat) (value : Json)
  /-- Have the client logic load itself anew before its next call. -/
  | reload
  /-- List the contexts. -/
  | contexts
  /-- Send a text to the client. -/
  | send (text : String)

/-- The failure of a pause that the context of an execution refuses. -/
def Context.Refusal.failure (h : Handle) : Context.Refusal → RegistryFailure
  | .closed => .unknownContext h
  | .alreadyPaused => .alreadyPaused h

/-- A variable in a listing. -/
structure Slot where
  index : Nat
  name : String
  deriving DecidableEq, Repr

/-- The JSON form of a variable in a listing. -/
def Slot.json (s : Slot) : Json :=
  .object [("index", .ofNat s.index), ("name", .string s.name)]

/-- A context in a listing. -/
structure ContextInfo where
  handle : Handle
  name : String
  state : RunState
  /-- Where the context is paused. -/
  location : Option String
  deriving DecidableEq, Repr

/-- The JSON form of a context in a listing. -/
def ContextInfo.json (c : ContextInfo) : Json :=
  .object ([("handle", c.handle.json), ("name", .string c.name),
      ("state", .string c.state.text)] ++
    (c.location.map fun l => ("location", Json.string l)).toList)

/-- What a call of the client logic decides: whether an event is dealt with, and the text of a
reply. Each kind of call uses the one it asks for. -/
structure Verdict where
  handled : Bool := true
  text : String := "null"
  deriving DecidableEq, Repr

/-- **Answer** of an operation, or of a part of one. -/
inductive Answer where
  | none
  | flag (b : Bool)
  | count (n : Nat)
  | registered (r : Except RegistryFailure Unit)
  | command (r : Except CommandFailure Unit)
  | node (r : Except CommandFailure Node)
  | slots (r : Except CommandFailure (List Slot))
  | contexts (cs : List ContextInfo)
  /-- A call of the client logic has ended. -/
  | verdict (r : Except LogicFailure Verdict)
  /-- An event was dealt with, or not. -/
  | handled (r : Except LogicFailure Bool)
  | text (s : String)
  | sent (r : Except SinkFailure Unit)
  | ran (r : Except HookFailure Unit)
  /-- Host code has ended, with the first value of an expression. -/
  | evaluated (r : Except ScriptFailure (Option Node))

instance : Inhabited Answer := ⟨.none⟩

end ScriptDebug
