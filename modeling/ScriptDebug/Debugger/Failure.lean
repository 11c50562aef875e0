import ScriptDebug.Handle
import ScriptDebug.Value

/-!
# Failures

What can go wrong in the debugger, by who reports it: the registry, the script runtime, the sink
that carries messages to the client, the client logic, or a command. Each failure is a cause, and
has one wording.
-/

namespace ScriptDebug

/-- The runtime refuses a hook. -/
inductive HookFailure where
  /-- The runtime has no such execution. -/
  | unknownExecution (h : Handle)
  | refused (reason : String)
  deriving DecidableEq, Repr

/-- The wording of a refused hook. -/
def HookFailure.message : HookFailure → String
  | .unknownExecution h => s!"host runtime has no execution {h}"
  | .refused reason => s!"hook registration failed: {reason}"

/-- An operation of the registry or of a context fails. -/
inductive RegistryFailure where
  | alreadyAttached (h : Handle)
  | unknownContext (h : Handle)
  | alreadyPaused (h : Handle)
  | hook (f : HookFailure)
  deriving DecidableEq, Repr

/-- The wording of a failed registry operation. -/
def RegistryFailure.message : RegistryFailure → String
  | .alreadyAttached h => s!"execution {h} is already being debugged"
  | .unknownContext h => s!"no debug context for execution {h}"
  | .alreadyPaused h => s!"execution {h} is already paused"
  | .hook f => f.message

/-- A script does not evaluate or load: a code of the runtime and its text. -/
structure ScriptFailure where
  code : Int
  message : String
  deriving DecidableEq, Repr

/-- A message does not reach the client. -/
inductive SinkFailure where
  | notConnected
  | transport (reason : String)
  deriving DecidableEq, Repr

/-- The wording of a message that is not sent. -/
def SinkFailure.message : SinkFailure → String
  | .notConnected => "no client connected"
  | .transport reason => s!"send failed: {reason}"

/-- The client logic fails. -/
inductive LogicFailure where
  /-- It could not be loaded. -/
  | reload (reason : String)
  | failed (reason : String)
  | sink (f : SinkFailure)
  deriving DecidableEq, Repr

/-- The wording of a failure of the client logic. -/
def LogicFailure.message : LogicFailure → String
  | .reload reason => s!"handler reload failed: {reason}"
  | .failed reason => s!"handler failed: {reason}"
  | .sink f => f.message

/-- A command fails. -/
inductive CommandFailure where
  /-- The handle names no registered context. -/
  | invalidContext (h : Handle)
  /-- The stack is looked at while its thread runs. -/
  | running
  | invalidIndex
  | notImplemented
  | levels (e : NegativeLevels)
  | script (f : ScriptFailure)
  deriving DecidableEq, Repr

/-- The code of a failed command; never zero unless the runtime reports zero. -/
def CommandFailure.code : CommandFailure → Int
  | .notImplemented => -2
  | .script f => f.code
  | _ => -1

/-- The wording of a failed command. -/
def CommandFailure.message : CommandFailure → String
  | .invalidContext h => s!"Invalid context: {h}."
  | .running => "Stack is currently running."
  | .invalidIndex => "Invalid variable index."
  | .notImplemented => "Not yet implemented."
  | .levels e => e.message
  | .script f => f.message

/-- The wording of a failed command together with its code. -/
def CommandFailure.display (f : CommandFailure) : String := s!"{f.message} (code {f.code})"

end ScriptDebug
