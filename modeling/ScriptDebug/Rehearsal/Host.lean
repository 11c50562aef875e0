import ScriptDebug.Debugger.Host
import ScriptDebug.Value.Graph

/-!
# A host for rehearsals

A script runtime that answers from lists: values of a graph for expressions and variables, failures
for files, and hooks that it refuses to install or to remove. It runs no scripts.
-/

namespace ScriptDebug.Rehearsal

/-- A variable as the host answers for it. -/
inductive PlannedVariable where
  | plain (name : String) (value : Nat)
  /-- It is there but not shown. -/
  | hidden
  /-- It is shown and then denied. -/
  | denied (name : String) (value : Nat)
  deriving Repr

/-- What an expression gives. -/
structure PlannedEvaluation where
  expression : String
  values : List Nat := []
  failure : Option ScriptFailure := none

/-- **Planned host.** -/
structure PlannedHost where
  graph : ValueGraph := {}
  evaluations : List PlannedEvaluation := []
  /-- The variables of each frame, the innermost first. -/
  locals : List (List PlannedVariable) := []
  upvalues : List (List PlannedVariable) := []
  /-- The files that do not load. -/
  loads : List (String × ScriptFailure) := []
  /-- The executions whose hook is not installed. -/
  refuseInstall : List Handle := []
  /-- The executions whose hook is not removed. -/
  refuseRemove : List Handle := []

namespace PlannedHost

/-- The variables of a kind. -/
def planned (p : PlannedHost) : VariableKind → List (List PlannedVariable)
  | .local => p.locals
  | .upvalue => p.upvalues

/-- Look for a variable of a frame by its index, counted from one. -/
def probe (p : PlannedHost) (kind : VariableKind) (frame index : Nat) : Probe Nat :=
  if index = 0 then {}
  else
    match (((p.planned kind)[frame]?).getD [])[index - 1]? with
    | some (.plain name v) => { shown := some (name, v), found := true }
    | some .hidden => { found := true }
    | some (.denied name v) => { shown := some (name, v) }
    | none => {}

/-- Evaluate an expression; one without a plan gives no values. -/
def evaluate (p : PlannedHost) (expression : String) : Except ScriptFailure (List Nat) :=
  match p.evaluations.find? (·.expression == expression) with
  | none => .ok []
  | some e =>
    match e.failure with
    | some f => .error f
    | none => .ok e.values

/-- Load a file. -/
def load (p : PlannedHost) (path : String) : Except ScriptFailure (List Nat) :=
  match p.loads.find? (·.1 == path) with
  | some (_, f) => .error f
  | none => .ok []

/-- Install a hook. -/
def installHook (p : PlannedHost) (h : Handle) : PlannedHost × Except HookFailure Unit :=
  (p, if p.refuseInstall.contains h then .error (.unknownExecution h) else .ok ())

/-- Remove a hook. -/
def removeHook (p : PlannedHost) (h : Handle) : PlannedHost × Except HookFailure Unit :=
  (p, if p.refuseRemove.contains h then .error (.refused s!"stub keeps {h}") else .ok ())

end PlannedHost

/-- What the host is asked for. -/
inductive Question where
  | expression (text : String)
  | file (path : String)

/-- **Host** for rehearsals. -/
def host : Host where
  State := PlannedHost
  Value := Nat
  Code := Question
  look p := p.graph.look
  installHook := PlannedHost.installHook
  removeHook := PlannedHost.removeHook
  probe p kind _ frame index := p.probe kind frame index
  evaluate _ text := .expression text
  load _ path := .file path
  run _ h := .error (.unknownExecution h)
  step p
    | .expression text => (p, .done (p.evaluate text))
    | .file path => (p, .done (p.load path))

end ScriptDebug.Rehearsal
