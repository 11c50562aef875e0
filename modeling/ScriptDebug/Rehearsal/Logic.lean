import ScriptDebug.Debugger.Logic
import ScriptDebug.Json.Printer
import ScriptDebug.Text.Blank

/-!
# Client logic for rehearsals

It keeps a log of its calls and follows a plan: which calls fail, at which events to pause, and what
to do from inside a call. What is done from inside a call is done once.
-/

namespace ScriptDebug.Rehearsal

/-- **Plan** of the client logic. -/
structure Plan where
  /-- The calls that fail, by their words. -/
  fail : List String := []
  /-- The lines to pause at when they are reached, when a function there returns or is called. -/
  lines : List Int := []
  returns : List Int := []
  calls : List Int := []
  /-- The name to register an execution under again when it is removed. -/
  restart : Option String := none
  /-- What to pass on from inside a message or request. -/
  reenter : Option Json := none
  /-- The execution to resume from inside a message. -/
  resume : Option Handle := none

/-- A plan and the log of calls, the last one first. -/
structure LogicState where
  plan : Plan := {}
  log : List String := []

/-- Take out the log. -/
def LogicState.drain (s : LogicState) : List String × LogicState :=
  (s.log.reverse, { s with log := [] })

/-- The word for a call. -/
def callWord : LogicCall → String
  | .reload => "reload"
  | .added .. => "added"
  | .removed .. => "removed"
  | .breakpoint .. => "breakpoint"
  | .message _ => "message"
  | .request _ => "json"

/-- The word for a checkpoint. -/
def kindWord : Hook.Kind → String
  | .call => "Call"
  | .return => "Return"
  | .line => "Line"
  | .count => "Count"
  | .tailReturn => "TailReturn"
  | .unknown code => s!"Unknown({code})"

/-- The log entry of a call, without its trailing blanks. -/
def logEntry (call : LogicCall) : String :=
  let entry := match call with
    | .reload => "reload"
    | .added h name => s!"added {h} {name}"
    | .removed h name => s!"removed {h} {name}"
    | .breakpoint h _ e => s!"breakpoint {h} {kindWord e.kind} {e.location}"
    | .message text => s!"message {text}"
    | .request j => s!"json {j.sorted.text}"
  String.ofList (entry.toList.reverse.dropWhile Text.isBlank).reverse

/-- The failure of a call that is planned to fail. -/
def plannedFailure : LogicCall → LogicFailure
  | .reload => .reload "reload"
  | .added .. => .sink .notConnected
  | call => .failed (callWord call)

/-- Whether the plan pauses at an event. -/
def Plan.pausesAt (p : Plan) (e : Hook.Event) : Bool :=
  match e.kind with
  | .line => p.lines.contains e.line
  | .return => p.returns.contains e.line
  | .call => p.calls.contains e.line
  | _ => false

/-- **Point** of a call. -/
inductive Point where
  | called (call : LogicCall)
  /-- An execution was taken out of the registry and is to be registered again. -/
  | restarting (h : Handle) (name : String)
  /-- A message was passed on; an execution may be resumed. -/
  | passedOn
  /-- The answer to a request that was passed on is the answer of the call. -/
  | relaying
  /-- The call is at its end. -/
  | ending

/-- The last part of a message: resume an execution, if one is planned. -/
def LogicState.resumePlanned (s : LogicState) : LogicState × LogicMove Point :=
  match s.plan.resume with
  | some h => ({ s with plan := { s.plan with resume := none } }, .use (.resume h) .ending)
  | none => (s, .done (.ok {}))

/-- The first step of a call. -/
def LogicState.enter (s : LogicState) (call : LogicCall) : LogicState × LogicMove Point :=
  let s := { s with log := logEntry call :: s.log }
  if s.plan.fail.contains (callWord call) then (s, .done (.error (plannedFailure call)))
  else
    match call with
    | .removed h _ =>
      match s.plan.restart with
      | some name =>
        ({ s with plan := { s.plan with restart := none } }, .use (.stop h) (.restarting h name))
      | none => (s, .done (.ok {}))
    | .breakpoint _ _ e => (s, .done (.ok { handled := !s.plan.pausesAt e }))
    | .message _ =>
      match s.plan.reenter with
      | some (.string text) =>
        ({ s with plan := { s.plan with reenter := none } }, .use (.message text) .passedOn)
      | _ => s.resumePlanned
    | .request _ =>
      match s.plan.reenter with
      | some j => ({ s with plan := { s.plan with reenter := none } }, .use (.request j) .relaying)
      | none => (s, .done (.ok { text := (Json.object [("ok", .boolean true)]).text }))
    | _ => (s, .done (.ok {}))

/-- One step of a call. -/
def LogicState.step (s : LogicState) (p : Point) (last : Answer) : LogicState × LogicMove Point :=
  match p with
  | .called call => s.enter call
  | .restarting h name => (s, .use (.start h name) .ending)
  | .passedOn => s.resumePlanned
  | .relaying =>
    match last with
    | .text t => (s, .done (.ok { text := t }))
    | _ => (s, .done (.ok {}))
  | .ending => (s, .done (.ok {}))

/-- **Client logic** for rehearsals. -/
def logic : Logic where
  State := LogicState
  Point := Point
  enter := .called
  step := LogicState.step

end ScriptDebug.Rehearsal
