import ScriptDebug.Debugger.Logic
import ScriptDebug.Protocol.Command

/-!
# The client logic of the JSON protocol

It answers each request with one reply, tells the client of contexts that come and go, and pauses an
event that hits a breakpoint, once the client is told. Having no client is no failure; a transport
that breaks is one.
-/

namespace ScriptDebug.Protocol

/-- Where the reply to a request goes: to the client as a message, or back to the caller. -/
inductive Route where
  | message | caller
  deriving DecidableEq, Repr

/-- **Point.** Where a call stands. -/
inductive Point where
  | called (call : LogicCall)
  /-- An operation is under way whose answer goes into a reply. -/
  | answering (route : Route) (request : Json)
  /-- A text is under way to the client; behind it the call ends with a verdict. -/
  | sending (verdict : Verdict)

/-- Send a JSON value to the client, and end with a verdict. -/
def sendJson (j : Json) (verdict : Verdict) : LogicMove Point :=
  .use (.send j.text) (.sending verdict)

/-- Deliver a reply. -/
def deliver (route : Route) (r : Reply) : LogicMove Point :=
  match route with
  | .message => sendJson r.json {}
  | .caller => .done (.ok { text := r.json.text })

/-- Carry out a command that only concerns the breakpoints. -/
def executeLocal (table : BreakpointTable) :
    Command → Option (BreakpointTable × Except Refusal Json)
  | .use _ => none
  | .setBreakpoint b => some ((table.add b).1, .ok b.json)
  | .clearBreakpoint b =>
    let (rest, was) := table.remove b
    some (rest, if was then .ok b.json else .error .noBreakpoint)
  | .clearAll => some ({}, .ok .null)
  | .listBreakpoints => some (table, .ok (.array (table.all.map Breakpoint.json)))

/-- Answer a request. -/
def answer (table : BreakpointTable) (route : Route) (j : Json) :
    BreakpointTable × LogicMove Point :=
  match readCommand j with
  | .error refusal => (table, deliver route (.of (.error refusal) (some j)))
  | .ok command =>
    match command with
    | .use op => (table, .use op (.answering route j))
    | command =>
      match executeLocal table command with
      | some (table, r) => (table, deliver route (.of r (some j)))
      | none => (table, .done (.ok {}))

/-- The first step of a call. -/
def enter (table : BreakpointTable) : LogicCall → BreakpointTable × LogicMove Point
  | .reload => (table, .done (.ok {}))
  | .added h name => (table, sendJson (Notice.added h name).json {})
  | .removed h name => (table, sendJson (Notice.removed h name).json {})
  | .breakpoint h name e =>
    match table.match? e with
    | none => (table, .done (.ok { handled := true }))
    | some b => (table, sendJson (Notice.paused h name b e).json { handled := false })
  | .message text =>
    match Json.parse text with
    | .error e => (table, deliver .message (.of (.error (.notJson e)) none))
    | .ok j => answer table .message j
  | .request j => answer table .caller j

/-- One step of a call. -/
def step (table : BreakpointTable) (p : Point) (last : Answer) :
    BreakpointTable × LogicMove Point :=
  match p with
  | .called call => enter table call
  | .answering route request =>
    (table, deliver route (.of (answerValue last) (some request)))
  | .sending verdict =>
    match last with
    | .sent (.error (.transport reason)) => (table, .done (.error (.sink (.transport reason))))
    | _ => (table, .done (.ok verdict))

end ScriptDebug.Protocol

namespace ScriptDebug

/-- **JSON protocol** as client logic, over the breakpoints of a session. -/
def Protocol.logic : Logic where
  State := BreakpointTable
  Point := Protocol.Point
  enter := .called
  step := Protocol.step

end ScriptDebug
