import ScriptDebug.Debugger.State
import ScriptDebug.Hook.Escalation
import ScriptDebug.Json.Printer

/-!
# The steps of the debugger

`act` says what one action does to the shared state, which actions come in its place, and with which
answer the thread goes on; `none` means that the thread has to wait. `step` is `act` on the first
action of a thread. Every schedule of threads is a sequence of steps.

* Every call of the client logic runs under the dispatch lock, which its thread may hold already.
* An event is announced and the context paused under one hold of the lock, and a resume takes the
  lock, so that no resume falls between the two.
* A thread parks only behind its release of the lock.
-/

namespace ScriptDebug

variable {S : Setup}

/-- The reply that stands in for one that the client logic failed to give. -/
def failureNotice : String :=
  (Json.object [("type", .string "Reply"), ("code", .ofInt (-1)),
    ("value", .string "Unknown error in remote handler.")]).text

/-- A call of the client logic under the dispatch lock. -/
def Action.dispatch (call : LogicCall) : List (Action S) := [.lock, .enter call]

/-- The answer of an operation on a stack that cannot be looked at. -/
def Operation.refuse (op : Operation) (f : CommandFailure) : Answer :=
  match op with
  | .evaluate .. => .node (.error f)
  | .listVariables .. => .slots (.error f)
  | .fetchVariable .. => .node (.error f)
  | _ => .command (.error f)

/-- What looks into a stack, once it is known to be paused. -/
def Operation.look (op : Operation) : List (Action S) :=
  match op with
  | .evaluate h e => [.host (S.host.evaluate h e), .showValue]
  | .load h path => [.host (S.host.load h path), .reportLoaded]
  | .listVariables kind h frame => [.enumerate kind h frame 1 []]
  | .fetchVariable kind h frame index levels => [.fetch kind h frame index levels]
  | _ => []

namespace Debugger

/-- The state, actions and answer that an action leaves. -/
abbrev Outcome (S : Setup) := Debugger S × List (Action S) × Answer

/-- Find the context of an operation on a paused stack. -/
def beginLook (d : Debugger S) (h : Handle) (op : Operation) : Outcome S :=
  match d.lookup h with
  | none => (d, [], op.refuse (.invalidContext h))
  | some c => (d, [.inspect c op], .none)

/-- The first step of an operation. -/
def beginOperation (d : Debugger S) (op : Operation) : Outcome S :=
  match op with
  | .start h name =>
    match d.lookup h with
    | some _ => (d, [], .flag false)
    | none =>
      let c := d.contexts.length
      ({ d with
          contexts := d.contexts ++ [{ handle := h, name }]
          registry := Ascending.put h c d.registry },
        Action.dispatch (.added h name) ++ [.reportNotice, .give (.flag true)], .none)
  | .stop h =>
    match d.lookup h with
    | none => (d, [], .flag true)
    | some c =>
      let name := ((d.contexts[c]?).map (·.name)).getD ""
      ({ d with registry := Ascending.remove h d.registry },
        Action.dispatch (.removed h name) ++ [.reportNotice, .close c, .give (.flag true)], .none)
  | .attach h name => (d, [.begin (.start h name), .install h], .none)
  | .detach h =>
    match d.lookup h with
    | none => (d, [], .registered (.error (.unknownContext h)))
    | some _ => (d, [.uninstall h], .none)
  | .hook h report => if d.listening then (d, [.locate h report], .none) else (d, [], .none)
  | .run h =>
    match S.host.run d.host h with
    | .error f => (d, [], .ran (.error f))
    | .ok code => (d, [.host code, .give (.ran (.ok ()))], .none)
  | .pause h report =>
    match d.lookup h with
    | none => (d, [], .none)
    | some c => (d, [.pauseAt c (.ofReport report)], .none)
  | .setListening on => ({ d with listening := on }, [], .flag on)
  | .resumeAll => (d, [.lock, .sweep], .none)
  | .message text => (d, Action.dispatch (.message text) ++ [.reportNotice], .none)
  | .request j => (d, Action.dispatch (.request j) ++ [.reportText], .none)
  | .breakpoint h report =>
    match d.lookup h with
    | none => (d, [], .none)
    | some c =>
      let name := ((d.contexts[c]?).map (·.name)).getD ""
      (d, Action.dispatch (.breakpoint h name (.ofReport report)) ++ [.reportHandled], .none)
  | .resume h =>
    match d.lookup h with
    | none => (d, [], .command (.error (.invalidContext h)))
    | some c => (d, [.lock, .resumeOne c, .unlock, .give (.command (.ok ()))], .none)
  | .load h _ => d.beginLook h op
  | .evaluate h _ => d.beginLook h op
  | .listVariables _ h _ => d.beginLook h op
  | .fetchVariable _ h _ _ _ => d.beginLook h op
  | .setVariable .. => (d, [], .command (.error .notImplemented))
  | .reload => ({ d with reload := true }, [], .none)
  | .contexts => (d, [.describe d.registered []], .none)
  | .send text =>
    let (sink, r) := S.sink.send d.sink text
    ({ d with sink }, [], .sent r)

/-- **Act.** -/
def act (d : Debugger S) (t : ThreadId) (last : Answer) : Action S → Option (Outcome S)
  | .begin op => some (d.beginOperation op)
  | .give a => some (d, [], a)
  -- the dispatch lock
  | .lock =>
    match d.dispatch with
    | none => some ({ d with dispatch := some ⟨t, 0⟩ }, [], last)
    | some hold =>
      if hold.owner = t then
        some ({ d with dispatch := some { hold with again := hold.again + 1 } }, [], last)
      else none
  | .unlock =>
    match d.dispatch with
    | some ⟨owner, again + 1⟩ => some ({ d with dispatch := some ⟨owner, again⟩ }, [], last)
    | _ => some ({ d with dispatch := none }, [], last)
  -- calls of the client logic
  | .enter call =>
    if d.reload then
      some ({ d with reload := false }, [.logic (S.logic.enter .reload), .reloaded call], .none)
    else some (d, [.logic (S.logic.enter call), .unlock], .none)
  | .reloaded call =>
    match last with
    | .verdict (.error _) => some ({ d with reload := true }, [.unlock], last)
    | _ => some (d, [.logic (S.logic.enter call), .unlock], .none)
  | .logic p =>
    let (logic, move) := S.logic.step d.logic p last
    let d := { d with logic }
    match move with
    | .use op next => some (d, [.begin op, .logic next], .none)
    | .done r => some (d, [], .verdict r)
  | .reportNotice =>
    match last with
    | .verdict (.error _) => some ({ d with reload := true }, [.sendFailure], .none)
    | _ => some (d, [], .none)
  | .reportText =>
    match last with
    | .verdict (.error _) =>
      some ({ d with reload := true }, [.sendFailure, .give (.text "null")], .none)
    | .verdict (.ok v) => some (d, [], .text v.text)
    | _ => some (d, [], .text "null")
  | .reportHandled =>
    match last with
    | .verdict (.error f) => some ({ d with reload := true }, [], .handled (.error f))
    | .verdict (.ok v) => some (d, [], .handled (.ok v.handled))
    | _ => some (d, [], .handled (.ok true))
  | .sendFailure =>
    let (sink, _) := S.sink.send d.sink failureNotice
    some ({ d with sink }, [], .none)
  -- registration
  | .install h =>
    match last with
    | .flag true =>
      match S.host.installHook d.host h with
      | (host, .ok ()) => some ({ d with host }, [], .registered (.ok ()))
      | (host, .error f) =>
        some ({ d with host },
          [.begin (.stop h), .give (.registered (.error (.hook f)))], .none)
    | _ => some (d, [], .registered (.error (.alreadyAttached h)))
  | .uninstall h =>
    let (host, r) := S.host.removeHook d.host h
    some ({ d with host }, [.begin (.stop h), .give (.registered (r.mapError .hook))], .none)
  | .close c =>
    match d.contexts[c]? with
    | some x => some (d.setContext c x.close.1, [], .none)
    | none => some (d, [], .none)
  -- hook events
  | .locate h report =>
    match d.lookup h with
    | none => some (d, [], .none)
    | some c =>
      let e := Hook.Event.ofReport report
      let name := ((d.contexts[c]?).map (·.name)).getD ""
      if e.escalates then
        some (d, .lock :: Action.dispatch (.breakpoint h name e) ++ [.reportHandled, .decide c e],
          .none)
      else some (d, [], .none)
  | .decide c e =>
    match last, d.contexts[c]? with
    | .handled (.ok false), some x =>
      match x.pause e with
      | .ok paused => some (d.setContext c paused, [.unlock, .wait c], .none)
      | .error _ => some (d, [.unlock], .none)
    | _, _ => some (d, [.unlock], .none)
  | .pauseAt c e =>
    match d.contexts[c]? with
    | none => some (d, [], .none)
    | some x =>
      match x.pause e with
      | .ok paused => some (d.setContext c paused, [], .registered (.ok ()))
      | .error refusal => some (d, [], .registered (.error (refusal.failure x.handle)))
  | .wait c =>
    match d.contexts[c]? with
    | none => some (d, [], .none)
    | some x =>
      match x.wait t with
      | (x, true) => some (d.setContext c x, [.parked c], .none)
      | (_, false) => some (d, [], .none)
  | .parked c =>
    match d.contexts[c]? with
    | none => some (d, [], .none)
    | some x => if t ∈ x.waiters then none else some (d, [.wait c], .none)
  -- resuming
  | .resumeOne c =>
    match d.contexts[c]? with
    | none => some (d, [], .flag false)
    | some x => some (d.setContext c x.resume.1, [], .flag x.resume.2)
  | .sweep => some (d, [.resumeEach d.registered 0], .none)
  | .resumeEach [] n => some (d, [.unlock], .count n)
  | .resumeEach (c :: cs) n =>
    match d.contexts[c]? with
    | none => some (d, [.resumeEach cs n], .none)
    | some x =>
      some (d.setContext c x.resume.1, [.resumeEach cs (if x.resume.2 then n + 1 else n)], .none)
  -- looking into a paused stack
  | .inspect c op =>
    match d.contexts[c]? with
    | some x => if x.isPaused then some (d, op.look, .none) else some (d, [], op.refuse .running)
    | none => some (d, [], op.refuse .running)
  | .host code =>
    let (host, move) := S.host.step d.host code
    let d := { d with host }
    match move with
    | .raise h report next => some (d, [.begin (.hook h report), .host next], .none)
    | .next code => some (d, [.host code], .none)
    | .done r =>
      let node (vs : List S.host.Value) := vs.head?.map (Node.view (S.host.look host) 1 none)
      some (d, [], .evaluated (r.map node))
  | .showValue =>
    match last with
    | .evaluated (.error f) => some (d, [], .node (.error (.script f)))
    | .evaluated (.ok (some n)) => some (d, [], .node (.ok n))
    | _ => some (d, [], .node (.ok .nil))
  | .reportLoaded =>
    match last with
    | .evaluated (.error f) => some (d, [], .command (.error (.script f)))
    | _ => some (d, [], .command (.ok ()))
  | .enumerate kind h frame index slots =>
    let p := S.host.probe d.host kind h frame index
    if p.found then
      let slot : Slot := ⟨index, (p.shown.map (·.1)).getD ""⟩
      some (d, [.enumerate kind h frame (index + 1) (slots ++ [slot])], .none)
    else some (d, [], .slots (.ok slots))
  | .fetch kind h frame index levels =>
    match S.host.probe d.host kind h frame index with
    | ⟨some (name, v), true⟩ =>
      let n := Node.view? (S.host.look d.host) levels (some name) v
      some (d, [], .node (n.mapError .levels))
    | _ => some (d, [], .node (.error .invalidIndex))
  -- listing contexts
  | .describe [] done => some (d, [], .contexts done)
  | .describe (c :: cs) done =>
    match d.contexts[c]? with
    | none => some (d, [.describe cs done], .none)
    | some x => some (d, [.describeLocation c x.state cs done], .none)
  | .describeLocation c state cs done =>
    match d.contexts[c]? with
    | none => some (d, [.describe cs done], .none)
    | some x =>
      let info : ContextInfo := ⟨x.handle, x.name, state, x.pausedAt.map (·.location)⟩
      some (d, [.describe cs (done ++ [info])], .none)

/-- **Step** of one thread; `none` when it has nothing to do or has to wait. -/
def step (d : Debugger S) (t : ThreadId) : Option (Debugger S) :=
  match (d.thread t).agenda with
  | [] => none
  | a :: rest =>
    (d.act t (d.thread t).answer a).map fun (d, todo, answer) =>
      d.setThread t ⟨todo ++ rest, answer⟩

/-- **Early wake-up.** A parked thread may leave the queue at any time, to look again. -/
def wakeEarly (d : Debugger S) (t : ThreadId) (c : ContextId) : Debugger S :=
  match d.contexts[c]? with
  | some x => d.setContext c (x.wake t)
  | none => d

end Debugger

end ScriptDebug
