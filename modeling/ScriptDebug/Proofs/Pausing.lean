import ScriptDebug.Proofs.Calling
import ScriptDebug.Proofs.Matching
import ScriptDebug.Proofs.Registry
import ScriptDebug.Rehearsal.Sink
import ScriptDebug.Script.Host

/-!
# Which events pause

A thread raises a hook event, and no other thread takes a turn. It pauses its context exactly if
hook events are looked at, the context is registered, the frame runs a script function, and a
breakpoint is reached, unless the message about it breaks the transport
(`exactly_the_right_events_pause`).

1. An event that is not looked at, has no context or goes no further changes nothing
   (`works_ignored`).
2. Any other one is put to the client logic while the lock is held (`reaches_decide`), which sends a
   message if a breakpoint is hit (`works_unhit`, `works_announced`).
3. What it says is acted on: the thread goes on (`works_passed`), or its context is paused and it
   waits there (`reaches_parked`).
-/

namespace ScriptDebug

namespace Debugger

open Protocol (Notice)

variable {host : Host} {sink : Sink} {d e f : Debugger (Protocol.setup host sink)}
  {t : ThreadId} {h : Handle} {r : Hook.Report} {c : ContextId} {x : Context} {b : Breakpoint}
  {last ans : Answer}

/-- **Stops.** Whether a report is to pause: hook events are looked at, the execution is registered,
its frame runs a script function, and a breakpoint that is set is reached. -/
def Stops (d : Debugger (Protocol.setup host sink)) (h : Handle) (r : Hook.Report) : Prop :=
  d.listening = true ∧ (d.lookup h).isSome = true ∧ Hook.lowerAscii r.tag = "lua" ∧
    ∃ b ∈ d.breakpoints.all, r.Reaches b

/-- Whether the context of an execution is paused. -/
def isPausedFor (d : Debugger (Protocol.setup host sink)) (h : Handle) : Bool :=
  (d.contextOf h).any (·.isPaused)

/-- **Ready.** The context of an execution, if it has one, is open and free to run. -/
def Ready (d : Debugger (Protocol.setup host sink)) (h : Handle) : Prop :=
  ∀ c, d.lookup h = some c → ∃ x, d.contexts[c]? = some x ∧ x.isPaused = false ∧ x.closed = false

theorem isPausedFor_eq (hc : d.lookup h = some c) (hx : d.contexts[c]? = some x) :
    d.isPausedFor h = x.isPaused := by
  simp [isPausedFor, contextOf, hc, hx]

theorem Ready.isPausedFor (hready : d.Ready h) : d.isPausedFor h = false := by
  cases hc : d.lookup h with
  | none => simp [Debugger.isPausedFor, contextOf, hc]
  | some c =>
    obtain ⟨x, hx, hrunning, -⟩ := hready c hc
    exact (isPausedFor_eq hc hx).trans hrunning

theorem Orderly.ready (ho : d.Orderly) (hquiet : d.isPausedFor h = false) : d.Ready h := by
  intro c hc
  obtain ⟨x, hx, -, hclosed⟩ := ho.entry h c (Ascending.mem_of_get? hc)
  exact ⟨x, hx, (isPausedFor_eq hc hx).symm.trans hquiet, hclosed⟩

/-! ## Events that go no further -/

theorem works_ignored (hno : d.listening = true → (d.lookup h).isSome = true →
    (Hook.Event.ofReport r).escalates = false) (last : Answer) :
    ∃ ans, Works t d last [.begin (.hook h r)] d ans := by
  cases hl : d.listening with
  | false => exact ⟨.none, works_act (by simp only [act, beginOperation, hl]; rfl)⟩
  | true =>
    have hbegin : d.act t last (.begin (.hook h r)) = some (d, [.locate h r], .none) := by
      simp only [act, beginOperation, hl, if_true]
    cases hc : d.lookup h with
    | none => exact ⟨.none, .of_act hbegin (works_act (by simp only [act, hc]))⟩
    | some c =>
      have hescalates := hno hl (by rw [hc]; rfl)
      exact ⟨.none, .of_act hbegin (works_act (by simp only [act, hc, hescalates]; rfl))⟩

/-! ## Events that are put to the client logic -/

/-- An event that goes on is put to the client logic while the lock is held. -/
theorem reaches_decide (hopen : d.Open t) (hl : d.listening = true) (hc : d.lookup h = some c)
    (hx : d.contexts[c]? = some x) (he : (Hook.Event.ofReport r).escalates = true)
    (hcall : Works t (d.locked t) .none
      (Action.dispatch (.breakpoint h x.name (.ofReport r)) ++ [.reportHandled]) e ans)
      (last : Answer) :
    Reaches t d ⟨[.begin (.hook h r)], last⟩ e ⟨[.decide c (.ofReport r)], ans⟩ := by
  have hbegin : d.act t last (.begin (.hook h r)) = some (d, [.locate h r], .none) := by
    simp only [act, beginOperation, hl, if_true]
  have hlocate : d.act t .none (.locate h r) = some (d,
      .lock :: Action.dispatch (.breakpoint h x.name (.ofReport r)) ++
        [.reportHandled, .decide c (.ofReport r)], .none) := by
    simp only [act, hc, hx, he, if_true]
    rfl
  exact .step hbegin (.step hlocate ((works_lock hopen .none).reaches (hcall.reaches (.refl _ _))))

/-- Whether a message broke the transport. -/
def breaks : Except SinkFailure Unit → Bool
  | .error (.transport _) => true
  | _ => false

section Call

variable {name : String} {ev : Hook.Event}

theorem works_unhit (hopen : d.Open t) (hm : d.breakpoints.match? ev = none) (last : Answer) :
    Works t d last (Action.dispatch (.breakpoint h name ev) ++ [.reportHandled])
      { d with reload := false }
      (.handled (.ok true)) := by
  have hcall : ∀ last,
      Works t (d.entered t) last [.logic (.called (.breakpoint h name ev))] (d.entered t)
      (.verdict (.ok { handled := true })) := by
    intro last
    have hstep : Protocol.step (d.entered t).breakpoints (.called (.breakpoint h name ev)) last =
        (d.breakpoints, .done (.ok { handled := true })) := by
      have hm' : (d.entered t).breakpoints.match? ev = none := hm
      simp only [Protocol.step, Protocol.enter, hm']
      rfl
    exact works_done hstep
  exact (works_dispatch hopen last hcall rfl).append (works_act rfl)

theorem works_hit (hopen : d.Open t) (hm : d.breakpoints.match? ev = some b) (last : Answer) :
    let text := (Notice.paused h name b ev).json.text
    Works t d last (Action.dispatch (.breakpoint h name ev)) { d.told text with reload := false }
      (.verdict (endOf { handled := false } (sink.send d.sink text).2)) := by
  have hcall : ∀ last, Works t (d.entered t) last [.logic (.called (.breakpoint h name ev))]
      ((d.entered t).told (Notice.paused h name b ev).json.text)
      (.verdict (endOf { handled := false }
        (sink.send d.sink (Notice.paused h name b ev).json.text).2)) := by
    intro last
    have hstep : Protocol.step (d.entered t).breakpoints (.called (.breakpoint h name ev)) last =
        (d.breakpoints, Protocol.sendJson (Notice.paused h name b ev).json
          { handled := false }) := by
      have hm' : (d.entered t).breakpoints.match? ev = some b := hm
      simp only [Protocol.step, Protocol.enter, hm']
      rfl
    exact works_sendJson hstep
  exact works_dispatch hopen last hcall rfl

theorem works_announced (hopen : d.Open t) (hm : d.breakpoints.match? ev = some b) (last : Answer) :
    let sent := sink.send d.sink (Notice.paused h name b ev).json.text
    ∃ ans, Works t d last (Action.dispatch (.breakpoint h name ev) ++ [.reportHandled])
        { d with sink := sent.1, reload := breaks sent.2 } (.handled ans) ∧
      (ans = .ok false ↔ breaks sent.2 = false) := by
  intro sent
  have hhit : Works t d last (Action.dispatch (.breakpoint h name ev))
      { d with sink := sent.1, reload := false }
      (.verdict (endOf { handled := false } sent.2)) := works_hit hopen hm last
  generalize sent = sent at hhit ⊢
  obtain ⟨state, result⟩ := sent
  cases result with
  | ok => exact ⟨.ok false, hhit.append (works_act rfl), by simp [breaks]⟩
  | error g =>
    cases g with
    | notConnected => exact ⟨.ok false, hhit.append (works_act rfl), by simp [breaks]⟩
    | transport reason => exact ⟨.error _, hhit.append (works_act rfl), by simp [breaks]⟩

end Call

/-! ## What comes of the decision -/

/-- A context that is paused at an event, with one thread more that waits. -/
def heldAt (x : Context) (ev : Hook.Event) (t : ThreadId) : Context :=
  { x with state := .paused, pausedAt := some ev, waiters := t :: x.waiters }

theorem works_passed {ev : Hook.Event} {r : Except LogicFailure Bool} (hopen : d.Open t)
    (he : e.dispatch = (d.locked t).dispatch) (hr : r ≠ .ok false) :
    Works t e (.handled r) [.decide c ev] { e with dispatch := d.dispatch } .none := by
  have hdecide : e.act t (.handled r) (.decide c ev) = some (e, [.unlock], .none) := by
    simp only [act]
    split
    · rename_i hfalse _
      cases hfalse
      exact absurd rfl hr
    · rfl
  exact .of_act hdecide (works_unlock hopen he .none)

/-- Any other event pauses the context, if this is free to run and open, and its thread waits. -/
theorem reaches_parked {ev : Hook.Event} (hopen : d.Open t)
    (he : e.dispatch = (d.locked t).dispatch) (hx : e.contexts[c]? = some x)
    (hrunning : x.isPaused = false) (hclosed : x.closed = false) :
    Reaches t e ⟨[.decide c ev], .handled (.ok false)⟩
      { e.setContext c (heldAt x ev t) with dispatch := d.dispatch } ⟨[.parked c], .none⟩ := by
  let paused : Context := { x with state := .paused, pausedAt := some ev }
  have hpause : x.pause ev = .ok paused := by
    simp [Context.pause, hrunning, hclosed, paused]
  have hdecide : e.act t (.handled (.ok false)) (.decide c ev) =
      some (e.setContext c paused, [.unlock, .wait c], .none) := by
    simp only [act, hx, hpause]
  have hunlock : Works t (e.setContext c paused) .none [.unlock]
      { e.setContext c paused with dispatch := d.dispatch } .none :=
    works_unlock (e := e.setContext c paused) hopen he .none
  have hwait : { e.setContext c paused with dispatch := d.dispatch }.act t .none (.wait c) =
      some ({ e.setContext c (heldAt x ev t) with dispatch := d.dispatch },
        [.parked c], .none) := by
    have hnow : (e.contexts.set c paused)[c]? = some paused :=
      List.getElem?_set_self (List.getElem?_eq_some_iff.1 hx).1
    simp only [act, setContext, hnow, Context.wait, Context.isPaused, List.set_set]
    rfl
  exact .step hdecide (hunlock.reaches (.step hwait (.refl _ _)))

/-! ## Exactly the right events -/

theorem escalates_of_stops (h : d.Stops h r) : (Hook.Event.ofReport r).escalates = true ∧
    ∃ b, d.breakpoints.match? (.ofReport r) = some b := by
  obtain ⟨-, -, htag, b, hb, hreach⟩ := h
  have hhit := Hook.Report.reaches_iff.1 hreach
  refine ⟨(Hook.Event.escalates_iff _).2 ⟨Hook.Frame.ofTag_eq_script.2 htag, ?_⟩,
    Option.isSome_iff_exists.1 (BreakpointTable.match?_isSome_of_hits hb hhit)⟩
  cases b with
  | line file line =>
    obtain ⟨hk, -, path, hpath, -⟩ := Breakpoint.hits_line.1 hhit
    refine .inr (.inl ⟨hk, ?_⟩)
    rw [Hook.Event.isFile, hpath]
    rfl
  | function name =>
    obtain ⟨hk, hname⟩ := Breakpoint.hits_function.1 hhit
    exact .inl ⟨hk, by rw [hname]; rfl⟩

theorem stops_of_match? (hl : d.listening = true) (hc : (d.lookup h).isSome = true)
    (he : (Hook.Event.ofReport r).escalates = true)
    (hm : d.breakpoints.match? (.ofReport r) = some b) :
    d.Stops h r ∧ b ∈ d.breakpoints.all ∧ r.Reaches b := by
  obtain ⟨hb, hhit⟩ := BreakpointTable.hits_of_match? hm
  have htag : Hook.lowerAscii r.tag = "lua" :=
    Hook.Frame.ofTag_eq_script.1 ((Hook.Event.escalates_iff _).1 he).1
  exact ⟨⟨hl, hc, htag, b, hb, Hook.Report.reaches_iff.2 hhit⟩, hb, Hook.Report.reaches_iff.2 hhit⟩

theorem stuck_of_parked {ev : Hook.Event} (ht : t < e.threads.length)
    (hx : e.contexts[c]? = some (heldAt x ev t)) :
    (e.setThread t ⟨[.parked c], ans⟩).step t = none := by
  have hact : e.act t ans (.parked c) = none := by
    simp [act, hx, heldAt]
  simp only [step, thread_setThread_self ht, act_setThread, hact, Option.map_none]

/-- An event that does not stop changes nothing but whether the client logic is loaded anew. -/
theorem works_not_stopped (hready : d.Ready h) (hopen : d.Open t) (hno : ¬ d.Stops h r) :
    ∃ (reload : Bool) (ans : Answer), Works t d .none [.begin (.hook h r)]
      { d with reload } ans := by
  by_cases hgoes : d.listening = true ∧ (d.lookup h).isSome = true ∧
      (Hook.Event.ofReport r).escalates = true
  · obtain ⟨hl, hc, he⟩ := hgoes
    obtain ⟨c, hlookup⟩ := Option.isSome_iff_exists.1 hc
    obtain ⟨x, hx, -⟩ := hready c hlookup
    have hm : (d.locked t).breakpoints.match? (.ofReport r) = none :=
      Option.eq_none_iff_forall_ne_some.2 fun b hb => hno (stops_of_match? hl hc he hb).1
    have hdecide :=
      reaches_decide hopen hl hlookup hx he (works_unhit (open_locked d t) hm .none) .none
    exact ⟨false, .none, hdecide.trans (works_passed hopen rfl (by simp))⟩
  · obtain ⟨ans, h⟩ := works_ignored (t := t) (d := d) (h := h) (r := r) (fun hl hc =>
      Bool.eq_false_iff.2 fun he => hgoes ⟨hl, hc, he⟩) .none
    exact ⟨d.reload, ans, h⟩

/-- An event that stops is announced; if this breaks the transport its thread goes on,
and else it waits. -/
theorem reaches_stopped (hopen : d.Open t) (hstops : d.Stops h r) (hlookup : d.lookup h = some c)
    (hx : d.contexts[c]? = some x) (hrunning : x.isPaused = false) (hclosed : x.closed = false)
    (hm : d.breakpoints.match? (.ofReport r) = some b) :
    let sent := sink.send d.sink (Notice.paused h x.name b (.ofReport r)).json.text
    (breaks sent.2 = false → Reaches t d ⟨[.begin (.hook h r)], .none⟩
      { d with
        contexts := d.contexts.set c (heldAt x (.ofReport r) t), sink := sent.1, reload := false }
      ⟨[.parked c], .none⟩) ∧
    (breaks sent.2 = true →
      Works t d .none [.begin (.hook h r)] { d with sink := sent.1, reload := true } .none) := by
  intro sent
  have hescalates := (escalates_of_stops hstops).1
  obtain ⟨ans, hannounced, hans⟩ : ∃ ans, Works t (d.locked t) .none
      (Action.dispatch (.breakpoint h x.name (.ofReport r)) ++ [.reportHandled])
      { d.locked t with sink := sent.1, reload := breaks sent.2 } (.handled ans) ∧
      (ans = .ok false ↔ breaks sent.2 = false) := works_announced (open_locked d t) hm .none
  have hdecide := reaches_decide hopen hstops.1 hlookup hx hescalates hannounced .none
  constructor
  · intro hkept
    rw [hkept, hans.2 hkept] at hdecide
    exact hdecide.trans (reaches_parked hopen rfl hx hrunning hclosed)
  · intro hbroken
    have hfailed : ans ≠ .ok false := by
      intro heq
      rw [hans.1 heq] at hbroken
      cases hbroken
    rw [hbroken] at hdecide
    exact hdecide.trans (works_passed hopen rfl hfailed)

/-- **Exactly the right events pause.** A thread raises a hook event of an execution whose context,
if it has one, is free to run. No other thread holds the lock, and the thread is left alone. If the
event does not stop, nothing changes and nothing is sent. If it does, one message is sent: that this
context is paused at the breakpoint found, with the event. If the message breaks the transport, the
context is not paused and the client logic is to be loaded anew. Else the context, and no other one,
is paused at the event, and the thread waits in it; also if there is no client. -/
theorem exactly_the_right_events_pause (d : Debugger (Protocol.setup host sink))
    (t : ThreadId) (h : Handle) (r : Hook.Report) (ht : t < d.threads.length) (hopen : d.Open t)
    (hready : d.Ready h) :
    let event := Hook.Event.ofReport r
    ∃ (e : Debugger (Protocol.setup host sink)) (y : Thread (Protocol.setup host sink)),
      d.Settles t (.hook h r) e y ∧
      (¬ d.Stops h r →
        e.isPausedFor h = false ∧ e = { d with reload := e.reload } ∧ y.agenda = []) ∧
      (d.Stops h r → ∃ c x b, d.lookup h = some c ∧ d.contexts[c]? = some x ∧
        d.breakpoints.match? event = some b ∧ b ∈ d.breakpoints.all ∧ r.Reaches b ∧
        let sent := sink.send d.sink (Notice.paused h x.name b event).json.text
        (e.isPausedFor h = true ↔ breaks sent.2 = false) ∧
        (breaks sent.2 = false →
          e = { d with
            contexts := d.contexts.set c (heldAt x event t), sink := sent.1, reload := false } ∧
          y.agenda = [.parked c]) ∧
        (breaks sent.2 = true →
          e = { d with sink := sent.1, reload := true } ∧ y.agenda = [])) := by
  intro event
  by_cases hstops : d.Stops h r
  · obtain ⟨hescalates, b, hm⟩ := escalates_of_stops hstops
    obtain ⟨-, hb, hreach⟩ := stops_of_match? hstops.1 hstops.2.1 hescalates hm
    obtain ⟨c, hlookup⟩ := Option.isSome_iff_exists.1 hstops.2.1
    obtain ⟨x, hx, hrunning, hclosed⟩ := hready c hlookup
    obtain ⟨hpauses, hfails⟩ := reaches_stopped hopen hstops hlookup hx hrunning hclosed hm
    cases hbroken : breaks (sink.send d.sink (Notice.paused h x.name b event).json.text).2 with
    | false =>
      let held := d.contexts.set c (heldAt x event t)
      have hnow : held[c]? = some (heldAt x event t) :=
        List.getElem?_set_self (List.getElem?_eq_some_iff.1 hx).1
      have hpaused : isPausedFor { d with contexts := held } h = true :=
        isPausedFor_eq (d := { d with contexts := held }) hlookup hnow
      refine ⟨_, _, (hpauses hbroken).settles ht (stuck_of_parked ht hnow),
        fun hno => absurd hstops hno, fun _ =>
          ⟨c, x, b, hlookup, hx, hm, hb, hreach, ?_, fun _ => ⟨rfl, rfl⟩, fun hbroke => ?_⟩⟩
      · exact iff_of_true hpaused hbroken
      · exact absurd (hbroken.symm.trans hbroke) Bool.false_ne_true
    | true =>
      refine ⟨_, _, (hfails hbroken).finishes ht, fun hno => absurd hstops hno,
        fun _ => ⟨c, x, b, hlookup, hx, hm, hb, hreach, ?_, fun hkept => ?_, fun _ => ⟨rfl, rfl⟩⟩⟩
      · exact iff_of_false (Bool.eq_false_iff.1 hready.isPausedFor) (by rw [hbroken]; decide)
      · exact absurd (hkept.symm.trans hbroken) Bool.false_ne_true
  · obtain ⟨reload, ans, hworks⟩ := works_not_stopped hready hopen hstops
    exact ⟨_, _, hworks.finishes ht, fun _ => ⟨hready.isPausedFor, rfl, rfl⟩,
      fun h => absurd h hstops⟩

end Debugger

namespace Rehearsal

/-- A session with one breakpoint, at the function `work`, and one thread,
which gets an execution to debug. -/
def workSession : Debugger (Protocol.setup Script.host sink) where
  host := { program := .demo "demo.lua" }
  logic := ({ functions := ["work"] } : BreakpointTable)
  sink := ({} : SinkState)
  threads := [{}]

/-- The thread starts the execution. -/
def started : Debugger.Schedule := .ofTurns (.call 0 (.start ⟨1⟩ "main") :: .replicate 11 (.step 0))

/-- The call of `work`. -/
def workCall : Hook.Report where
  code := 0
  name := some "work"
  nameKind := some "global"
  tag := "Lua"
  source := "@demo.lua"
  line := 3
  upvalues := 0
  lineDefined := 3
  lastLineDefined := 5

/-- The execution pauses as it calls `work`, and its thread waits. -/
theorem work_pauses : ∃ e y, (workSession.instant started 12).Settles 0 (.hook ⟨1⟩ workCall) e y ∧
    e.isPausedFor ⟨1⟩ = true ∧ y.agenda = [.parked 0] := by
  have hinitial : workSession.Initial := ⟨rfl, rfl, rfl, fun t => by cases t <;> rfl⟩
  have hready : (workSession.instant started 12).Ready ⟨1⟩ :=
    (hinitial.orderly.instant started 12).ready rfl
  obtain ⟨e, y, hsettles, -, hstops⟩ :=
    Debugger.exactly_the_right_events_pause (workSession.instant started 12) 0
    ⟨1⟩ workCall (by decide) (Debugger.open_of_free rfl) hready
  have hstop : (workSession.instant started 12).Stops ⟨1⟩ workCall :=
    ⟨rfl, rfl, by decide +kernel, .function "work", by decide, rfl, by decide, rfl⟩
  obtain ⟨c, x, b, hc, -, -, -, -, hpaused, hwaits, -⟩ := hstops hstop
  cases hc
  exact ⟨e, y, hsettles, hpaused.2 rfl, (hwaits rfl).2⟩

end Rehearsal

end ScriptDebug
