import ScriptDebug.Proofs.Access
import ScriptDebug.Proofs.Calling
import ScriptDebug.Proofs.Discretion
import ScriptDebug.Proofs.Matching
import ScriptDebug.Rehearsal.Logic

/-!
# Failures of the client logic

Client logic whose calls are over in one step is discreet, if it deals with the events it does not
fail on (`Discreet.of_done`); so is the JSON protocol as long as no breakpoint is set
(`Protocol.discreet`). Between two debuggers of one host with discreet client logic there is no
difference in the registry, in the states of the contexts, in the host, or in any answer, wherever
the one or the other fails (`failures_stay_apart`).
-/

namespace ScriptDebug

/-! ## Who is discreet -/

/-- Client logic whose calls are over in one step is discreet,
if it deals with the events it does not fail on. -/
theorem Discreet.of_done {host : Host} {logic : Logic} {sink : Sink} {P : logic.State → Prop}
    (hdone : ∀ s call last, P s → call.isOfRegistry = true →
      ∃ s' r, logic.step s (logic.enter call) last = (s', .done r) ∧ P s' ∧
        ∀ h name ev v, call = .breakpoint h name ev → r = .ok v → v.handled = true) :
    Discreet ⟨host, logic, sink⟩ P := by
  have hpoints : ∀ {p}, logic.Stands P p →
      ∃ call, call.isOfRegistry = true ∧ p = logic.enter call := by
    intro p hp
    induction hp with
    | enter hcall => exact ⟨_, hcall, rfl⟩
    | @next s _ _ last _ _ hs hu ih | @passOn s _ _ last _ _ _ hs hu _ ih =>
      obtain ⟨call, hcall, rfl⟩ := ih
      obtain ⟨s', r, hstep, -⟩ := hdone s call last hs hcall
      rw [hstep] at hu
      cases hu
  refine ⟨fun {s p} last hs hp => ?_, fun {s p last op q} hs hp hu => ?_,
    fun d t last call hlogic _ _ hp => ?_⟩
  · obtain ⟨call, hcall, rfl⟩ := hpoints hp
    obtain ⟨s', r, hstep, hs', -⟩ := hdone s call last hs hcall
    rw [hstep]
    exact hs'
  · obtain ⟨call, hcall, rfl⟩ := hpoints hp
    obtain ⟨s', r, hstep, -⟩ := hdone s call last hs hcall
    rw [hstep] at hu
    cases hu
  · have hlast : ∃ call', call'.isOfRegistry = true ∧ logic.enter call = logic.enter call' ∧
        ∀ h name ev, call = .breakpoint h name ev → call' = call := by
      cases hcall : call.isOfRegistry with
      | true => exact ⟨call, hcall, rfl, fun _ _ _ _ => rfl⟩
      | false =>
        obtain ⟨call', hcall', heq⟩ := hpoints hp
        refine ⟨call', hcall', heq, ?_⟩
        rintro h name ev rfl
        cases hcall
    obtain ⟨call', hcall', heq, hsame⟩ := hlast
    obtain ⟨s', r, hstep, -, hhandled⟩ := hdone d.logic call' last hlogic hcall'
    refine ⟨{ d with logic := s' }, r, Debugger.works_act ?_, ?_⟩
    · rw [← heq] at hstep
      simp only [Debugger.act, hstep]
    · rintro h name ev v hbreak hv
      exact hhandled h name ev v ((hsame h name ev hbreak).trans hbreak) hv

section Sessions

open Protocol (Point)

variable {host : Host} {sink : Sink} {p q : Protocol.logic.Point} {last : Answer} {op : Operation}

theorem BreakpointTable.match?_empty (ev : Hook.Event) :
    ({} : BreakpointTable).match? ev = none := by
  cases hmatch : ({} : BreakpointTable).match? ev with
  | none => rfl
  | some b => exact absurd (hits_of_match? hmatch).1 List.not_mem_nil

/-- The points of a session without breakpoints: a call of the registry is made,
or a text is under way. -/
def Protocol.Registers (p : Protocol.logic.Point) : Prop :=
  (∃ call : LogicCall, call.isOfRegistry = true ∧ p = Point.called call) ∨ ∃ v, p = Point.sending v

theorem Protocol.Registers.sends {table : BreakpointTable} (hp : Protocol.Registers p)
    (hu : (Protocol.step table p last).2 = .use op q) :
    ∃ text v, op = .send text ∧ q = Point.sending v := by
  rcases Protocol.step_use hu with hsend | ⟨_, _, _, _, hcalled⟩
  · exact hsend
  · rcases hp with ⟨call, hcall, rfl⟩ | ⟨v, rfl⟩
    · rcases hcalled with ⟨text, heq⟩ | heq <;> cases heq <;> cases hcall
    · rcases hcalled with ⟨text, heq⟩ | heq <;> cases heq

theorem Protocol.registers_of_stands
    (h : Protocol.logic.Stands (fun table : BreakpointTable => table = {}) p) :
    Protocol.Registers p := by
  induction h with
  | enter hcall => exact .inl ⟨_, hcall, rfl⟩
  | next _ _ hu ih =>
    obtain ⟨text, v, -, rfl⟩ := ih.sends hu
    exact .inr ⟨v, rfl⟩
  | passOn _ _ hu hcall ih =>
    obtain ⟨text, v, rfl, -⟩ := ih.sends hu
    cases hcall

/-- **A session of the JSON protocol without breakpoints** is discreet,
over any host and with any sink. -/
theorem Protocol.discreet (host : Host) (sink : Sink) :
    Discreet (Protocol.setup host sink) fun table : BreakpointTable => table = {} where
  keeps := by
    rintro _ p last rfl hp
    rcases registers_of_stands hp with ⟨call, hcall, rfl⟩ | ⟨v, rfl⟩
    · cases call with
      | breakpoint h name ev =>
        show (Protocol.enter {} (.breakpoint h name ev)).1 = _
        simp only [Protocol.enter, BreakpointTable.match?_empty]
      | message | request => cases hcall
      | _ => rfl
    · show (Protocol.step {} (.sending v) last).1 = _
      simp only [Protocol.step]
      split <;> rfl
  uses := by
    intro _ p last op q _ hp hu
    obtain ⟨text, v, rfl, -⟩ := (registers_of_stands hp).sends hu
    rfl
  ends := by
    intro d t last call hlogic _ _ hp
    have htable : d.breakpoints = {} := hlogic
    have hcall : call.isOfRegistry = true := by
      rcases registers_of_stands hp with ⟨_, hcall, heq⟩ | ⟨v, heq⟩ <;> cases heq
      exact hcall
    cases call with
    | reload =>
      have hstep : Protocol.step d.breakpoints (.called .reload) last =
          (d.breakpoints, .done (.ok {})) := rfl
      have hworks := Debugger.works_done (t := t) hstep
      exact ⟨_, _, hworks, fun _ _ _ _ hbreak => by cases hbreak⟩
    | added h name =>
      have hstep : Protocol.step d.breakpoints (.called (.added h name)) last =
          (d.breakpoints, Protocol.sendJson (Notice.added h name).json {}) := rfl
      have hworks := Debugger.works_sendJson (t := t) hstep
      exact ⟨_, _, hworks, fun _ _ _ _ hbreak => by cases hbreak⟩
    | removed h name =>
      have hstep : Protocol.step d.breakpoints (.called (.removed h name)) last =
          (d.breakpoints, Protocol.sendJson (Notice.removed h name).json {}) := rfl
      have hworks := Debugger.works_sendJson (t := t) hstep
      exact ⟨_, _, hworks, fun _ _ _ _ hbreak => by cases hbreak⟩
    | breakpoint h name ev =>
      have hstep : Protocol.step d.breakpoints (.called (.breakpoint h name ev)) last =
          ({}, .done (.ok { handled := true })) := by
        rw [htable]
        simp only [Protocol.step, Protocol.enter, BreakpointTable.match?_empty]
      have hworks := Debugger.works_done (t := t) hstep
      refine ⟨_, _, hworks, ?_⟩
      rintro _ _ _ v - hv
      cases hv
      rfl
    | message | request => cases hcall

end Sessions

namespace Debugger

/-- **Failures of the client logic stay apart.** Two debuggers of one host agree in their rosters;
each has a client logic of its own, discreet but failing wherever it likes, and a sink of its own.
Given the same operations of the registry, both perform them to their end, each in the only course
there is, with the same answers; and they agree in their rosters again: the contexts registered,
with their names and states, the hooks of the host, and whether events are looked at. No context is
paused. -/
theorem failures_stay_apart {host : Host} {logic logic' : Logic} {sink sink' : Sink}
    {P : logic.State → Prop} {P' : logic'.State → Prop} {d : Debugger ⟨host, logic, sink⟩}
    {d' : Debugger ⟨host, logic', sink'⟩} (hS : Discreet ⟨host, logic, sink⟩ P)
    (hS' : Discreet ⟨host, logic', sink'⟩ P') (hd : d.Resting P) (hd' : d'.Resting P')
    (hsame : d.roster = d'.roster) (calls : List (ThreadId × Operation)) (hcalls : ∀ call ∈ calls,
      call.1 < d.threads.length ∧ call.1 < d'.threads.length ∧ call.2.isRegistry = true) :
    ∃ answers e e', (∀ as f, d.Performs calls as f ↔ as = answers ∧ f = e) ∧
      (∀ as f, d'.Performs calls as f ↔ as = answers ∧ f = e') ∧ e.roster = e'.roster ∧
      e.Resting P ∧ e'.Resting P' := by
  obtain ⟨e, hperforms, he, hroster⟩ :=
    performs_roster hS hd calls fun call hcall => ⟨(hcalls call hcall).1, (hcalls call hcall).2.2⟩
  obtain ⟨e', hperforms', he', hroster'⟩ :=
    performs_roster hS' hd' calls fun call hcall => (hcalls call hcall).2
  rw [hsame] at hperforms hroster
  exact ⟨_, e, e', hperforms.iff, hperforms'.iff, hroster.trans hroster'.symm, he, he'⟩

end Debugger

namespace Rehearsal

/-- **Lets.** The plan pauses at no event, and registers nothing from inside a
call; calls may fail. -/
structure LogicState.Lets (s : LogicState) : Prop where
  lines : s.plan.lines = []
  returns : s.plan.returns = []
  calls : s.plan.calls = []
  restart : s.plan.restart = none

theorem LogicState.Lets.pausesAt {s : LogicState} (h : s.Lets) (ev : Hook.Event) :
    s.plan.pausesAt ev = false := by
  unfold Plan.pausesAt
  rw [h.lines, h.returns, h.calls]
  split <;> rfl

/-- With such a plan the client logic for rehearsals is discreet, whichever calls fail. -/
theorem discreet_of_lets (host : Host) (sink : Sink) :
    Discreet ⟨host, logic, sink⟩ LogicState.Lets := by
  refine Discreet.of_done fun (s : LogicState) call last hs hcall => ?_
  have hlogged : LogicState.Lets { s with log := logEntry call :: s.log } :=
    ⟨hs.lines, hs.returns, hs.calls, hs.restart⟩
  show ∃ s' r, LogicState.enter s call = (s', .done r) ∧ LogicState.Lets s' ∧ _
  unfold LogicState.enter
  dsimp only
  split
  · exact ⟨_, _, rfl, hlogged, fun _ _ _ _ _ hv => nomatch hv⟩
  · cases call with
    | reload | added h name => exact ⟨_, _, rfl, hlogged, fun _ _ _ _ hbreak => nomatch hbreak⟩
    | removed h name =>
      simp only [hs.restart]
      exact ⟨_, _, rfl, hlogged, fun _ _ _ _ hbreak => nomatch hbreak⟩
    | breakpoint h name ev =>
      refine ⟨_, _, rfl, hlogged, ?_⟩
      rintro _ _ _ v - hv
      cases hv
      simp [hs.pausesAt]
    | message | request => cases hcall

/-- A session of the JSON protocol whose sink is broken. -/
def brokenSession : Debugger (Protocol.setup host sink) where
  host := ({ refuseInstall := [⟨2⟩] } : PlannedHost)
  logic := ({} : BreakpointTable)
  sink := ({ mode := .broken } : SinkState)
  threads := [{}]

/-- Client logic that fails at every event, and whenever an execution goes. -/
def failingDebugger : Debugger ⟨host, logic, sink⟩ where
  host := ({ refuseInstall := [⟨2⟩] } : PlannedHost)
  logic := ({ plan := { fail := ["breakpoint", "removed"] } } : LogicState)
  sink := ({} : SinkState)
  threads := [{}]

/-- Two executions are attached, one of which is refused its hook; an event is reported,
and all is taken back. -/
def visit : List (ThreadId × Operation) :=
  [(0, .attach ⟨1⟩ "main"), (0, .attach ⟨2⟩ "other"), (0, .hook ⟨1⟩ callOfF), (0, .contexts),
    (0, .resumeAll), (0, .detach ⟨1⟩), (0, .stop ⟨1⟩)]

/-- Neither the broken sink nor the calls that fail are seen. -/
theorem failures_unseen : ∃ answers e e',
    (∀ as f, brokenSession.Performs visit as f ↔ as = answers ∧ f = e) ∧
    (∀ as f, failingDebugger.Performs visit as f ↔ as = answers ∧ f = e') ∧ e.roster = e'.roster ∧
    e.Resting (fun table : BreakpointTable => table = {}) ∧ e'.Resting LogicState.Lets := by
  have hcalls : ∀ call ∈ visit, call.1 < brokenSession.threads.length ∧
      call.1 < failingDebugger.threads.length ∧ call.2.isRegistry = true := by decide
  exact Debugger.failures_stay_apart (Protocol.discreet host sink) (discreet_of_lets host sink)
    ⟨rfl, fun _ hx => absurd hx List.not_mem_nil, rfl⟩
    ⟨rfl, fun _ hx => absurd hx List.not_mem_nil, ⟨rfl, rfl, rfl, rfl⟩⟩ rfl visit hcalls

end Rehearsal

end ScriptDebug
