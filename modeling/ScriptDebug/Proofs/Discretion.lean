import ScriptDebug.Proofs.Lock
import ScriptDebug.Proofs.Roster
import ScriptDebug.Proofs.Sparing

/-!
# Client logic that keeps to itself

Client logic is discreet if it leaves the registry alone, and deals with every event or fails
(`Discreet`). Whether and when it fails, then, is seen neither in the roster nor in what the
operations of the registry answer.

1. Whatever a call of discreet client logic does, the roster stays (`Discreet.reaches`), and the
   lock comes back as it was (`dispatch_of_works`).
2. So a call behind the lock leads to a verdict and leaves the roster alone (`Discreet.works_call`),
   and each operation of the registry leads to what `Roster.perform` says
   (`Discreet.works_perform`).
3. `Roster.perform` knows neither client logic nor sink, and so does a course of operations
   (`performs_roster`).
-/

namespace ScriptDebug

variable {S : Setup} {P : S.logic.State → Prop}

/-- Whether an operation is one that the client logic is offered for its client,
which leaves the registry alone. -/
def Operation.isRemote : Operation → Bool
  | .message _ | .request _ | .breakpoint .. | .resume _ | .load .. | .evaluate ..
  | .listVariables .. | .fetchVariable .. | .setVariable .. | .reload | .contexts | .send _ => true
  | _ => false

/-- The calls of the client logic that the operations of the registry make. -/
def LogicCall.isOfRegistry : LogicCall → Bool
  | .reload | .added .. | .removed .. | .breakpoint .. => true
  | .message _ | .request _ => false

/-- What an operation passes on to the client logic. -/
def Operation.passedOn? : Operation → Option LogicCall
  | .message text => some (.message text)
  | .request j => some (.request j)
  | _ => none

/-- **Stands.** The points that the calls of the registry come to, with what is passed on to the
client logic from there, as long as its states have a property. -/
inductive Logic.Stands (L : Logic) (P : L.State → Prop) : L.Point → Prop
  | enter {call : LogicCall} (hcall : call.isOfRegistry = true) : Stands L P (L.enter call)
  | next {s : L.State} {p q : L.Point} {last : Answer} {op : Operation}
      (hp : Stands L P p) (hs : P s) (hu : (L.step s p last).2 = .use op q) : Stands L P q
  | passOn {s : L.State} {p q : L.Point} {last : Answer} {op : Operation} {call : LogicCall}
      (hp : Stands L P p) (hs : P s) (hu : (L.step s p last).2 = .use op q)
      (hcall : op.passedOn? = some call) :
      Stands L P (L.enter call)

/-- **Discreet.** In the states with a property, which is kept, the client logic uses nothing that
concerns the registry, and each of its calls ends where no context is paused: in any way, but that
an event it does not fail on is dealt with. -/
structure Discreet (S : Setup) (P : S.logic.State → Prop) : Prop where
  keeps : ∀ {s p} last, P s → S.logic.Stands P p → P (S.logic.step s p last).1
  uses : ∀ {s p last op q}, P s → S.logic.Stands P p → (S.logic.step s p last).2 = .use op q →
    op.isRemote = true
  ends : ∀ (d : Debugger S) t last call, P d.logic → d.roster.Unpaused → d.Holds t →
    S.logic.Stands P (S.logic.enter call) →
    ∃ e r, Debugger.Works t d last [.logic (S.logic.enter call)] e (.verdict r) ∧
      ∀ h name ev v, call = .breakpoint h name ev → r = .ok v → v.handled = true

/-- **Quiet.** What stands on an agenda on account of client logic that leaves the registry alone,
while no context is paused. -/
def Action.Quiet (P : S.logic.State → Prop) : Action S → Prop
  | .begin op =>
    op.isRemote = true ∧ ∀ call, op.passedOn? = some call → S.logic.Stands P (S.logic.enter call)
  | .enter call | .reloaded call => S.logic.Stands P (S.logic.enter call)
  | .logic p => S.logic.Stands P p
  | .give _ | .lock | .unlock | .reportNotice | .reportText | .reportHandled | .sendFailure
  | .resumeOne _ | .inspect .. | .describe .. | .describeLocation .. => True
  | _ => False

theorem Context.resume_of_running {x : Context} (h : x.isPaused = false) :
    x.resume = (x, false) := by
  unfold Context.resume
  rw [h]
  rfl

namespace Debugger

variable {d e : Debugger S} {t : ThreadId} {x y : Thread S} {a : Action S} {todo : List (Action S)}
  {last ans : Answer} {h : Handle} {name : String} {call : LogicCall} {r : Roster S.host}

/-! ## What a call may do -/

theorem roster_of_quiet (hq : a.Quiet P) (hcalm : d.roster.Unpaused)
    (hact : d.act t last a = some (e, todo, ans)) :
    e.roster = d.roster := by
  have hhost : e.host = d.host := by
    rcases act_host hact with h | ⟨x, rfl, -⟩ | ⟨x, rfl, -⟩ | ⟨code, rfl, -⟩
    · exact h
    all_goals exact absurd hq id
  have hrest : e.registry = d.registry ∧ e.contexts = d.contexts ∧ e.listening = d.listening := by
    cases act_yields hact with
    | start | stop | listen => cases hq.1
    | @context _ c x y hx hset =>
      cases hset with
      | resumeOne =>
        have hrunning : x.isPaused = false := hcalm x (List.mem_of_getElem? hx)
        obtain ⟨hlt, rfl⟩ := List.getElem?_eq_some_iff.1 hx
        rw [Context.resume_of_running hrunning]
        exact ⟨rfl, List.set_getElem_self hlt, rfl⟩
      | _ => exact absurd hq id
    | _ => exact ⟨rfl, rfl, rfl⟩
  obtain ⟨hregistry, hcontexts, hlistening⟩ := hrest
  unfold roster
  rw [hregistry, hcontexts, hhost, hlistening]

/-- Nothing quiet leads to anything else. -/
theorem quiet_of_quiet (hS : Discreet S P) (hq : a.Quiet P) (hlogic : P d.logic)
    (hcalm : d.roster.Unpaused) (hact : d.act t last a = some (e, todo, ans)) :
    ∀ b ∈ todo, b.Quiet P := by
  have hleads := act_leads hact
  cases a with
  | begin op =>
    cases op with
    | message | request =>
      obtain rfl := hleads
      simp [Action.dispatch, Action.Quiet, hq.2 _ rfl]
    | breakpoint h report =>
      obtain rfl | ⟨name, rfl⟩ := hleads
      · simp
      · have hstands : S.logic.Stands P (S.logic.enter (.breakpoint h name (.ofReport report))) :=
          .enter rfl
        simp [Action.dispatch, Action.Quiet, hstands]
    | resume | load | evaluate | listVariables | fetchVariable =>
      obtain rfl | ⟨c, -, rfl⟩ := hleads <;> simp [Action.Quiet]
    | contexts =>
      obtain rfl : todo = [.describe d.registered []] := hleads
      simp [Action.Quiet]
    | setVariable | reload | send =>
      obtain rfl : todo = [] := hleads
      simp
    | _ => cases hq.1
  | enter call =>
    have hstands : S.logic.Stands P (S.logic.enter call) := hq
    have hreload : S.logic.Stands P (S.logic.enter .reload) := .enter rfl
    obtain rfl | rfl := hleads <;> simp [Action.Quiet, hstands, hreload]
  | reloaded call =>
    have hstands : S.logic.Stands P (S.logic.enter call) := hq
    obtain rfl | rfl := hleads <;> simp [Action.Quiet, hstands]
  | logic p =>
    cases hstep : S.logic.step d.logic p last with
    | mk s move =>
      simp only [act, hstep] at hact
      cases move with
      | done r =>
        cases hact
        simp
      | use op q =>
        cases hact
        have hu : (S.logic.step d.logic p last).2 = .use op q := by rw [hstep]
        have hop : op.isRemote = true := hS.uses hlogic hq hu
        have hpassed : ∀ call, op.passedOn? = some call → S.logic.Stands P (S.logic.enter call) :=
          fun _ hcall => .passOn hq hlogic hu hcall
        have hstands : S.logic.Stands P q := .next hq hlogic hu
        simpa [Action.Quiet, hop, hstands] using hpassed
  | inspect c op =>
    simp only [act] at hact
    split at hact
    · rename_i x hx
      have hrunning : x.isPaused = false := hcalm x (List.mem_of_getElem? hx)
      rw [hrunning] at hact
      cases hact
      simp
    · cases hact
      simp
  | reportNotice | reportText =>
    obtain rfl | rfl := hleads <;> simp [Action.Quiet]
  | describe cs done =>
    cases cs with
    | nil =>
      obtain rfl : todo = [] := hleads
      simp
    | cons c cs => obtain rfl | ⟨state, rfl⟩ := hleads <;> simp [Action.Quiet]
  | describeLocation =>
    obtain ⟨done, rfl⟩ := hleads
    simp [Action.Quiet]
  | give | lock | unlock | reportHandled | sendFailure | resumeOne =>
    obtain rfl : todo = [] := hleads
    simp
  | _ => exact absurd hq id

/-! ## The lock comes back -/

theorem owes_replicate_unlock (k : Nat) :
    owes (List.replicate k (.unlock : Action S)) = some ⟨k, 0⟩ := by
  induction k with
  | zero => rfl
  | succ k ih =>
    rw [List.replicate_succ, owes_cons]
    exact ⟨_, ih, rfl⟩

/-- A thread that works owes the lock as often as it holds it, if it did so before. -/
theorem Reaches.owes {m : Debt} (hreach : Reaches t d x e y)
    (hm : ScriptDebug.owes x.agenda = some m) (hheld : m.holds = d.held t) :
    ∃ n, ScriptDebug.owes y.agenda = some n ∧ n.holds = e.held t := by
  induction hreach generalizing m with
  | refl => exact ⟨m, hm, hheld⟩
  | step hact _ ih =>
    obtain ⟨⟨n, hn, hholds⟩, -⟩ := act_owes hact hm hheld
    exact ih hn hholds

theorem dispatch_of_held {k : Nat} (h : d.held t = k + 1) : d.dispatch = some ⟨t, k⟩ := by
  unfold held at h
  split at h
  · rename_i hold hd
    obtain ⟨owner, again⟩ := hold
    dsimp only at h
    split at h
    · rename_i ho
      cases h
      rw [hd]
      exact congrArg (fun u => some (Hold.mk u _)) ho
    · cases h
  · cases h

/-- **A call of the client logic gives the lock back as it was**, however it ends. -/
theorem dispatch_of_works {p : S.logic.Point} (h : Works t d last [.logic p] e ans)
    (hholds : d.Holds t) :
    e.dispatch = d.dispatch := by
  obtain ⟨k, hk⟩ := Nat.exists_eq_add_one.2 hholds
  -- what the thread holds is given back behind the call
  have hreach := Reaches.append h (List.replicate (k + 1) .unlock)
  have howes : owes (.logic p :: List.replicate (k + 1) .unlock) = some ⟨k + 1, k + 1⟩ :=
    owes_cons.2 ⟨_, owes_replicate_unlock (k + 1), Debt.call_give (m := ⟨k, 0⟩)⟩
  obtain ⟨n, hn, hheld⟩ := hreach.owes howes hk.symm
  have hback : n = ⟨k + 1, 0⟩ := Option.some.inj (hn.symm.trans (owes_replicate_unlock (k + 1)))
  rw [hback] at hheld
  rw [dispatch_of_held hk, dispatch_of_held hheld.symm]

/-! ## What an operation leaves -/

/-- **Left with** a roster: the lock is as it was,
and the client logic in a state to be discreet. -/
structure LeftWith (P : S.logic.State → Prop) (d : Debugger S) (r : Roster S.host)
    (e : Debugger S) : Prop where
  roster : e.roster = r
  dispatch : e.dispatch = d.dispatch
  logic : P e.logic

theorem holds_locked (d : Debugger S) (t : ThreadId) : (d.locked t).Holds t := by
  simp [Holds, held, locked]

end Debugger

namespace Discreet

open Debugger

variable {d e : Debugger S} {t : ThreadId} {x y : Thread S} {last ans : Answer} {h : Handle}
  {name : String} {call : LogicCall} {r : Roster S.host}

/-- **The roster stays**, whatever a call of discreet client logic does. -/
theorem reaches (hS : Discreet S P) (hreach : Reaches t d x e y)
    (hquiet : ∀ a ∈ x.agenda, a.Quiet P) (hlogic : P d.logic) (hcalm : d.roster.Unpaused) :
    e.roster = d.roster ∧ P e.logic := by
  induction hreach with
  | refl => exact ⟨rfl, hlogic⟩
  | @step d d' e a rest todo last ans y hact _ ih =>
    obtain ⟨hq, hrest⟩ := List.forall_mem_cons.1 hquiet
    have hroster := roster_of_quiet hq hcalm hact
    have hlogic' : P d'.logic := by
      rcases act_logic hact with hsame | ⟨p, rfl, hmove⟩
      · rwa [hsame]
      · rw [hmove]
        exact hS.keeps last hlogic hq
    have htodo := quiet_of_quiet hS hq hlogic hcalm hact
    obtain ⟨hroster', hlogic''⟩ :=
      ih (List.forall_mem_append.2 ⟨htodo, hrest⟩) hlogic' (hroster ▸ hcalm)
    exact ⟨hroster'.trans hroster, hlogic''⟩

theorem works_logic (hS : Discreet S P) (hlogic : P d.logic) (hcalm : d.roster.Unpaused)
    (hholds : d.Holds t) (hcall : S.logic.Stands P (S.logic.enter call)) (last : Answer) :
    ∃ e r, Works t d last [.logic (S.logic.enter call)] e (.verdict r) ∧ LeftWith P d d.roster e ∧
      ∀ h name ev v, call = .breakpoint h name ev → r = .ok v → v.handled = true := by
  obtain ⟨e, r, hworks, hhandled⟩ := hS.ends d t last call hlogic hcalm hholds hcall
  have hquiet : ∀ a ∈ [Action.logic (S.logic.enter call)], a.Quiet P := by
    simp [Action.Quiet, hcall]
  obtain ⟨hroster, hkept⟩ := hS.reaches hworks hquiet hlogic hcalm
  exact ⟨e, r, hworks, ⟨hroster, dispatch_of_works hworks hholds, hkept⟩, hhandled⟩

/-! ## A call behind the lock -/

/-- **A call** behind the lock comes to a verdict, and leaves the roster and the lock as they are;
it does so too where the client logic does not load. -/
theorem works_call (hS : Discreet S P) (hlogic : P d.logic) (hcalm : d.roster.Unpaused)
    (hopen : d.Open t) (hcall : S.logic.Stands P (S.logic.enter call)) (last : Answer) :
    ∃ e r, Works t d last (Action.dispatch call) e (.verdict r) ∧ LeftWith P d d.roster e ∧
      ∀ h name ev v, call = .breakpoint h name ev → r = .ok v → v.handled = true := by
  -- the call itself, from any state behind the lock that is left so far
  have hbody : ∀ c last, LeftWith P (d.locked t) d.roster c →
      ∃ e r, Works t c last [.logic (S.logic.enter call), .unlock] e (.verdict r) ∧
        LeftWith P d d.roster e ∧ ∀ h name ev v, call = .breakpoint h name ev → r = .ok v →
        v.handled = true := by
    intro c last hc
    have hholds : c.Holds t := by
      unfold Holds held
      rw [hc.dispatch]
      exact holds_locked d t
    obtain ⟨e, r, hworks, he, hhandled⟩ :=
      hS.works_logic hc.logic (hc.roster ▸ hcalm) hholds hcall last
    exact ⟨_, r, hworks.append (works_unlock hopen (he.dispatch.trans hc.dispatch) _),
      ⟨he.roster.trans hc.roster, rfl, he.logic⟩, hhandled⟩
  cases hreload : d.reload with
  | false =>
    have hact : (d.locked t).act t last (.enter call) =
        some (d.locked t, [.logic (S.logic.enter call), .unlock], .none) := by
      simp only [act, locked, hreload]
      rfl
    obtain ⟨e, r, hworks, he, hhandled⟩ := hbody (d.locked t) .none ⟨rfl, rfl, hlogic⟩
    exact ⟨e, r, (works_lock hopen last).append (.of_act hact hworks), he, hhandled⟩
  | true =>
    have hact : (d.locked t).act t last (.enter call) =
        some ({ d.locked t with reload := false },
          [.logic (S.logic.enter .reload), .reloaded call], .none) := by
      simp only [act, locked, hreload]
      rfl
    have hreloads : S.logic.Stands P (S.logic.enter .reload) := .enter rfl
    obtain ⟨c, q, hload, hc, -⟩ :=
      hS.works_logic (d := { d.locked t with reload := false }) hlogic hcalm
      (holds_locked d t) hreloads .none
    cases q with
    | error f =>
      have hfail : Works t c (.verdict (.error f)) [.reloaded call]
          { c with reload := true, dispatch := d.dispatch } (.verdict (.error f)) :=
        .of_act rfl (works_unlock (e := { c with reload := true }) hopen hc.dispatch _)
      refine ⟨_, .error f, (works_lock hopen last).append (.of_act hact (hload.append hfail)),
        ⟨hc.roster, rfl, hc.logic⟩, ?_⟩
      rintro h name ev v rfl hv
      cases hv
    | ok v =>
      obtain ⟨e, r, hworks, he, hhandled⟩ := hbody c .none ⟨hc.roster, hc.dispatch, hc.logic⟩
      exact ⟨e, r,
        (works_lock hopen last).append (.of_act hact (hload.append (.of_act rfl hworks))), he,
        hhandled⟩

/-- **A notice** leaves the roster and the lock as they are, also when it fails. -/
theorem works_notice (hS : Discreet S P) (hlogic : P d.logic) (hcalm : d.roster.Unpaused)
    (hopen : d.Open t) (hcall : S.logic.Stands P (S.logic.enter call)) (last : Answer) :
    ∃ e, Works t d last (Action.dispatch call ++ [.reportNotice]) e .none ∧
      LeftWith P d d.roster e := by
  obtain ⟨e, r, hworks, he, -⟩ := hS.works_call hlogic hcalm hopen hcall last
  cases r with
  | ok v => exact ⟨e, hworks.append (works_act rfl), he⟩
  | error f =>
    have hreport : Works t e (.verdict (.error f)) [.reportNotice]
        { e with reload := true, sink := (S.sink.send e.sink failureNotice).1 } .none :=
      .of_act rfl (works_act rfl)
    exact ⟨_, hworks.append hreport, ⟨he.roster, he.dispatch, he.logic⟩⟩

/-! ## The operations of the registry -/

theorem works_start (hS : Discreet S P) (hlogic : P d.logic) (hcalm : d.roster.Unpaused)
    (hopen : d.Open t) (hfree : d.lookup h = none) (name : String) (last : Answer) :
    ∃ e, Works t d last [.begin (.start h name)] e (.flag true) ∧
      LeftWith P d (d.roster.enter h name) e := by
  let entered : Debugger S := { d with
    contexts := d.contexts ++ [{ handle := h, name }]
    registry := Ascending.put h d.contexts.length d.registry }
  have hact : d.act t last (.begin (.start h name)) = some (entered,
      Action.dispatch (.added h name) ++ [.reportNotice, .give (.flag true)], .none) := by
    simp only [act, beginOperation, hfree, entered]
  have hstands : S.logic.Stands P (S.logic.enter (.added h name)) := .enter rfl
  obtain ⟨e, hworks, he⟩ :=
    hS.works_notice (d := entered) (t := t) hlogic (hcalm.enter h name) hopen hstands .none
  have hgive : Works t e .none [.give (.flag true)] e (.flag true) := works_act rfl
  exact ⟨e, .of_act hact (hworks.append hgive), ⟨he.roster, he.dispatch, he.logic⟩⟩

theorem works_stop (hS : Discreet S P) (hlogic : P d.logic) (hcalm : d.roster.Unpaused)
    (hopen : d.Open t) (h : Handle) (last : Answer) :
    ∃ e, Works t d last [.begin (.stop h)] e (.flag true) ∧ LeftWith P d (d.roster.leave h) e := by
  cases hlookup : d.lookup h with
  | none =>
    have hact : d.act t last (.begin (.stop h)) = some (d, [], .flag true) := by
      simp only [act, beginOperation, hlookup]
    have hstay : d.roster.leave h = d.roster := by
      unfold Roster.leave
      rw [lookup_roster, hlookup]
    exact ⟨d, works_act hact, hstay.symm, rfl, hlogic⟩
  | some c =>
    let name := ((d.contexts[c]?).map (·.name)).getD ""
    let removed : Debugger S := { d with registry := Ascending.remove h d.registry }
    have hact : d.act t last (.begin (.stop h)) = some (removed,
        Action.dispatch (.removed h name) ++
        [.reportNotice, .close c, .give (.flag true)], .none) := by
      simp only [act, beginOperation, hlookup, name, removed]
    have hstands : S.logic.Stands P (S.logic.enter (.removed h name)) := .enter rfl
    obtain ⟨e, hworks, he⟩ :=
      hS.works_notice (d := removed) (t := t) hlogic hcalm hopen hstands .none
    have hcontexts : e.contexts = d.contexts := congrArg Roster.contexts he.roster
    have hclose : ∃ f, Works t e .none [.close c] f .none ∧ LeftWith P d (d.roster.leave h) f := by
      have hleave : d.roster.leave h =
          { e.roster with contexts := Roster.closing e.contexts c } := by
        unfold Roster.leave
        rw [lookup_roster, hlookup, he.roster, hcontexts]
        rfl
      cases hx : e.contexts[c]? with
      | none =>
        refine ⟨e, works_act (by simp only [act, hx]), ?_, he.dispatch, he.logic⟩
        rw [hleave]
        unfold Roster.closing
        rw [hx]
        rfl
      | some x =>
        refine ⟨e.setContext c x.close.1, works_act (by simp only [act, hx]), ?_,
          he.dispatch, he.logic⟩
        rw [hleave]
        unfold Roster.closing
        rw [hx]
        rfl
    obtain ⟨f, hclosed, hf⟩ := hclose
    have hgive : Works t f .none [.give (.flag true)] f (.flag true) := works_act rfl
    exact ⟨f, .of_act hact (hworks.append (hclosed.append hgive)), hf⟩

theorem works_attach (hS : Discreet S P) (hlogic : P d.logic) (hcalm : d.roster.Unpaused)
    (hopen : d.Open t) (h : Handle) (name : String) (last : Answer) :
    ∃ e, Works t d last [.begin (.attach h name)] e (d.roster.perform (.attach h name)).2 ∧
      LeftWith P d (d.roster.perform (.attach h name)).1 e := by
  cases hlookup : d.lookup h with
  | some c =>
    have hrefused : d.roster.perform (.attach h name) =
        (d.roster, .registered (.error (.alreadyAttached h))) := by
      simp only [Roster.perform, lookup_roster, hlookup]
    have hstart : d.act t .none (.begin (.start h name)) = some (d, [], .flag false) := by
      simp only [act, beginOperation, hlookup]
    rw [hrefused]
    exact ⟨d, .of_act rfl (.cons hstart (works_act rfl)), rfl, rfl, hlogic⟩
  | none =>
    obtain ⟨e, hworks, he⟩ := hS.works_start hlogic hcalm hopen hlookup name .none
    have hhost : e.host = d.host := congrArg Roster.host he.roster
    cases hinstall : S.host.installHook d.host h with
    | mk host result =>
      cases result with
      | ok u =>
        have hact : e.act t (.flag true) (.install h) =
            some ({ e with host }, [], .registered (.ok ())) := by
          simp only [act, hhost, hinstall]
        have hperformed : d.roster.perform (.attach h name) =
            ((d.roster.enter h name).withHost host, .registered (.ok ())) := by
          simp only [Roster.perform, lookup_roster, hlookup, host_roster, hinstall]
        rw [hperformed]
        refine ⟨{ e with host }, .of_act rfl (hworks.append (works_act hact)), ?_,
          he.dispatch, he.logic⟩
        rw [← he.roster]
        rfl
      | error f =>
        have hact : e.act t (.flag true) (.install h) = some ({ e with host },
            [.begin (.stop h), .give (.registered (.error (.hook f)))], .none) := by
          simp only [act, hhost, hinstall]
        have hperformed : d.roster.perform (.attach h name) =
            (((d.roster.enter h name).withHost host).leave h, .registered (.error (.hook f))) := by
          simp only [Roster.perform, lookup_roster, hlookup, host_roster, hinstall]
        have hentered : ({ e with host } : Debugger S).roster =
            (d.roster.enter h name).withHost host := by
          rw [← he.roster]
          rfl
        have hopen' : e.Open t := by
          intro hold hhold
          exact hopen hold (he.dispatch ▸ hhold)
        obtain ⟨f', hstop, hf⟩ := hS.works_stop (d := { e with host }) he.logic
          (hentered ▸ (hcalm.enter h name).withHost host) hopen' h .none
        rw [hperformed, ← hentered]
        exact ⟨f', .of_act rfl (hworks.append (.of_act hact (hstop.append (works_act rfl)))),
          ⟨hf.roster, hf.dispatch.trans he.dispatch, hf.logic⟩⟩

theorem works_detach (hS : Discreet S P) (hlogic : P d.logic) (hcalm : d.roster.Unpaused)
    (hopen : d.Open t) (h : Handle) (last : Answer) :
    ∃ e, Works t d last [.begin (.detach h)] e (d.roster.perform (.detach h)).2 ∧
      LeftWith P d (d.roster.perform (.detach h)).1 e := by
  cases hlookup : d.lookup h with
  | none =>
    have hact : d.act t last (.begin (.detach h)) =
        some (d, [], .registered (.error (.unknownContext h))) := by
      simp only [act, beginOperation, hlookup]
    simp only [Roster.perform, lookup_roster, hlookup]
    exact ⟨d, works_act hact, rfl, rfl, hlogic⟩
  | some c =>
    have hact : d.act t last (.begin (.detach h)) = some (d, [.uninstall h], .none) := by
      simp only [act, beginOperation, hlookup]
    simp only [Roster.perform, lookup_roster, hlookup]
    obtain ⟨e, hstop, he⟩ :=
      hS.works_stop (d := { d with host := (S.host.removeHook d.host h).1 }) (t := t) hlogic
      hcalm hopen h .none
    exact ⟨e, .of_act hact (.of_act rfl (hstop.append (works_act rfl))),
      ⟨he.roster, he.dispatch, he.logic⟩⟩

/-- **An event never pauses**, whether it is dealt with, or its call fails. -/
theorem works_hook (hS : Discreet S P) (hlogic : P d.logic) (hcalm : d.roster.Unpaused)
    (hopen : d.Open t) (h : Handle) (report : Hook.Report) (last : Answer) :
    ∃ e, Works t d last [.begin (.hook h report)] e .none ∧ LeftWith P d d.roster e := by
  have hstay : LeftWith P d d.roster d := ⟨rfl, rfl, hlogic⟩
  cases hlistening : d.listening with
  | false =>
    refine ⟨d, works_act ?_, hstay⟩
    simp only [act, beginOperation, hlistening]
    rfl
  | true =>
    have hbegin : d.act t last (.begin (.hook h report)) = some (d, [.locate h report], .none) := by
      simp only [act, beginOperation, hlistening]
      rfl
    cases hlookup : d.lookup h with
    | none =>
      have hact : d.act t .none (.locate h report) = some (d, [], .none) := by
        simp only [act, hlookup]
      exact ⟨d, .of_act hbegin (works_act hact), hstay⟩
    | some c =>
      let ev := Hook.Event.ofReport report
      cases hescalates : ev.escalates with
      | false =>
        have hact : d.act t .none (.locate h report) = some (d, [], .none) := by
          simp only [act, hlookup, ev] at hescalates ⊢
          rw [hescalates]
          rfl
        exact ⟨d, .of_act hbegin (works_act hact), hstay⟩
      | true =>
        let name := ((d.contexts[c]?).map (·.name)).getD ""
        have hact : d.act t .none (.locate h report) = some (d, .lock ::
            Action.dispatch (.breakpoint h name ev) ++ [.reportHandled, .decide c ev], .none) := by
          simp only [act, hlookup, ev] at hescalates ⊢
          rw [hescalates]
          rfl
        have hstands : S.logic.Stands P (S.logic.enter (.breakpoint h name ev)) := .enter rfl
        obtain ⟨e, r, hcall, he, hhandled⟩ :=
          hS.works_call (d := d.locked t) hlogic hcalm (open_locked d t) hstands .none
        have hdecide : ∃ f, Works t e (.verdict r) [.reportHandled, .decide c ev] f .none ∧
            LeftWith P d d.roster f := by
          cases r with
          | error f =>
            have hunlock : Works t { e with reload := true } .none [.unlock]
                { e with reload := true, dispatch := d.dispatch } .none :=
              works_unlock (e := { e with reload := true }) hopen he.dispatch .none
            exact ⟨_, .cons rfl (.of_act rfl hunlock), he.roster, rfl, he.logic⟩
          | ok v =>
            have hreport : e.act t (.verdict (.ok v)) .reportHandled =
                some (e, [], .handled (.ok true)) := by
              simp only [act, hhandled h name ev v rfl rfl]
            exact ⟨_, .cons hreport (.of_act rfl (works_unlock hopen he.dispatch .none)), he.roster,
              rfl, he.logic⟩
        obtain ⟨f, hdecided, hf⟩ := hdecide
        exact ⟨f, .of_act hbegin
          (.of_act hact ((works_lock hopen .none).append (hcall.append hdecided))), hf⟩

theorem works_resumeEach (hcalm : d.roster.Unpaused) (hopen : d.Open t)
    (cs : List ContextId) (n : Nat) (last : Answer) :
    Works t (d.locked t) last [.resumeEach cs n] d (.count n) := by
  induction cs generalizing last with
  | nil => exact .of_act rfl (works_unlock hopen rfl (.count n))
  | cons c cs ih =>
    refine .of_act ?_ (ih .none)
    cases hx : (d.locked t).contexts[c]? with
    | none => simp only [act, hx]
    | some x =>
      have hrunning : x.isPaused = false := hcalm x (List.mem_of_getElem? hx)
      have hsame : (d.locked t).setContext c x = d.locked t := by
        obtain ⟨hlt, rfl⟩ := List.getElem?_eq_some_iff.1 hx
        unfold setContext
        rw [List.set_getElem_self hlt]
      simp only [act, hx, Context.resume_of_running hrunning, hsame]
      rfl

/-- **The operations of the registry** lead to what becomes of the roster, with its answers. -/
theorem works_perform (hS : Discreet S P) (hlogic : P d.logic) (hcalm : d.roster.Unpaused)
    (hopen : d.Open t) {op : Operation} (hop : op.isRegistry = true) (last : Answer) :
    ∃ e, Works t d last [.begin op] e (d.roster.perform op).2 ∧
      LeftWith P d (d.roster.perform op).1 e := by
  cases op with
  | start h name =>
    cases hlookup : d.lookup h with
    | some c =>
      have hact : d.act t last (.begin (.start h name)) = some (d, [], .flag false) := by
        simp only [act, beginOperation, hlookup]
      simp only [Roster.perform, lookup_roster, hlookup]
      exact ⟨d, works_act hact, rfl, rfl, hlogic⟩
    | none =>
      simp only [Roster.perform, lookup_roster, hlookup]
      exact hS.works_start hlogic hcalm hopen hlookup name last
  | stop h => exact hS.works_stop hlogic hcalm hopen h last
  | attach h name => exact hS.works_attach hlogic hcalm hopen h name last
  | detach h => exact hS.works_detach hlogic hcalm hopen h last
  | hook h report => exact hS.works_hook hlogic hcalm hopen h report last
  | resumeAll =>
    exact ⟨d, .of_act rfl ((works_lock hopen .none).append (.of_act rfl
      (works_resumeEach hcalm hopen d.registered 0 .none))), rfl, rfl, hlogic⟩
  | contexts => exact ⟨d, .cons rfl (works_describe d.registered [] .none), rfl, rfl, hlogic⟩
  | _ => cases hop

end Discreet

namespace Debugger

variable {d : Debugger S}

/-- **Resting.** The lock is free, no context is paused,
and the client logic is in a state to be discreet. -/
structure Resting (P : S.logic.State → Prop) (d : Debugger S) : Prop where
  free : d.dispatch = none
  unpaused : d.roster.Unpaused
  logic : P d.logic

/-- **A course of operations of the registry** comes to its end, with the answers and the roster
that neither the client logic nor the sink has a part in. -/
theorem performs_roster (hS : Discreet S P) (hd : d.Resting P) (calls : List (ThreadId × Operation))
    (hcalls : ∀ call ∈ calls, call.1 < d.threads.length ∧ call.2.isRegistry = true) :
    ∃ e, d.Performs calls (d.roster.performAll (calls.map (·.2))).2 e ∧ e.Resting P ∧
      e.roster = (d.roster.performAll (calls.map (·.2))).1 := by
  induction calls generalizing d with
  | nil => exact ⟨d, .nil d, hd, rfl⟩
  | cons call calls ih =>
    obtain ⟨t, op⟩ := call
    obtain ⟨⟨hthread, hop⟩, hcalls⟩ := List.forall_mem_cons.1 hcalls
    obtain ⟨e, hworks, he⟩ :=
      hS.works_perform (t := t) hd.logic hd.unpaused (open_of_free hd.free) hop .none
    have hlength : (e.setThread t ⟨[], (d.roster.perform op).2⟩).threads.length =
        d.threads.length := by
      show (e.threads.set t _).length = _
      rw [List.length_set, hworks.threads]
    have hroster : (e.setThread t ⟨[], (d.roster.perform op).2⟩).roster = (d.roster.perform op).1 :=
      he.roster
    have hrest : (e.setThread t ⟨[], (d.roster.perform op).2⟩).Resting P :=
      ⟨he.dispatch.trans hd.free, hroster ▸ hd.unpaused.perform op, he.logic⟩
    obtain ⟨f, hperforms, hf, hend⟩ := ih hrest (fun call hcall => hlength ▸ hcalls call hcall)
    rw [hroster] at hperforms hend
    exact ⟨f, .cons hthread (hworks.finishes hthread) hperforms, hf, hend⟩

end Debugger

end ScriptDebug
