import ScriptDebug.Proofs.Access
import ScriptDebug.Proofs.Hit
import ScriptDebug.Proofs.Listening

/-!
# Stragglers

A hook event looks once whether the server listens, and pauses its context later. The visit of a
lost client turns listening off and then resumes every registered context, in two steps; so a hook
event that has looked before may pause its context behind both, with no client left to resume it.
Where there is no client, such stragglers (`Strayed`) are what is paused, but for the contexts that
are being taken out (`Leaving`): all that is paused while the server listens is resumed by the sweep
at the end of the visit (`Covered`).
-/

namespace ScriptDebug

/-- Whether an action belongs to a hook event that has looked whether the server listens. -/
def Action.hasLooked {S : Setup} : Action S → Bool
  | .locate .. | .decide .. => true
  | _ => false

namespace Debugger

variable {S : Setup} {d d' : Debugger S} {t : ThreadId} {last ans : Answer} {a b : Action S}
  {rest todo : List (Action S)} {c : ContextId}

theorem Leads.hasLooked (h : d.Leads a todo) (hb : b ∈ todo) (hl : b.hasLooked = true) :
    a.hasLooked = true ∨ ∃ x r, a = .begin (.hook x r) := by
  cases a with
  | begin op =>
    cases op with
    | hook x r => exact .inr ⟨x, r, rfl⟩
    | _ => exfalso; grind [Leads, OperationLeads, Action.dispatch, Action.hasLooked]
  | locate => exact .inl rfl
  | resumeEach cs n => cases cs <;> exfalso <;> grind [Leads, Action.hasLooked]
  | describe cs done => cases cs <;> exfalso <;> grind [Leads, Action.hasLooked]
  | inspect k op => cases op <;> exfalso <;> grind [Leads, Operation.look, Action.hasLooked]
  | _ => exfalso; grind [Leads, Action.hasLooked]

theorem listening_of_hook {x : Handle} {r : Hook.Report}
    (h : d.act t last (.begin (.hook x r)) = some (d', todo, ans)) (hb : b ∈ todo) :
    d.listening = true := by
  simp only [act, beginOperation] at h
  split at h
  · assumption
  · cases h
    cases hb

/-! ## Sweeps -/

/-- **Sweep.** What a thread has to do that is to resume a registered context, among all. -/
inductive Sweeping (c : ContextId) : List (Action S) → Prop
  | begun : Sweeping c [.begin .resumeAll]
  | locking : Sweeping c [.lock, .sweep]
  | reading : Sweeping c [.sweep]
  | each {cs : List ContextId} {n : Nat} (h : c ∈ cs) : Sweeping c [.resumeEach cs n]

theorem Sweeping.ne_nil {as : List (Action S)} (h : Sweeping c as) : as ≠ [] := by
  cases h <;> simp

theorem Sweeping.act (h : Sweeping c (a :: rest)) (hact : d.act t last a = some (d', todo, ans))
    (hreg : c ∈ d.registered) {x y : Context} (hx : d.contexts[c]? = some x)
    (hy : d'.contexts[c]? = some y) (hp : y.isPaused = true) : Sweeping c (todo ++ rest) := by
  cases h with
  | begun =>
    cases hact
    exact .locking
  | locking =>
    obtain rfl : todo = [] := act_leads hact
    exact .reading
  | reading =>
    cases hact
    exact .each hreg
  | @each cs n hmem =>
    cases cs with
    | nil => exact absurd hmem List.not_mem_nil
    | cons k cs =>
      have hk : k ≠ c := by
        rintro rfl
        simp only [Debugger.act, hx] at hact
        cases hact
        rw [getElem?_setContext, if_pos rfl, hx] at hy
        cases hy
        rw [Context.isPaused_resume] at hp
        cases hp
      obtain ⟨n', rfl⟩ := act_leads hact
      exact .each ((List.mem_cons.1 hmem).resolve_left (Ne.symm hk))

end Debugger

namespace Server

open Debugger (Sweeping)

variable {host : Host} {logic : Logic} {s s' : Server host logic} {es pre post : List Event}
  {e : Event} {c : ContextId} {k : ConnectionId} {v : Visit} {t : ThreadId} {st : Option Store}

/-- Whether a context is paused. -/
def Paused (s : Server host logic) (c : ContextId) : Prop :=
  ∃ x, s.debugger.contexts[c]? = some x ∧ x.isPaused = true

/-- **Leaving.** A context that is paused and out of the registry,
and that a thread is about to close. -/
def Leaving (s : Server host logic) (c : ContextId) : Prop :=
  s.Paused c ∧ c ∉ s.debugger.registered ∧ ∃ t, .close c ∈ (s.debugger.thread t).agenda

/-- **Covered.** There is a visit that is resuming the contexts and will come to this one. -/
def Covered (s : Server host logic) (c : ContextId) : Prop :=
  ∃ (k : ConnectionId) (v : Visit) (t : ThreadId), s.visits[k]? = some v ∧ v.stage = .sweep ∧
    v.thread = some t ∧ Sweeping c (s.debugger.thread t).agenda

theorem Paused.lt_length (h : s.Paused c) : c < s.debugger.contexts.length := by
  obtain ⟨x, hx, -⟩ := h
  exact (List.getElem?_eq_some_iff.1 hx).1

theorem Moves.sweeps (hm : Moves s e st s') (hv : s.visits[k]? = some v) (hst : v.stage = .sweep)
    (ht : v.thread = some t) (hag : (s.debugger.thread t).agenda ≠ []) :
    s'.visits[k]? = some v := by
  have hother : ∀ {m : ConnectionId} {w : Visit} {f : Visit → Visit}, s.visits[m]? = some w →
      w.stage ≠ .sweep → s'.visits = s.visits.modify m f → s'.visits[k]? = some v := by
    intro m w f hw hne hvisits
    have hkm : k ≠ m := by
      rintro rfl
      obtain rfl : v = w := Option.some.inj (hv.symm.trans hw)
      exact hne hst
    rw [hvisits]
    exact (modify_ne hkm).trans hv
  cases hm with
  | stay | drop | closing | close | turn => exact hv
  | accept x hgate hfree =>
    exact (List.getElem?_append_left (List.getElem?_eq_some_iff.1 hv).1).trans hv
  | finish b hw hidle =>
    refine (modify_ne ?_).trans hv
    rintro rfl
    obtain rfl := Option.some.inj (hv.symm.trans hw)
    obtain rfl := Option.some.inj ht
    exact hag (isIdle_iff.1 hidle)
  | claim b hw | refuse b hw | listen b hw | spawn hw | fail hw | pass b text slot hw
  | lose b slot hw | answered b hw | release b hw | shut b hw | quiet b hw =>
    exact hother hw (by simp) rfl

theorem Covered.moves (hcov : s.Covered c) (hs : s.Staffed) (hm : Moves s e st s')
    (hreg : c ∈ s.debugger.registered) (hp : s.Paused c) (hp' : s'.Paused c) : s'.Covered c := by
  obtain ⟨k, v, t, hv, hst, ht, hsw⟩ := hcov
  refine ⟨k, v, t, hm.sweeps hv hst ht hsw.ne_nil, hst, ht, ?_⟩
  rcases hm.agenda t with hag | ⟨op, hspare, -⟩ | ⟨-, hstep⟩
  · rw [hag]
    exact hsw
  · exact absurd (hs.agenda_of_spare hspare) hsw.ne_nil
  · obtain ⟨a, rest, d, todo, ans, hag, hact, heq, hself, -⟩ := Debugger.step_cases hstep
    obtain ⟨x, hx, -⟩ := hp
    obtain ⟨y, hy, hyp⟩ := hp'
    rw [hag] at hsw
    rw [hself]
    rw [heq] at hy
    exact hsw.act hact hreg hx hy hyp

theorem Moves.covered_of_silenced (hm : Moves s e st s') (hs : s.Staffed) (hu : s.debugger.Unset)
    (hon : s.debugger.listening = true) (hoff : s'.debugger.listening = false) (c : ContextId) :
    s'.Covered c := by
  cases hm with
  | @quiet k t b hv =>
    have hth : (((s.setListening s.breakWithoutClient).callOn t .resumeAll).goTo k
        .sweep).debugger.thread t = { agenda := [.begin .resumeAll] } :=
      Debugger.thread_call_self (hs.hired k _ t hv rfl) .resumeAll
    refine ⟨k, _, t, modify_self hv, rfl, rfl, ?_⟩
    rw [hth]
    exact .begun
  | listen => cases hoff
  | turn turn _ =>
    rw [hu.listening_take turn, hon] at hoff
    cases hoff
  | _ => exact absurd (hon.symm.trans hoff) (by simp)

/-- A context that is not registered, and yet paused, is leaving. -/
theorem Paused.leaving (h : s.Paused c) (hd : s.debugger.Orderly) (he : s.debugger.Enrolled)
    (hc : c ∉ s.debugger.registered) : s.Leaving c := by
  obtain ⟨x, hx, hp⟩ := h
  exact ⟨⟨x, hx, hp⟩, hc, he.closing hd hx hp hc⟩

/-! ## Contexts that nobody will resume -/

/-- **Looked.** A thread had a hook event find the server listening. -/
def Looked (s : Server host logic) (es : List Event) (t : ThreadId) : Prop :=
  ∃ pre post h r rest, es = pre ++ .turn (.step t) :: post ∧
    (s.run pre).debugger.listening = true ∧
    ((s.run pre).debugger.thread t).agenda = .begin (.hook h r) :: rest

theorem Looked.concat (h : s.Looked es t) (e : Event) : s.Looked (es ++ [e]) t := by
  obtain ⟨pre, post, x, r, rest, rfl, hon, hag⟩ := h
  exact ⟨pre, post ++ [e], x, r, rest, by rw [List.append_assoc, List.cons_append], hon, hag⟩

/-- **Straggler.** A context that a hook event paused while the server did not listen, though the
event had found it listening, and that is paused since. -/
def Strayed (s : Server host logic) (es : List Event) (c : ContextId) : Prop :=
  ∃ pre t post ev rest, es = pre ++ .turn (.step t) :: post ∧ s.Looked pre t ∧
    (s.run pre).debugger.listening = false ∧
    ((s.run pre).debugger.thread t).agenda = .decide c ev :: rest ∧ ¬ (s.run pre).Paused c ∧
    ∀ mid, mid <+: post → (s.run (pre ++ .turn (.step t) :: mid)).Paused c

theorem Strayed.paused (h : s.Strayed es c) : (s.run es).Paused c := by
  obtain ⟨pre, t, post, ev, rest, rfl, -, -, -, -, hall⟩ := h
  exact hall post (List.prefix_refl post)

theorem Strayed.concat (h : s.Strayed es c) (hp : (s.run (es ++ [e])).Paused c) :
    s.Strayed (es ++ [e]) c := by
  obtain ⟨pre, t, post, ev, rest, rfl, hlook, hoff, hag, hnot, hall⟩ := h
  refine ⟨pre, t, post ++ [e], ev, rest, by rw [List.append_assoc, List.cons_append],
    hlook, hoff, hag, hnot, fun mid hmid => ?_⟩
  rcases List.prefix_concat_iff.1 hmid with rfl | hmid
  · rw [List.append_assoc, List.cons_append] at hp
    exact hp
  · exact hall mid hmid

/-- **Hooked.** Nobody but the server sets whether hook events are looked at, and contexts are
paused by hook events only. -/
structure Hooked (logic : Logic) (es : List Event) : Prop extends Undisturbed logic es where
  pauses : ∀ t h r, .turn (.call t (.pause h r)) ∉ es
  asks : ∀ st p last h r next, (logic.step st p last).2 ≠ .use (.pause h r) next

/-- **Vetted.** What is under way has looked, if it may pause a context. -/
def Vetted (s : Server host logic) (es : List Event) (s' : Server host logic) : Prop :=
  ∀ t, ∀ a ∈ (s'.debugger.thread t).agenda,
    Debugger.pausesOutside a = false ∧ (a.hasLooked = true → s.Looked es t)

theorem Vetted.concat (hv : s.Vetted es (s.run es))
    (hcall : ∀ t h r, e ≠ .turn (.call t (.pause h r)))
    (hasks : ∀ st p last h r next, (logic.step st p last).2 ≠ .use (.pause h r) next)
    (hm : Moves (s.run es) e st s') : s.Vetted (es ++ [e]) s' := by
  intro t a ha
  have hkeep : a ∈ ((s.run es).debugger.thread t).agenda →
      Debugger.pausesOutside a = false ∧ (a.hasLooked = true → s.Looked (es ++ [e]) t) :=
    fun hmem => ⟨(hv t a hmem).1, fun hl => ((hv t a hmem).2 hl).concat e⟩
  rcases hm.agenda t with hag | ⟨op, -, hag, hop⟩ | ⟨rfl, hstep⟩
  · exact hkeep (hag ▸ ha)
  · rw [hag] at ha
    obtain rfl := List.mem_singleton.1 ha
    refine ⟨?_, fun hl => nomatch hl⟩
    cases op with
    | pause h r =>
      rcases hop with ⟨text, hop⟩ | hop | hop
      · cases hop
      · cases hop
      · exact absurd hop (hcall t h r)
    | _ => rfl
  · obtain ⟨b, rest, d, todo, ans, hag, hact, -, hself, -⟩ := Debugger.step_cases hstep
    rw [hself] at ha
    rcases List.mem_append.1 ha with ha | ha
    · have hb := hv t b (by rw [hag]; exact List.mem_cons_self)
      have hleads := Debugger.act_leads hact
      refine ⟨hleads.pausesOutside hasks hb.1 a ha, fun hl => ?_⟩
      rcases hleads.hasLooked ha hl with hbl | ⟨h, r, rfl⟩
      · exact (hb.2 hbl).concat _
      · exact ⟨es, [], h, r, rest, rfl, Debugger.listening_of_hook hact ha, hag⟩
    · exact hkeep (by rw [hag]; exact List.mem_cons_of_mem _ ha)

/-- A context comes to be paused by the decision about a hook event. -/
theorem Vetted.decides (hv : s.Vetted es (s.run es)) (hm : Moves (s.run es) e st s')
    (hp : ¬ (s.run es).Paused c) (hp' : s'.Paused c) : ∃ t ev rest, e = .turn (.step t) ∧
      ((s.run es).debugger.thread t).agenda = .decide c ev :: rest ∧ s.Looked es t := by
  obtain ⟨y, hy, hyp⟩ := hp'
  rcases hm.contexts with ⟨-, hctx, -⟩ | ⟨turn, rfl, hd⟩ | rfl
  · exact absurd ⟨y, by rw [← hctx]; exact hy, hyp⟩ hp
  · rw [hd] at hy
    rcases Debugger.take_cases (s.run es).debugger turn with h | ⟨t, d', rfl, hs, h⟩ |
      ⟨t, op, -, -, -, h⟩ | ⟨t, k, x, -, hx, h⟩ <;> rw [h] at hy
    · exact absurd ⟨y, hy, hyp⟩ hp
    · obtain ⟨a, rest, d, todo, ans, hag, hact, rfl, -⟩ := Debugger.step_cases hs
      have hmem : a ∈ ((s.run es).debugger.thread t).agenda := by
        rw [hag]
        exact List.mem_cons_self
      rcases Debugger.isPaused_of_act hact hy hyp with ⟨x, hx, -, hxp⟩ | ⟨ev, rfl, -⟩ | ⟨ev, rfl⟩
      · exact absurd ⟨x, hx, hxp⟩ hp
      · exact ⟨t, ev, rest, rfl, hag, (hv t _ hmem).2 rfl⟩
      · exact absurd (hv t _ hmem).1 (by simp [Debugger.pausesOutside])
    · exact absurd ⟨y, hy, hyp⟩ hp
    · obtain ⟨z, hz, hcase⟩ := Debugger.context_of_wake hx hy
      have hzp : z.isPaused = true := by rcases hcase with rfl | rfl <;> exact hyp
      exact absurd ⟨z, hz, hzp⟩ hp
  · exact absurd ⟨y, hy, hyp⟩ hp

/-- **Accounted.** What a run says of the contexts that are paused at its end. -/
structure Accounted (s : Server host logic) (es : List Event) (s' : Server host logic) : Prop where
  heard : s'.Heard (s.lastStore es)
  staffed : s'.Staffed
  orderly : s'.debugger.Orderly
  enrolled : s'.debugger.Enrolled
  vetted : s.Vetted es s'
  paused : ∀ c ∈ s'.debugger.registered, s'.Paused c →
    s.Strayed es c ∨ s'.debugger.listening = true ∨ s'.Covered c

theorem Initial.accounted (h : s.Initial) (hd : s.debugger.Initial) : s.Accounted [] s where
  heard := h.heard
  staffed := h.staffed
  orderly := hd.orderly
  enrolled := hd.enrolled
  vetted t a ha := by
    rw [hd.idle t] at ha
    cases ha
  paused c hc := by
    obtain ⟨x, hx⟩ := Debugger.mem_registered.1 hc
    rw [hd.registry] at hx
    cases hx

theorem Accounted.enroll (h : s.Accounted es s') {s'' : Server host logic}
    (hm : Moves s' e st s'') :
    s''.debugger.Orderly ∧ s''.debugger.Enrolled := by
  rcases hm.contexts with ⟨hne, hctx, hreg⟩ | ⟨turn, -, hturn⟩ | rfl
  · have hclose : ∀ t c, .close c ∈ (s''.debugger.thread t).agenda ↔
        .close c ∈ (s'.debugger.thread t).agenda := by
      intro t c
      rcases hm.agenda t with hag | ⟨op, hspare, hag, -⟩ | ⟨he, -⟩
      · rw [hag]
      · rw [hag, h.staffed.agenda_of_spare hspare]
        simp
      · exact absurd he (hne _)
    exact ⟨h.orderly.congr hreg hctx fun t c => (hclose t c).1,
      h.enrolled.congr hreg hctx fun t c => (hclose t c).2⟩
  · rw [hturn]
    exact ⟨h.orderly.take turn, h.enrolled.take h.orderly turn⟩
  · exact ⟨h.orderly, h.enrolled⟩

theorem Moves.registered (hm : Moves s e st s') (hlt : c < s.debugger.contexts.length)
    (hc : c ∈ s'.debugger.registered) : c ∈ s.debugger.registered := by
  rcases hm.contexts with ⟨-, -, hreg⟩ | ⟨turn, -, hturn⟩ | rfl
  · unfold Debugger.registered at hc
    rw [hreg] at hc
    exact hc
  · rw [hturn] at hc
    exact Debugger.registered_of_take hlt hc
  · exact hc

theorem Accounted.concat (h : s.Accounted es (s.run es)) (hu : Undisturbed logic [e])
    (hcall : ∀ t h r, e ≠ .turn (.call t (.pause h r)))
    (hasks : ∀ st p last h r next, (logic.step st p last).2 ≠ .use (.pause h r) next) :
    s.Accounted (es ++ [e]) (s.run (es ++ [e])) := by
  have hm : Moves (s.run es) e ((s.run es).store? e) (s.run (es ++ [e])) := by
    rw [run_concat]
    exact step_moves (s.run es) e
  have hev : ∀ t on, e ≠ .turn (.call t (.setListening on)) := by
    rintro t on rfl
    exact hu.calls t on List.mem_cons_self
  have hheard : (s.run (es ++ [e])).Heard (s.lastStore (es ++ [e])) := by
    rw [lastStore_concat]
    exact h.heard.moves hu.uses hev hm
  obtain ⟨hord, henr⟩ := h.enroll hm
  refine ⟨hheard, h.staffed.moves hm, hord, henr, h.vetted.concat hcall hasks hm,
    fun c hreg hp => ?_⟩
  -- if the server stops listening, it sweeps
  have hsilenced : (s.run es).debugger.listening = true →
      (s.run (es ++ [e])).debugger.listening = true ∨ (s.run (es ++ [e])).Covered c := by
    intro hon
    cases hoff : (s.run (es ++ [e])).debugger.listening with
    | true => exact .inl rfl
    | false => exact .inr (hm.covered_of_silenced h.staffed h.heard.unset hon hoff c)
  by_cases hbefore : (s.run es).Paused c
  · have hregb := hm.registered hbefore.lt_length hreg
    rcases h.paused c hregb hbefore with hst | hon | hcov
    · exact .inl (hst.concat hp)
    · exact .inr (hsilenced hon)
    · exact .inr (.inr (hcov.moves h.staffed hm hregb hbefore hp))
  · cases hon : (s.run es).debugger.listening with
    | true => exact .inr (hsilenced hon)
    | false =>
      obtain ⟨t, ev, rest, rfl, hag, hlook⟩ := h.vetted.decides hm hbefore hp
      refine .inl ⟨es, t, [], ev, rest, rfl, hlook, hon, hag, hbefore, fun mid hmid => ?_⟩
      rw [List.prefix_nil.1 hmid]
      exact hp

theorem Initial.accounted_run (h : s.Initial) (hd : s.debugger.Initial) (hh : Hooked logic es) :
    s.Accounted es (s.run es) := by
  refine run_invariant (P := fun es s' => s.Accounted es s') (h.accounted hd)
    fun pre e _ he hacc => ?_
  rw [← run_concat]
  refine hacc.concat (hh.toUndisturbed.mono fun a ha => ?_) (fun t x r heq => ?_) hh.asks
  · rw [List.mem_singleton.1 ha]
    exact he
  · exact hh.pauses t x r (heq ▸ he)

/-- **Stragglers.** Where there is no client and none is let in or dealt with, what is paused are
the stragglers, and what a thread is about to close. -/
theorem paused_iff_strayed (h : s.Initial) (hd : s.debugger.Initial) (hh : Hooked logic es)
    (hspawn : ∀ c, .advance c false ∉ es) (hstop : .stop ∉ es)
    (hfree : (s.run es).holder = none) (hadm : (s.run es).isAdmitting = false)
    (htear : (s.run es).isTearingDown = false) (c : ContextId) :
    (s.run es).Paused c ↔ s.Strayed es c ∨ (s.run es).Leaving c := by
  have hacc := h.accounted_run hd hh
  have hoff := h.silent_of_unheld hh.toUndisturbed hspawn hstop hfree hadm htear
  constructor
  · intro hp
    by_cases hreg : c ∈ (s.run es).debugger.registered
    · rcases hacc.paused c hreg hp with hst | hon | ⟨k, v, t, hv, hst, -⟩
      · exact .inl hst
      · rw [hoff] at hon
        cases hon
      · have hdown := tearing_eq_false.1 htear k v hv
        rw [hst] at hdown
        cases hdown
    · exact .inr (hp.leaving hacc.orderly hacc.enrolled hreg)
  · rintro (hst | hleave)
    · exact hst.paused
    · exact hleave.1

end Server

namespace Rehearsal

open Server (Event Hooked)

/-- A server that waits for its first client, with a thread for scripts and a
breakpoint at the function `f`. -/
def armedServer : Server host Protocol.logic where
  debugger :=
    { host := ({} : PlannedHost), logic := { functions := ["f"] }, sink := ({} : Server.Slot),
      threads := [{}], listening := false }

theorem armedServer_fresh : armedServer.debugger.Initial where
  registry := rfl
  contexts := rfl
  dispatch := rfl
  idle
    | 0 => rfl
    | t + 1 => by simp [armedServer, Debugger.thread]

theorem armedServer_initial : armedServer.Initial where
  visits := rfl
  gate := rfl
  holder := rfl
  silent := rfl
  policy := rfl
  unset t on hmem := by
    rw [armedServer_fresh.idle t] at hmem
    cases hmem

/-- A script is registered, a client comes, and the script calls `f` and looks whether the server
listens; then the client is lost and everything is resumed, and after that the script goes on. -/
def straggling : List Event :=
  .turn (.call 0 (.start ⟨1⟩ "a")) :: .replicate 11 (.turn (.step 0)) ++
  .accept {} :: .replicate 3 (.advance 0 true) ++
  .turn (.call 0 (.hook ⟨1⟩ callOfF)) :: .turn (.step 0) :: .replicate 4 (.advance 0 true) ++
  .replicate 6 (.turn (.step 1)) ++ .advance 0 true :: .replicate 10 (.turn (.step 0))

theorem straggling_hooked : Hooked Protocol.logic straggling where
  calls t on := by simp [straggling]
  uses st p last on next hu := by
    rcases Protocol.step_use hu with ⟨text, v, hop, -⟩ | ⟨hop, -⟩
    · cases hop
    · exact absurd hop (by simp [Operation.isAsked])
  pauses t h r := by simp [straggling]
  asks st p last h r next hu := by
    rcases Protocol.step_use hu with ⟨text, v, hop, -⟩ | ⟨hop, -⟩
    · cases hop
    · exact absurd hop (by simp [Operation.isAsked])

theorem straggling_paused : (armedServer.run straggling).Paused 0 := by
  have h : ((armedServer.run straggling).debugger.contexts[0]?).map (·.isPaused) = some true := by
    decide +kernel
  exact Option.map_eq_some_iff.1 h

/-- **Counterexample.** A lost client may leave a context parked, though every client got its thread
and the server was not told to stop. -/
theorem client_leaves_parked : ¬ ∀ es, Hooked Protocol.logic es → (∀ c, .advance c false ∉ es) →
    .stop ∉ es → (armedServer.run es).holder = none → (armedServer.run es).isAdmitting = false →
    (armedServer.run es).isTearingDown = false → ∀ c, ¬ (armedServer.run es).Paused c := by
  intro h
  exact h straggling straggling_hooked (by simp [straggling]) (by simp [straggling])
    (by decide +kernel) (by decide +kernel) (by decide +kernel) 0 straggling_paused

theorem straggling_strayed : armedServer.Strayed straggling 0 :=
  ((Server.paused_iff_strayed armedServer_initial armedServer_fresh straggling_hooked
    (by simp [straggling]) (by simp [straggling]) (by decide +kernel) (by decide +kernel)
    (by decide +kernel) 0).1 straggling_paused).resolve_right
      fun h => h.2.1 (by decide +kernel)

end Rehearsal

end ScriptDebug
