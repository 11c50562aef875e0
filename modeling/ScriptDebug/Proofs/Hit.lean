import ScriptDebug.Proofs.Handler

/-!
# Hits

A hit is a hook event on its way from the lookup of its context to the decision whether the context
pauses. `Stage` lists the stages between: the thread waits for the lock, enters the client logic,
which may load anew and may tell the client, and leaves it with a verdict. Where the sink accepts
every message, a hit decides to pause exactly if the client was told.
-/

namespace ScriptDebug

variable {host : Host} {sink : Sink}

/-- Whether an action has to do with the decision about an event. -/
def Action.isHit : Action (Protocol.setup host sink) → Bool
  | .locate .. | .decide .. | .begin (.breakpoint ..) | .enter (.breakpoint ..)
  | .reloaded (.breakpoint ..) | .logic (.called (.breakpoint ..)) => true
  | _ => false

/-- **Stage** of a hit: what is left to do before the decision, the last answer,
and whether the client was told. -/
inductive Stage (h : Handle) (name : String) (e : Hook.Event) :
    List (Action (Protocol.setup host sink)) → Answer → Bool → Prop
  | queued (ans : Answer) :
    Stage h name e [.lock, .lock, .enter (.breakpoint h name e), .reportHandled] ans false
  | locked (ans : Answer) :
    Stage h name e [.lock, .enter (.breakpoint h name e), .reportHandled] ans false
  | entering (ans : Answer) :
      Stage h name e [.enter (.breakpoint h name e), .reportHandled] ans false
  | reloading (ans : Answer) :
    Stage h name e [.logic (Protocol.Point.called .reload), .reloaded (.breakpoint h name e),
      .reportHandled] ans false
  | reloaded (v : Verdict) :
    Stage h name e [.reloaded (.breakpoint h name e), .reportHandled] (.verdict (.ok v)) false
  | asked (ans : Answer) :
    Stage h name e [.logic (Protocol.Point.called (.breakpoint h name e)), .unlock, .reportHandled]
      ans false
  | telling (b : Breakpoint) (text : String) (ans : Answer)
      (htext : text = (Protocol.Notice.paused h name b e).json.text) :
    Stage h name e [.begin (.send text), .logic (Protocol.Point.sending { handled := false }),
      .unlock, .reportHandled] ans false
  | told :
    Stage h name e [.logic (Protocol.Point.sending { handled := false }), .unlock, .reportHandled]
      (.sent (.ok ())) true
  | judged (v : Verdict) :
    Stage h name e [.unlock, .reportHandled] (.verdict (.ok v)) (!v.handled)
  | reporting (v : Verdict) : Stage h name e [.reportHandled] (.verdict (.ok v)) (!v.handled)
  | deciding (b : Bool) : Stage h name e [] (.handled (.ok b)) (!b)

namespace Stage

variable {h h' : Handle} {name name' : String} {e e' : Hook.Event}
  {stage more todo : List (Action (Protocol.setup host sink))} {last ans : Answer}
  {told told' : Bool} {d d' : Debugger (Protocol.setup host sink)} {t : ThreadId}
  {a : Action (Protocol.setup host sink)}

theorem told_eq (hs : Stage h name e stage ans told) (hs' : Stage h' name' e' stage ans told') :
    told = told' := by
  cases hs <;> cases hs' <;> rfl

theorem decide_not_mem (hs : Stage h name e stage ans told) (c : ContextId) (ev : Hook.Event) :
    .decide c ev ∉ stage := by
  cases hs <;> simp

theorem lock_not_mem (hs : Stage h name e stage ans told) (htold : told = true) :
    .lock ∉ stage := by
  cases hs <;> simp at htold ⊢

/-- **Progress of a hit.** An action of a stage leads to the next stage; the client was told before,
or is told by it. -/
theorem act (hs : Stage h name e (a :: more) last told)
    (hok : ∀ s text, (sink.send s text).2 = .ok ())
    (hact : d.act t last a = some (d', todo, ans)) :
    ∃ told', Stage h name e (todo ++ more) ans told' ∧
      (told' = true ↔ told = true ∨ ∃ text, a = .begin (.send text)) := by
  cases hs with
  | queued =>
    obtain rfl : todo = [] := Debugger.act_leads hact
    exact ⟨false, .locked ans, by simp⟩
  | locked =>
    obtain rfl : todo = [] := Debugger.act_leads hact
    exact ⟨false, .entering ans, by simp⟩
  | entering =>
    simp only [Debugger.act] at hact
    split at hact
    · cases hact
      exact ⟨false, .reloading _, by simp⟩
    · cases hact
      exact ⟨false, .asked _, by simp⟩
  | reloading =>
    cases hact
    exact ⟨false, .reloaded {}, by simp⟩
  | reloaded v =>
    cases hact
    exact ⟨false, .asked _, by simp⟩
  | asked =>
    simp only [Debugger.act, Protocol.logic, Protocol.step, Protocol.enter] at hact
    split at hact
    · rename_i hmove
      split at hmove
      · cases hmove
      · cases hmove
        cases hact
        exact ⟨false, .telling _ _ _ rfl, by simp⟩
    · rename_i hmove
      split at hmove
      · cases hmove
        cases hact
        exact ⟨false, .judged { handled := true }, by simp⟩
      · cases hmove
  | telling b text ans htext =>
    cases hact
    refine ⟨true, ?_, by simp⟩
    rw [hok]
    exact .told
  | told =>
    cases hact
    exact ⟨true, .judged { handled := false }, by simp⟩
  | judged v =>
    obtain rfl : todo = [] := Debugger.act_leads hact
    have hans : ans = .verdict (.ok v) := by
      simp only [Debugger.act] at hact
      split at hact <;> cases hact <;> rfl
    rw [hans]
    exact ⟨!v.handled, .reporting v, by simp⟩
  | reporting v =>
    cases hact
    exact ⟨!v.handled, .deciding v.handled, by simp⟩

end Stage

namespace Debugger

variable {d d' e : Debugger (Protocol.setup host sink)} {f : Handle → ThreadId} {t : ThreadId}
  {x : Thread (Protocol.setup host sink)} {a b : Action (Protocol.setup host sink)}
  {rest todo : List (Action (Protocol.setup host sink))} {last ans : Answer}

/-- **Place** of a thread: outside of any hit, about to look its context up, or at a stage of a hit
in a context that it attends to. -/
inductive Place (d : Debugger (Protocol.setup host sink)) (f : Handle → ThreadId) (t : ThreadId) :
    Thread (Protocol.setup host sink) → Prop
  | outside {x : Thread _} (hx : ∀ a ∈ x.agenda, a.isHit = false) : Place d f t x
  | locating {h : Handle} {r : Hook.Report} {rest : List (Action _)} {ans : Answer} (hf : f h = t)
      (hrest : ∀ a ∈ rest, a.isHit = false) : Place d f t ⟨.locate h r :: rest, ans⟩
  | hit {c : ContextId} {y : Context} {stage rest : List (Action _)} {told : Bool}
      {ev : Hook.Event} {ans : Answer} (hy : d.contexts[c]? = some y) (hf : f y.handle = t)
      (hs : Stage y.handle y.name ev stage ans told) (hrest : ∀ a ∈ rest, a.isHit = false) :
    Place d f t ⟨stage ++ .decide c ev :: rest, ans⟩

theorem Place.mono (hp : d.Place f t x)
    (hc : ∀ (c : ContextId) (y : Context), d.contexts[c]? = some y →
      ∃ z, d'.contexts[c]? = some z ∧ z.handle = y.handle ∧ z.name = y.name) : d'.Place f t x := by
  cases hp with
  | outside hx => exact .outside hx
  | locating hf hrest => exact .locating hf hrest
  | hit hy hf hs hrest =>
    obtain ⟨z, hz, hh, hn⟩ := hc _ _ hy
    rw [← hh] at hf hs
    rw [← hn] at hs
    exact .hit hz hf hs hrest

theorem Leads.isHit (h : d.Leads a todo) (ha : a.isHit = false) :
    (∃ x r, a = .begin (.hook x r) ∧ todo = [.locate x r]) ∨ ∀ b ∈ todo, b.isHit = false := by
  cases a with
  | begin op =>
    cases op with
    | hook x r =>
      obtain rfl | rfl := h
      · exact .inr fun b hb => absurd hb List.not_mem_nil
      · exact .inl ⟨x, r, rfl, rfl⟩
    | breakpoint => exact absurd ha (by simp [Action.isHit])
    | _ => exact .inr (by grind [Leads, OperationLeads, Action.dispatch, Action.isHit])
  | locate | decide => exact absurd ha (by simp [Action.isHit])
  | enter call | reloaded call =>
    refine .inr fun b hb => ?_
    cases call with
    | breakpoint => exact absurd ha (by simp [Action.isHit])
    | _ =>
      obtain rfl | rfl := h <;> rw [List.mem_cons] at hb <;> obtain rfl | hb := hb <;>
        first | rfl | (obtain rfl := List.mem_singleton.1 hb; rfl) | cases hb
  | logic p =>
    refine .inr fun b hb => ?_
    obtain rfl | ⟨s, last, op, next, hu, rfl⟩ := h
    · exact absurd hb List.not_mem_nil
    · rw [List.mem_cons, List.mem_singleton] at hb
      rcases Protocol.step_use hu with ⟨text, v, rfl, rfl⟩ | ⟨hop, route, j, rfl, -⟩
      · rcases hb with rfl | rfl <;> rfl
      · rcases hb with rfl | rfl
        · cases op <;> first | rfl | cases hop
        · rfl
  | resumeEach cs n => cases cs <;> exact .inr (by grind [Leads, Action.isHit])
  | describe cs done => cases cs <;> exact .inr (by grind [Leads, Action.isHit])
  | inspect k op => cases op <;> exact .inr (by grind [Leads, Operation.look, Action.isHit])
  | _ => exact .inr (by grind [Leads, Action.isHit])

theorem Place.act (hp : d.Place f t ⟨a :: rest, last⟩) (hd : d.Orderly)
    (hok : ∀ s text, (sink.send s text).2 = .ok ())
    (hf : ∀ h r, a = .begin (.hook h r) → t = f h)
    (hact : d.act t last a = some (e, todo, ans)) : e.Place f t ⟨todo ++ rest, ans⟩ := by
  have hmono : ∀ (c : ContextId) (y : Context), d.contexts[c]? = some y →
      ∃ z, e.contexts[c]? = some z ∧ z.handle = y.handle ∧ z.name = y.name := by
    intro c y hy
    obtain ⟨z, hz, hh, hn, -⟩ := act_context hact hy
    exact ⟨z, hz, hh, hn⟩
  generalize hx : (⟨a :: rest, last⟩ : Thread (Protocol.setup host sink)) = x at hp
  cases hp with
  | outside hout =>
    rw [← hx] at hout
    have hrest : ∀ b ∈ rest, b.isHit = false := fun b hb => hout b (List.mem_cons_of_mem _ hb)
    rcases (act_leads hact).isHit (hout a List.mem_cons_self) with ⟨h, r, rfl, rfl⟩ | htodo
    · exact .locating (hf h r rfl).symm hrest
    · refine .outside fun b hb => ?_
      rcases List.mem_append.1 hb with hb | hb
      · exact htodo b hb
      · exact hrest b hb
  | @locating h r rest' ans' hfh hrest =>
    cases hx
    simp only [Debugger.act] at hact
    split at hact
    · cases hact
      exact .outside hrest
    · rename_i c hl
      obtain ⟨y, hy, hh, -⟩ := hd.entry h c (Ascending.mem_of_get? hl)
      split at hact
      · cases hact
        have hname : ((d.contexts[c]?).map (·.name)).getD "" = y.name := by
          rw [hy]
          rfl
        rw [hname, ← hh]
        exact .hit hy (by rw [hh]; exact hfh) (.queued _) hrest
      · cases hact
        exact .outside hrest
  | @hit c y stage rest' told ev ans' hy hfy hs hrest =>
    obtain ⟨z, hz, hh, hn⟩ := hmono c y hy
    cases stage with
    | nil =>
      cases hx
      refine .outside fun b hb => ?_
      rcases List.mem_append.1 hb with hb | hb
      · obtain rfl | rfl := act_leads hact <;> simp at hb
        · rcases hb with rfl | rfl <;> rfl
        · rw [hb]
          rfl
      · exact hrest b hb
    | cons a' more =>
      cases hx
      obtain ⟨told', hs', -⟩ := hs.act hok hact
      show e.Place f t ⟨todo ++ (more ++ .decide c ev :: rest'), ans⟩
      rw [← List.append_assoc]
      rw [← hh, ← hn] at hs'
      exact .hit hz (by rw [hh]; exact hfy) hs' hrest

/-! ## Attended runs -/

/-- **Attended.** A run of the JSON protocol over a sink that accepts every message, in which one
thread raises the hook events of each execution, and nobody pauses a context or asks the client
logic about an event from outside. -/
structure Attended (d : Debugger (Protocol.setup host sink)) (σ : Schedule)
    (f : Handle → ThreadId) :
    Prop where
  initial : d.Initial
  accepts : ∀ s text, (sink.send s text).2 = .ok ()
  hooks : ∀ n t h r rest, ((d.instant σ n).thread t).agenda = .begin (.hook h r) :: rest → t = f h
  pauses : ∀ n t h r, σ n ≠ .call t (.pause h r)
  asks : ∀ n t h r, σ n ≠ .call t (.breakpoint h r)

variable {σ : Schedule} {n : Nat} {c : ContextId} {y : Context}

theorem Attended.handsOff (ha : d.Attended σ f) : HandsOff (Protocol.setup host sink) σ :=
  Protocol.handsOff ha.pauses

theorem Attended.place (ha : d.Attended σ f) (n : Nat) (t : ThreadId) :
    (d.instant σ n).Place f t ((d.instant σ n).thread t) := by
  refine instant_invariant (P := fun d => ∀ t, d.Place f t (d.thread t)) (fun t => ?_)
    (fun n u d' hn hs t => ?_) (fun n u op hσ hn _ hu t => ?_) (fun n u c y hn hy t => ?_) n t
  · refine .outside fun a hmem => ?_
    rw [ha.initial.idle t] at hmem
    exact absurd hmem List.not_mem_nil
  · obtain ⟨a, rest, e, todo, ans, hag, hact, rfl, hself, hne⟩ := step_cases hs
    by_cases htu : t = u
    · subst htu
      rw [hself]
      have hp := hn t
      rw [show (d.instant σ n).thread t = ⟨a :: rest, ((d.instant σ n).thread t).answer⟩ by
        rw [← hag]] at hp
      refine (hp.act (ha.initial.orderly.instant σ n) ha.accepts (fun h r hhook => ?_) hact).mono
        fun c y hy => ⟨y, hy, rfl, rfl⟩
      exact ha.hooks n t h r rest (by rw [hag, hhook])
    · rw [hne t htu]
      refine (hn t).mono fun c y hy => ?_
      obtain ⟨z, hz, hh, hname, -⟩ := act_context hact hy
      exact ⟨z, hz, hh, hname⟩
  · by_cases htu : t = u
    · subst htu
      rw [thread_call_self hu]
      refine .outside fun a hmem => ?_
      obtain rfl := List.mem_singleton.1 hmem
      cases op with
      | breakpoint h r => exact absurd hσ (ha.asks n t h r)
      | _ => rfl
    · rw [thread_call_ne htu]
      exact (hn t).mono fun c y hy => ⟨y, hy, rfl, rfl⟩
  · refine (hn t).mono fun k z hz => ?_
    obtain ⟨w, hw, rfl | rfl⟩ := context_wake u hy hz <;> exact ⟨_, hw, rfl, rfl⟩

theorem Place.decide {ev : Hook.Event} (hp : d.Place f t x) (hmem : .decide c ev ∈ x.agenda) :
    ∃ y stage told rest, d.contexts[c]? = some y ∧ f y.handle = t ∧
      Stage y.handle y.name ev stage x.answer told ∧ x.agenda = stage ++ .decide c ev :: rest ∧
      ∀ a ∈ rest, a.isHit = false := by
  cases hp with
  | outside hx => exact absurd (hx _ hmem) (by simp [Action.isHit])
  | locating hf hrest =>
    rcases List.mem_cons.1 hmem with h | h
    · cases h
    · exact absurd (hrest _ h) (by simp [Action.isHit])
  | @hit k y stage rest told ev' ans hy hf hs hrest =>
    rcases List.mem_append.1 hmem with h | h
    · exact absurd h (hs.decide_not_mem c ev)
    · rcases List.mem_cons.1 h with h | h
      · cases h
        exact ⟨y, stage, told, rest, hy, hf, hs, rfl, hrest⟩
      · exact absurd (hrest _ h) (by simp [Action.isHit])

/-- The client logic is asked about an event in a hit only. -/
theorem Place.decide_of_asked {h : Handle} {name : String} {ev : Hook.Event} (hp : d.Place f t x)
    (hag : x.agenda = .logic (Protocol.Point.called (.breakpoint h name ev)) :: rest) :
    ∃ c ev', .decide c ev' ∈ rest := by
  cases hp with
  | outside hx =>
    rw [hag] at hx
    exact absurd (hx _ List.mem_cons_self) (by simp [Action.isHit])
  | locating hf hrest => cases hag
  | @hit c y stage rest' told ev' ans hy hf hs hrest =>
    cases stage with
    | nil => cases hag
    | cons a more =>
      obtain ⟨-, rfl⟩ := List.cons_eq_cons.1 hag
      exact ⟨c, ev', List.mem_append_right _ List.mem_cons_self⟩

/-! ## Parking -/

/-- Whether an agenda has its thread park in a context. -/
def Parking (c : ContextId) (as : List (Action (Protocol.setup host sink))) : Prop :=
  ∃ rest, as = .unlock :: .wait c :: rest ∨ as = .wait c :: rest ∨ as = .parked c :: rest

/-- Who attends to a paused context parks in it. -/
def Parks (d : Debugger (Protocol.setup host sink)) (f : Handle → ThreadId) : Prop :=
  ∀ (c : ContextId) (y : Context), d.contexts[c]? = some y → y.isPaused = true →
    Parking c (d.thread (f y.handle)).agenda

section Act

variable {S : Setup} {d e : Debugger S} {t : ThreadId} {last ans : Answer} {a : Action S}
  {todo : List (Action S)} {c k : ContextId} {y z : Context}

theorem isPaused_of_new (h : d.act t last a = some (e, todo, ans)) (hy : d.contexts[c]? = none)
    (hz : e.contexts[c]? = some z) : z.isPaused = false := by
  obtain ⟨x, name, -, rfl, -⟩ := started_of_new h hy hz
  rfl

/-- A context that is paused was paused before, or is by a decision, or from outside. -/
theorem isPaused_of_act (h : d.act t last a = some (e, todo, ans)) (hz : e.contexts[c]? = some z)
    (hp : z.isPaused = true) :
    (∃ y, d.contexts[c]? = some y ∧ y.handle = z.handle ∧ y.isPaused = true) ∨
      (∃ ev, a = .decide c ev ∧ todo = [.unlock, .wait c]) ∨ ∃ ev, a = .pauseAt c ev := by
  cases hy : d.contexts[c]? with
  | none =>
    rw [isPaused_of_new h hy hz] at hp
    cases hp
  | some y =>
    obtain ⟨z', hz', hcases⟩ := act_sets h hy
    obtain rfl : z = z' := Option.some.inj (hz.symm.trans hz')
    rcases hcases with rfl | hset
    · exact .inl ⟨z, rfl, rfl, hp⟩
    · rcases hset.isPaused hp with hyp | ⟨ev, rfl, hpause⟩ | ⟨ev, rfl⟩
      · exact .inl ⟨y, rfl, hset.keeps.1.symm, hyp⟩
      · simp only [act, hy] at h
        split at h
        · rename_i hsome
          cases hsome
          rw [hpause] at h
          cases h
          exact .inr (.inl ⟨ev, rfl, rfl⟩)
        · cases h
          exact .inl ⟨z, hy.symm.trans hz, rfl, hp⟩
      · exact .inr (.inr ⟨ev, rfl⟩)

end Act

theorem Parking.act (hp : Parking c (a :: rest)) (hy : d.contexts[c]? = some y)
    (hpaused : y.isPaused = true) (h : d.act t last a = some (e, todo, ans)) :
    Parking c (todo ++ rest) := by
  obtain ⟨rest', hp | hp | hp⟩ := hp <;> obtain ⟨rfl, rfl⟩ := List.cons_eq_cons.1 hp
  · obtain rfl : todo = [] := act_leads h
    exact ⟨rest', .inr (.inl rfl)⟩
  · simp only [Debugger.act, hy, Context.wait, hpaused, if_true] at h
    cases h
    exact ⟨rest, .inr (.inr rfl)⟩
  · simp only [Debugger.act, hy] at h
    split at h
    · cases h
    · cases h
      exact ⟨rest, .inr (.inl rfl)⟩

theorem Attended.parks (ha : d.Attended σ f) (n : Nat) : (d.instant σ n).Parks f := by
  refine instant_invariant (P := fun d => d.Parks f) (fun c y hy => ?_)
    (fun n u d' hn hs c z hz hp => ?_) (fun n u op _ hn hid hu c y hy hp => ?_)
    (fun n u c y hn hy k z hz hp => ?_) n
  · rw [ha.initial.contexts] at hy
    exact absurd hy (by simp)
  · obtain ⟨a, rest, e, todo, ans, hag, hact, rfl, hself, hne⟩ := step_cases hs
    have hz : e.contexts[c]? = some z := hz
    rcases isPaused_of_act hact hz hp with ⟨y, hy, hh, hyp⟩ | ⟨ev, rfl, rfl⟩ | ⟨ev, rfl⟩
    · have hpark := hn c y hy hyp
      rw [hh] at hpark
      by_cases hu : f z.handle = u
      · rw [hu] at hpark ⊢
        rw [hself]
        rw [hag] at hpark
        exact hpark.act hy hyp hact
      · rw [hne _ hu]
        exact hpark
    · -- the thread that decides is the one that attends to the context
      have hmem : .decide c ev ∈ ((d.instant σ n).thread u).agenda := by
        rw [hag]
        exact List.mem_cons_self
      obtain ⟨y, stage, told, rest', hy, hf, -⟩ := (ha.place n u).decide hmem
      obtain ⟨z', hz', hh, -⟩ := act_context hact hy
      obtain rfl : z = z' := Option.some.inj (hz.symm.trans hz')
      rw [hh, hf, hself]
      exact ⟨rest, .inl rfl⟩
    · exact absurd (by rw [hag]; exact List.mem_cons_self)
        (ha.handsOff.pauseAt_not_mem ha.initial n u c ev)
  · have hpark := hn c y hy hp
    by_cases hfu : f y.handle = u
    · rw [hfu, hid] at hpark
      obtain ⟨rest, h | h | h⟩ := hpark <;> cases h
    · rw [thread_call_ne hfu]
      exact hpark
  · obtain ⟨w, hw, hcase⟩ := context_of_wake hy hz
    have hw := hn k w hw
    rcases hcase with rfl | rfl <;> exact hw hp

/-- A context is not paused while the thread that attends to it decides about a hit in it. -/
theorem Attended.not_isPaused (ha : d.Attended σ f) {ev : Hook.Event}
    (hag : ((d.instant σ n).thread t).agenda = .decide c ev :: rest)
    (hy : (d.instant σ n).contexts[c]? = some y) : y.isPaused = false := by
  have hmem : .decide c ev ∈ ((d.instant σ n).thread t).agenda := by
    rw [hag]
    exact List.mem_cons_self
  obtain ⟨z, stage, told, rest', hz, hf, -⟩ := (ha.place n t).decide hmem
  obtain rfl : y = z := Option.some.inj (hy.symm.trans hz)
  cases hp : y.isPaused with
  | false => rfl
  | true => obtain ⟨rest'', h | h | h⟩ := ha.parks n c y hy hp <;> rw [hf, hag] at h <;> cases h

end Debugger

end ScriptDebug
