import ScriptDebug.Proofs.Access
import ScriptDebug.Proofs.Calls
import ScriptDebug.Proofs.Notice

/-!
# No resume is lost

The client resumes an execution by a message, and the embedder by itself, for one execution or for
all of them; each does it in a section of the dispatch lock. `Due` lists what such a section has
left to do until it resumes a context. A section that opens after the client was told of a hit finds
the pause of the hit, unless another one resumed it first (`Stands`), and does not end before the
context runs.
-/

namespace ScriptDebug

namespace Protocol

variable {h : Handle} {call : LogicCall}

/-- Whether a call of the protocol carries the request to resume an execution. -/
def Continues (h : Handle) : LogicCall → Prop
  | .message text => ∃ j, Json.parse text = .ok j ∧ readCommand j = .ok (.use (.resume h))
  | .request j => readCommand j = .ok (.use (.resume h))
  | _ => False

theorem Continues.step (hc : Continues h call) (table : BreakpointTable) (last : Answer) :
    ∃ next, Protocol.step table (.called call) last = (table, .use (.resume h) next) := by
  cases call with
  | message text =>
    obtain ⟨j, hj, hr⟩ := hc
    refine ⟨.answering .message j, ?_⟩
    simp only [Protocol.step, enter, answer, hj, hr]
  | request j =>
    have hr : readCommand j = .ok (.use (.resume h)) := hc
    refine ⟨.answering .caller j, ?_⟩
    simp only [Protocol.step, enter, answer, hr]
  | _ => exact absurd hc id

end Protocol

namespace Debugger

variable {host : Host} {sink : Sink} {h : Handle} {c : ContextId} {call : LogicCall}
  {d d' e : Debugger (Protocol.setup host sink)} {σ : Schedule} {f : Handle → ThreadId}
  {i j k m n : Nat} {t u v : ThreadId} {ev : Hook.Event} {x y : Context} {last ans : Answer}
  {a : Action (Protocol.setup host sink)} {rest todo : List (Action (Protocol.setup host sink))}

/-- **Due.** What a thread that holds the lock has to do,
where the resume of a context is a part of it. -/
inductive Due (h : Handle) (c : ContextId) : Thread (Protocol.setup host sink) → Prop
  -- a request of the client
  | entering {call : LogicCall} {rest : List (Action _)} {ans : Answer}
      (hc : Protocol.Continues h call) : Due h c ⟨.enter call :: rest, ans⟩
  | reloading {call : LogicCall} {rest : List (Action _)} {ans : Answer}
      (hc : Protocol.Continues h call) :
    Due h c ⟨.logic (Protocol.Point.called .reload) :: .reloaded call :: rest, ans⟩
  | reloaded {call : LogicCall} {rest : List (Action _)} {v : Verdict}
      (hc : Protocol.Continues h call) : Due h c ⟨.reloaded call :: rest, .verdict (.ok v)⟩
  | asked {call : LogicCall} {rest : List (Action _)} {ans : Answer}
      (hc : Protocol.Continues h call) :
    Due h c ⟨.logic (Protocol.Point.called call) :: rest, ans⟩
  | beginning {rest : List (Action _)} {ans : Answer} (hp : ∃ p, .logic p ∈ rest) :
    Due h c ⟨.begin (.resume h) :: rest, ans⟩
  | locking {rest : List (Action _)} {ans : Answer} (hp : ∃ p, .logic p ∈ rest) :
    Due h c ⟨.lock :: .resumeOne c :: rest, ans⟩
  -- one context
  | resuming {rest : List (Action _)} {ans : Answer} : Due h c ⟨.resumeOne c :: rest, ans⟩
  -- all contexts
  | sweeping {rest : List (Action _)} {ans : Answer} : Due h c ⟨.sweep :: rest, ans⟩
  | each {cs : List ContextId} {n : Nat} {rest : List (Action _)} {ans : Answer} (hcs : c ∈ cs) :
    Due h c ⟨.resumeEach cs n :: rest, ans⟩

theorem Due.busy {x : Thread (Protocol.setup host sink)} (hdue : Due h c x) : x.agenda ≠ [] := by
  cases hdue <;> exact List.cons_ne_nil _ _

/-- Whether an action resumes a context. -/
def frees (c : ContextId) : Action (Protocol.setup host sink) → Bool
  | .resumeOne k | .resumeEach (k :: _) _ => k == c
  | _ => false

/-- **Resume.** A thread is about to resume a context. -/
def Resumes (d : Debugger (Protocol.setup host sink)) (t : ThreadId) (c : ContextId) : Prop :=
  ∃ a rest, (d.thread t).agenda = a :: rest ∧ frees c a = true

theorem running_of_frees (hact : d.act t last a = some (e, todo, ans)) (ha : frees c a = true)
    (hy : d.contexts[c]? = some y) :
    ∃ z, e.contexts[c]? = some z ∧ z.isPaused = false := by
  have hset : ∀ w, (d.setContext c w).contexts[c]? = some w := by
    intro w
    rw [getElem?_setContext, if_pos rfl, hy]
    rfl
  unfold frees at ha
  split at ha
  · obtain rfl := beq_iff_eq.1 ha
    simp only [act, hy] at hact
    cases hact
    exact ⟨_, hset _, Context.isPaused_resume y⟩
  · obtain rfl := beq_iff_eq.1 ha
    simp only [act, hy] at hact
    cases hact
    exact ⟨_, hset _, Context.isPaused_resume y⟩
  · cases ha

/-- How far a section is from its resume: the stages before it, and the contexts resumed before. -/
def distance : List (Action (Protocol.setup host sink)) → Nat × Nat
  | .enter _ :: _ => (5, 0)
  | .logic (.called .reload) :: _ => (4, 0)
  | .reloaded _ :: _ => (3, 0)
  | .logic _ :: _ => (2, 0)
  | .begin _ :: _ => (1, 1)
  | .resumeEach cs _ :: _ => (0, cs.length)
  | .resumeOne _ :: _ => (0, 0)
  | _ => (1, 0)

/-- One section is nearer to its resume than another. -/
def Nearer (as bs : List (Action (Protocol.setup host sink))) : Prop :=
  Prod.Lex (· < ·) (· < ·) (distance as) (distance bs)

theorem Nearer.of_lt {as bs : List (Action (Protocol.setup host sink))}
    (hlt : (distance as).1 < (distance bs).1) : Nearer as bs :=
  Prod.Lex.left _ _ hlt

theorem distance_asked (hc : Protocol.Continues h call) :
    distance (.logic (Protocol.Point.called call) :: rest) = (2, 0) := by
  cases call with
  | message | request => rfl
  | _ => exact absurd hc id

theorem Nearer.asked {bs : List (Action (Protocol.setup host sink))}
    (hc : Protocol.Continues h call) (hlt : 2 < (distance bs).1) :
    Nearer (.logic (Protocol.Point.called call) :: rest) bs := by
  refine .of_lt ?_
  rw [distance_asked hc]
  exact hlt

/-- **A step towards the resume** of a registered context leads on towards it, or is the resume. -/
theorem Due.act (hdue : Due h c ⟨a :: rest, last⟩) (hl : d.lookup h = some c)
    (hact : d.act t last a = some (e, todo, ans)) :
    frees c a = true ∨ Due h c ⟨todo ++ rest, ans⟩ ∧ Nearer (todo ++ rest) (a :: rest) := by
  have hreg : c ∈ d.registered := mem_registered.2 ⟨h, Ascending.mem_of_get? hl⟩
  cases hdue with
  | @entering call rest _ hc =>
    simp only [Debugger.act] at hact
    split at hact
    · cases hact
      exact .inr ⟨.reloading hc, .of_lt (Nat.lt_succ_self 4)⟩
    · cases hact
      exact .inr ⟨.asked hc, .asked hc (show 2 < 5 by decide)⟩
  | reloading hc =>
    cases hact
    exact .inr ⟨.reloaded hc, .of_lt (Nat.lt_succ_self 3)⟩
  | reloaded hc =>
    cases hact
    exact .inr ⟨.asked hc, .asked hc (Nat.lt_succ_self 2)⟩
  | asked hc =>
    obtain ⟨next, hstep⟩ := hc.step d.logic last
    simp only [Debugger.act, Protocol.logic, hstep] at hact
    cases hact
    refine .inr ⟨.beginning ⟨next, List.mem_cons_self⟩, .of_lt ?_⟩
    rw [distance_asked hc]
    exact Nat.lt_succ_self 1
  | beginning hp =>
    simp only [Debugger.act, beginOperation, hl] at hact
    cases hact
    obtain ⟨p, hp⟩ := hp
    exact .inr ⟨.locking ⟨p, List.mem_append_right [_, _] hp⟩, Prod.Lex.right _ Nat.zero_lt_one⟩
  | locking hp =>
    obtain rfl : todo = [] := act_leads hact
    exact .inr ⟨.resuming, .of_lt Nat.zero_lt_one⟩
  | resuming => exact .inl (beq_self_eq_true c)
  | sweeping =>
    cases hact
    exact .inr ⟨.each hreg, .of_lt Nat.zero_lt_one⟩
  | @each cs n rest _ hcs =>
    cases cs with
    | nil => exact absurd hcs List.not_mem_nil
    | cons k cs =>
      by_cases hk : k = c
      · exact .inl (beq_iff_eq.2 hk)
      · obtain ⟨n', rfl⟩ := act_leads hact
        exact .inr ⟨.each ((List.mem_cons.1 hcs).resolve_left (Ne.symm hk)),
          Prod.Lex.right _ (Nat.lt_succ_self _)⟩

/-! ## Sections of the lock -/

theorem Disciplined.holds_of_due (hd : d.Disciplined) (hdue : Due h c (d.thread u)) :
    d.Holds u := by
  generalize hx : d.thread u = x at hdue
  have hag : (d.thread u).agenda = x.agenda := by rw [hx]
  cases hdue with
  | reloading hc => exact hd.holds_of_logic (by rw [hag]; exact List.mem_cons_self)
  | asked hc => exact hd.holds_of_logic (by rw [hag]; exact List.mem_cons_self)
  | beginning hp =>
    obtain ⟨p, hp⟩ := hp
    exact hd.holds_of_logic (by rw [hag]; exact List.mem_cons_of_mem _ hp)
  | locking hp =>
    obtain ⟨p, hp⟩ := hp
    exact hd.holds_of_logic (by
      rw [hag]
      exact List.mem_cons_of_mem _ (List.mem_cons_of_mem _ hp))
  | resuming =>
    refine hd.holds_of_debt hag fun m k hk => ?_
    obtain ⟨rfl, hpos⟩ := Debt.need_eq hk
    exact hpos
  | entering | reloaded | sweeping | each =>
    refine hd.holds_of_debt hag fun m k hk => ?_
    cases hk
    exact Nat.succ_pos _

theorem exists_act_lock (hh : d.Holds u) : ∃ r, d.act u last .lock = some r := by
  unfold Holds held at hh
  simp only [act]
  split
  · exact ⟨_, rfl⟩
  · rename_i hold hd
    rw [hd] at hh
    by_cases ho : hold.owner = u
    · rw [if_pos ho]
      exact ⟨_, rfl⟩
    · simp [ho] at hh

theorem Disciplined.step_of_due (hd : d.Disciplined) (hdue : Due h c (d.thread u)) :
    ∃ d', d.step u = some d' := by
  have hh := hd.holds_of_due hdue
  suffices hact : ∃ a rest, (d.thread u).agenda = a :: rest ∧
      ∃ r, d.act u (d.thread u).answer a = some r by
    obtain ⟨a, rest, hag, ⟨e, todo, ans⟩, hact⟩ := hact
    exact step_of_act hag hact
  generalize d.thread u = x at hdue
  cases hdue with
  | entering hc =>
    refine ⟨_, _, rfl, ?_⟩
    simp only [Debugger.act]
    split <;> exact ⟨_, rfl⟩
  | asked hc =>
    refine ⟨_, _, rfl, ?_⟩
    simp only [Debugger.act]
    split <;> exact ⟨_, rfl⟩
  | locking hp => exact ⟨_, _, rfl, exists_act_lock hh⟩
  | resuming =>
    refine ⟨_, _, rfl, ?_⟩
    simp only [Debugger.act]
    split <;> exact ⟨_, rfl⟩
  | @each cs n rest ans hcs =>
    refine ⟨_, _, rfl, ?_⟩
    cases cs with
    | nil => exact ⟨_, rfl⟩
    | cons k cs =>
      simp only [Debugger.act]
      split <;> exact ⟨_, rfl⟩
  | reloading | reloaded | beginning | sweeping => exact ⟨_, _, rfl, _, rfl⟩

/-- **Opening.** A thread is about to take the lock for a section that resumes a context. -/
def Opens (d : Debugger (Protocol.setup host sink)) (u : ThreadId) (h : Handle) (c : ContextId) :
    Prop :=
  ∃ rest, (d.thread u).agenda = .lock :: rest ∧ Due h c ⟨rest, (d.thread u).answer⟩ ∧
    ∃ d', d.step u = some d'

theorem Opens.due (ho : d.Opens u h c) (hs : d.step u = some d') : Due h c (d'.thread u) := by
  obtain ⟨rest, hag, hdue, -⟩ := ho
  obtain ⟨a, rest', e, todo, ans, hag', hact, -, hself, -⟩ := step_cases hs
  obtain ⟨rfl, rfl⟩ := List.cons_eq_cons.1 (hag'.symm.trans hag)
  obtain ⟨rfl, -⟩ := held_of_lock hact
  have hans : ans = (d.thread u).answer := by
    simp only [Debugger.act] at hact
    split at hact
    · cases hact
      rfl
    · split at hact <;> cases hact
      rfl
  rw [hself, hans]
  exact hdue

/-! ## From the notice to the pause -/

/-- **Standing pause.** A hit that was announced in turn `i` paused its context since then, and the
pause stands, or else the context was resumed from it. -/
def Stands (d : Debugger (Protocol.setup host sink)) (σ : Schedule) (i n : Nat) (t : ThreadId)
    (c : ContextId) (ev : Hook.Event) : Prop :=
  ∃ k, i < k ∧ k < n ∧ σ k = .step t ∧ (d.instant σ k).Pauses t c ev ∧
    ((∃ y, (d.instant σ n).contexts[c]? = some y ∧ y.state = .paused ∧ y.pausedAt = some ev) ∨
      ∃ m u, k < m ∧ m < n ∧ σ m = .step u ∧ (d.instant σ m).Resumes u c)

/-- A step of a hit leaves it known, or is the decision. -/
theorem Attended.known_step (ha : d.Attended σ f) (hs : (d.instant σ n).step t = some d')
    (hmem : .decide c ev ∈ ((d.instant σ n).thread t).agenda)
    (hknown : KnownHit c ev ((d.instant σ n).thread t) ∨
      ∃ text rest, ((d.instant σ n).thread t).agenda = .begin (.send text) :: rest) :
    KnownHit c ev (d'.thread t) ∨
      ∃ rest, (d.instant σ n).thread t = ⟨.decide c ev :: rest, .handled (.ok false)⟩ := by
  obtain ⟨y, -, ⟨a, more, todo, rest, ans, told, told', hth, hstage, hself, hs', htold⟩ |
    ⟨rest, b, hth, -⟩⟩ := ha.hit_step hs hmem
  · have htold' : told' = true := by
      refine htold.2 ?_
      rcases hknown with ⟨_, _, stage, rest', hk, hag⟩ | ⟨text, rest', hag⟩
      · rw [hth] at hag
        obtain ⟨rfl, -, -⟩ :=
          eq_of_split (l := a :: more) hag hstage.decide_not_mem hk.decide_not_mem
        exact .inl (hstage.told_eq hk)
      · rw [hth] at hag
        exact .inr ⟨text, (List.cons_eq_cons.1 hag).1⟩
    rw [hself]
    rw [htold'] at hs'
    exact .inl ⟨_, _, _, rest, hs', rfl⟩
  · refine .inr ⟨rest, ?_⟩
    rcases hknown with ⟨_, _, stage, rest', hk, hag⟩ | ⟨text, rest', hag⟩
    · rw [hth] at hag hk
      cases stage with
      | nil =>
        cases b with
        | false => exact hth
        | true => nomatch hk
      | cons a more =>
        obtain ⟨rfl, -⟩ := List.cons_eq_cons.1 hag
        exact absurd List.mem_cons_self (hk.decide_not_mem c ev)
    · rw [hth] at hag
      exact absurd (List.cons_eq_cons.1 hag).1 (by simp)

theorem Attended.pauses_of_deciding (ha : d.Attended σ f)
    (hth : (d.instant σ n).thread t = ⟨.decide c ev :: rest, .handled (.ok false)⟩)
    (hreg : c ∈ (d.instant σ n).registered) : (d.instant σ n).Pauses t c ev := by
  obtain ⟨h, hmem⟩ := mem_registered.1 hreg
  obtain ⟨y, hy, -, hopen⟩ := (ha.initial.orderly.instant σ n).entry h c hmem
  have hrun : y.isPaused = false := ha.not_isPaused (by rw [hth]) hy
  exact ⟨rest, y, _, hth, hy, by unfold Context.pause; rw [hopen, hrun]; rfl⟩

theorem Pauses.paused (hp : d.Pauses t c ev) (hs : d.step t = some d') :
    ∃ y, d'.contexts[c]? = some y ∧ y.state = .paused ∧ y.pausedAt = some ev := by
  obtain ⟨rest, y, z, hth, hy, hz⟩ := hp
  obtain ⟨a, rest', e, todo, ans, hag, hact, rfl, -⟩ := step_cases hs
  rw [hth] at hag hact
  obtain ⟨rfl, rfl⟩ := List.cons_eq_cons.1 hag
  simp only [Debugger.act, hy, hz] at hact
  cases hact
  refine ⟨z, ?_, ?_⟩
  · show (d.setContext c z).contexts[c]? = some z
    rw [getElem?_setContext, if_pos rfl, hy]
    rfl
  · unfold Context.pause at hz
    split at hz
    · cases hz
    · split at hz <;> cases hz
      exact ⟨rfl, rfl⟩

theorem Attended.keeps (ha : d.Attended σ f) (hreg : c ∈ (d.instant σ n).registered)
    (hx : (d.instant σ n).contexts[c]? = some x) (hp : x.isPaused = true) :
    (∃ y, (d.instant σ (n + 1)).contexts[c]? = some y ∧ y.stance = x.stance) ∨
      ∃ u, σ n = .step u ∧ (d.instant σ n).Resumes u c := by
  rw [instant_succ]
  rcases take_cases (d.instant σ n) (σ n) with h | ⟨u, d', hσ, hs, h⟩ | ⟨u, op, -, -, -, h⟩ |
    ⟨u, k, z, -, hz, h⟩ <;> rw [h]
  · exact .inl ⟨x, hx, rfl⟩
  · obtain ⟨a, rest, e, todo, ans, hag, hact, rfl, -⟩ := step_cases hs
    have hhead : ∀ b, b = a → b ∈ ((d.instant σ n).thread u).agenda := by
      rintro b rfl
      rw [hag]
      exact List.mem_cons_self
    obtain ⟨y, hy, -, -, hst, -⟩ := act_context hact hx
    by_cases hal : a.alters c
    · cases a with
      | resumeOne k => exact .inr ⟨u, hσ, _, rest, hag, beq_iff_eq.2 hal⟩
      | resumeEach cs m =>
        cases cs with
        | nil => exact absurd hal id
        | cons k cs => exact .inr ⟨u, hσ, _, rest, hag, beq_iff_eq.2 hal⟩
      | close k =>
        obtain rfl : k = c := hal
        exact absurd hreg ((ha.initial.orderly.instant σ n).closing u k (hhead _ rfl)).2
      | decide k ev =>
        obtain rfl : k = c := hal
        rw [ha.not_isPaused hag hx] at hp
        cases hp
      | pauseAt k ev => exact absurd (hhead _ rfl) (ha.handsOff.pauseAt_not_mem ha.initial n u k ev)
      | _ => exact absurd hal id
    · exact .inl ⟨y, hy, hst hal⟩
  · exact .inl ⟨x, hx, rfl⟩
  · obtain ⟨y, hy, rfl | rfl⟩ := context_wake u hz hx <;> exact .inl ⟨_, hy, rfl⟩

theorem Attended.stands_succ (ha : d.Attended σ f) (hreg : c ∈ (d.instant σ n).registered)
    (hst : d.Stands σ i n t c ev) : d.Stands σ i (n + 1) t c ev := by
  obtain ⟨k, hik, hkn, hturn, hp, hnow⟩ := hst
  refine ⟨k, hik, Nat.lt_succ_of_lt hkn, hturn, hp, ?_⟩
  rcases hnow with ⟨y, hy, hstate, hev⟩ | ⟨m, u, hkm, hmn, hm, hr⟩
  · rcases ha.keeps hreg hy (beq_iff_eq.2 hstate) with ⟨z, hz, hzy⟩ | ⟨u, hu, hr⟩
    · refine .inl ⟨z, hz, ?_, ?_⟩
      · exact (congrArg Prod.fst hzy).trans hstate
      · exact (congrArg Prod.snd hzy).trans hev
    · exact .inr ⟨n, u, hkn, Nat.lt_succ_self n, hu, hr⟩
  · exact .inr ⟨m, u, hkm, Nat.lt_succ_of_lt hmn, hm, hr⟩

/-- **After the notice** a hit in a registered context is still known, or its pause stands. -/
theorem Attended.known_or_stands (ha : d.Attended σ f) (hturn : σ i = .step t)
    (hann : (d.instant σ i).Announces t c ev) (hin : i < n)
    (hreg : c ∈ (d.instant σ n).registered) :
    KnownHit c ev ((d.instant σ n).thread t) ∨ d.Stands σ i n t c ev := by
  induction hin with
  | refl =>
    obtain ⟨d', hs⟩ := hann.step
    have hn : d.instant σ (i + 1) = d' := instant_of_step hturn hs
    obtain ⟨text, rest, -, -, hag, -⟩ := id hann
    rcases ha.known_step hs hann.decide_mem (.inr ⟨text, rest, hag⟩) with hk | ⟨rest', hth⟩
    · rw [hn]
      exact .inl hk
    · rw [hth] at hag
      exact absurd (List.cons_eq_cons.1 hag).1 (by simp)
  | @step n hin ih =>
    obtain ⟨_, _, y, _, _, _, hyi, -⟩ := id hann
    obtain ⟨z, hz, -⟩ := context_of_later (Nat.le_of_lt hin) hyi
    have hregn : c ∈ (d.instant σ n).registered :=
      registered_of_later (Nat.le_succ n) hz hreg
    rcases ih hregn with hk | hst
    · by_cases hσ : σ n = .step t
      · cases hs : (d.instant σ n).step t with
        | none =>
          have hn : d.instant σ (n + 1) = d.instant σ n := instant_of_stuck hσ hs
          rw [hn]
          exact .inl hk
        | some d' =>
          have hn : d.instant σ (n + 1) = d' := instant_of_step hσ hs
          rcases ha.known_step hs hk.decide_mem (.inl hk) with hk' | ⟨rest, hth⟩
          · rw [hn]
            exact .inl hk'
          · have hp := ha.pauses_of_deciding hth hregn
            refine .inr ⟨n, hin, Nat.lt_succ_self n, hσ, hp, .inl ?_⟩
            rw [hn]
            exact hp.paused hs
      · rw [instant_succ]
        rcases thread_take_ne (d.instant σ n) hσ with h | ⟨op, -, hid, -⟩
        · rw [h]
          exact .inl hk
        · have hmem := hk.decide_mem
          rw [hid] at hmem
          exact absurd hmem List.not_mem_nil
    · exact .inr (ha.stands_succ hregn hst)

/-- A section that resumes is no part of a hit of which the client knows. -/
theorem Due.not_known {h' : Handle} {name : String} {told : Bool} {k : ContextId}
    {stage : List (Action (Protocol.setup host sink))} (hs : Stage h' name ev stage ans told)
    (ht : told = true) : ¬ Due h c ⟨stage ++ .decide k ev :: rest, ans⟩ := by
  intro hdue
  cases hs with
  | told | judged | reporting | deciding => cases hdue
  | _ => cases ht

/-- A section does not go on while the client knows of a hit. -/
theorem Attended.not_known_of_due (ha : d.Attended σ f)
    (hdue : Due h c ((d.instant σ n).thread u)) :
    ¬ KnownHit c ev ((d.instant σ n).thread t) := by
  intro hk
  have hd := ha.initial.disciplined.instant σ n
  obtain rfl : u = t := Holds.unique (hd.holds_of_due hdue) (hd.holds_of_told ⟨ev, hk⟩)
  obtain ⟨_, _, stage, rest, hs, hag⟩ := hk
  have hdue : Due h c ⟨stage ++ .decide c ev :: rest, ((d.instant σ n).thread u).answer⟩ := by
    rw [← hag]
    exact hdue
  exact Due.not_known hs rfl hdue

theorem Attended.stands_of_due (ha : d.Attended σ f) (hturn : σ i = .step t)
    (hann : (d.instant σ i).Announces t c ev) (hin : i < n)
    (hreg : c ∈ (d.instant σ n).registered) (hdue : Due h c ((d.instant σ n).thread u)) :
    d.Stands σ i n t c ev :=
  (ha.known_or_stands hturn hann hin hreg).resolve_left (ha.not_known_of_due hdue)

theorem Attended.stands_of_opens (ha : d.Attended σ f) (hturn : σ i = .step t)
    (hann : (d.instant σ i).Announces t c ev) (hin : i < n)
    (hreg : c ∈ (d.instant σ n).registered) (ho : (d.instant σ n).Opens u h c) :
    d.Stands σ i n t c ev := by
  refine (ha.known_or_stands hturn hann hin hreg).resolve_left fun hk => ?_
  obtain ⟨rest, hag, -, d', hs⟩ := ho
  have hholds : (d.instant σ n).Holds t :=
    (ha.initial.disciplined.instant σ n).holds_of_told ⟨ev, hk⟩
  by_cases hut : u = t
  · subst hut
    obtain ⟨_, _, stage, rest', hstage, hag'⟩ := hk
    cases stage with
    | nil => exact absurd (List.cons_eq_cons.1 (hag.symm.trans hag')).1 (by simp)
    | cons a more =>
      obtain ⟨rfl, -⟩ := List.cons_eq_cons.1 (hag.symm.trans hag')
      exact hstage.lock_not_mem rfl List.mem_cons_self
  · obtain ⟨a, rest', e, todo, ans, hag', hact, -⟩ := step_cases hs
    obtain ⟨rfl, -⟩ := List.cons_eq_cons.1 (hag'.symm.trans hag)
    rw [act_lock_of_holds hholds hut] at hact
    cases hact

/-- **A turn of a section** of a registered context keeps it due, or is the resume. -/
theorem Due.next (hd : d.Initial) (hdue : Due h c ((d.instant σ n).thread u))
    (hreg : (h, c) ∈ (d.instant σ n).registry) :
    (σ n = .step u ∧ (d.instant σ n).Resumes u c ∧
        ∃ y, (d.instant σ (n + 1)).contexts[c]? = some y ∧ y.isPaused = false) ∨
      (σ n ≠ .step u ∧ (d.instant σ (n + 1)).thread u = (d.instant σ n).thread u) ∨
      (σ n = .step u ∧ Due h c ((d.instant σ (n + 1)).thread u) ∧
        Nearer ((d.instant σ (n + 1)).thread u).agenda ((d.instant σ n).thread u).agenda) := by
  have ho := hd.orderly.instant σ n
  rw [instant_succ]
  by_cases hσ : σ n = .step u
  · obtain ⟨d', hs⟩ := (hd.disciplined.instant σ n).step_of_due hdue
    have htake : (d.instant σ n).take (σ n) = d' := by
      rw [hσ]
      simp [take, hs]
    rw [htake]
    obtain ⟨a, rest, e, todo, ans, hag, hact, rfl, hself, -⟩ := step_cases hs
    have hth : (d.instant σ n).thread u = ⟨a :: rest, ((d.instant σ n).thread u).answer⟩ := by
      rw [← hag]
    rw [hth] at hdue
    rcases hdue.act (ho.found h c hreg) hact with hfree | ⟨hdue', hnear⟩
    · obtain ⟨y, hy, -⟩ := ho.entry h c hreg
      obtain ⟨z, hz, hrun⟩ := running_of_frees hact hfree hy
      exact .inl ⟨hσ, ⟨a, rest, hag, hfree⟩, z, hz, hrun⟩
    · rw [hself, hag]
      exact .inr (.inr ⟨hσ, hdue', hnear⟩)
  · rcases thread_take_ne (d.instant σ n) hσ with h | ⟨op, -, hid, -⟩
    · exact .inr (.inl ⟨hσ, h⟩)
    · exact absurd hid hdue.busy

/-- **Resumed.** In turn `m` the thread resumes the registered context in a section,
and leaves it running. -/
structure Resumed (d : Debugger (Protocol.setup host sink)) (σ : Schedule) (m : Nat) (u : ThreadId)
    (h : Handle) (c : ContextId) : Prop where
  turn : σ m = .step u
  entry : (h, c) ∈ (d.instant σ m).registry
  due : Due h c ((d.instant σ m).thread u)
  resumes : (d.instant σ m).Resumes u c
  running : ∃ y, (d.instant σ (m + 1)).contexts[c]? = some y ∧ y.isPaused = false

/-- A section does not end before it has resumed the context, while that is registered. -/
theorem Opens.due_or_resumed (hd : d.Initial) (hturn : σ j = .step u)
    (ho : (d.instant σ j).Opens u h c) (hj : (h, c) ∈ (d.instant σ j).registry) (hjn : j < n)
    (hn : (h, c) ∈ (d.instant σ n).registry) :
    Due h c ((d.instant σ n).thread u) ∨ ∃ m, j < m ∧ m < n ∧ d.Resumed σ m u h c := by
  induction hjn with
  | refl =>
    obtain ⟨rest, -, -, d', hs⟩ := id ho
    have htake : d.instant σ (j + 1) = d' := instant_of_step hturn hs
    rw [htake]
    exact .inl (ho.due hs)
  | @step n hjn ih =>
    obtain ⟨x, hx, -⟩ := (hd.orderly.instant σ j).entry h c hj
    obtain ⟨y, hy, -⟩ := context_of_later (Nat.le_of_lt hjn) hx
    have hreg : (h, c) ∈ (d.instant σ n).registry := hd.entry_of_later (Nat.le_succ n) hy hn
    rcases ih hreg with hdue | ⟨m, hjm, hmn, hr⟩
    · rcases hdue.next hd hreg with ⟨hσ, hr, hrun⟩ | ⟨-, hth⟩ | ⟨-, hdue', -⟩
      · exact .inr ⟨n, hjn, Nat.lt_succ_self n, hσ, hreg, hdue, hr, hrun⟩
      · rw [hth]
        exact .inl hdue
      · exact .inl hdue'
    · exact .inr ⟨m, hjm, Nat.lt_succ_of_lt hmn, hr⟩

theorem nearer_wellFounded : WellFounded (@Nearer host sink) :=
  InvImage.wf distance (Prod.lex Nat.lt_wfRel Nat.lt_wfRel).wf

theorem Due.resumed (hd : d.Initial) (hfair : ∀ k, ∃ n, k ≤ n ∧ σ n = .step u)
    (hreg : ∀ k, n ≤ k → (h, c) ∈ (d.instant σ k).registry)
    (hdue : Due h c ((d.instant σ n).thread u)) : ∃ m, n ≤ m ∧ d.Resumed σ m u h c := by
  generalize has : ((d.instant σ n).thread u).agenda = as
  induction as using nearer_wellFounded.induction generalizing n with
  | _ as ih =>
  -- the turns before the next one of the thread change nothing
  obtain ⟨m, hnm, hm, hth⟩ := exists_turn hdue.busy hfair
  rw [← hth] at hdue has
  rcases hdue.next hd (hreg m hnm) with ⟨hσ, hr, hrun⟩ | ⟨hσ, -⟩ | ⟨-, hdue', hnear⟩
  · exact ⟨m, hnm, hσ, hreg m hnm, hdue, hr, hrun⟩
  · exact absurd hm hσ
  · obtain ⟨k, hmk, hk⟩ := ih _ (has ▸ hnear)
      (fun k hk => hreg k (Nat.le_trans hnm (Nat.le_of_succ_le hk))) hdue' rfl
    exact ⟨k, Nat.le_trans hnm (Nat.le_of_succ_le hmk), hk⟩

/-! ## The operations that resume -/

/-- Whether an operation resumes an execution by a section of the lock. -/
def IsResume (d : Debugger (Protocol.setup host sink)) (h : Handle) (c : ContextId) :
    Operation → Prop
  | .message text => Protocol.Continues h (.message text)
  | .request j => Protocol.Continues h (.request j)
  | .resumeAll => True
  | .resume x => x = h ∧ d.lookup h = some c
  | _ => False

theorem IsResume.due {op : Operation} (ho : d.IsResume h c op) (t : ThreadId) (last : Answer) :
    ∃ todo, d.act t last (.begin op) = some (d, .lock :: todo, .none) ∧
      ∀ rest ans, Due h c ⟨todo ++ rest, ans⟩ := by
  cases op with
  | message | request => exact ⟨_, rfl, fun rest ans => .entering ho⟩
  | resumeAll => exact ⟨_, rfl, fun rest ans => .sweeping⟩
  | resume =>
    obtain ⟨rfl, hl⟩ := ho
    refine ⟨[.resumeOne c, .unlock, .give (.command (.ok ()))], ?_, fun rest ans => .resuming⟩
    simp only [Debugger.act, beginOperation, hl]
  | _ => exact absurd ho id

theorem IsResume.opens {op : Operation} (ho : (d.instant σ n).IsResume h c op)
    (hturn : σ n = .step u) (hag : ((d.instant σ n).thread u).agenda = .begin op :: rest)
    (hnk : n < k) (hstuck : ∀ m, n < m → m < k → σ m = .step u → (d.instant σ m).step u = none)
    (hs : (d.instant σ k).step u = some d') : (d.instant σ k).Opens u h c := by
  obtain ⟨todo, hact, hdue⟩ := ho.due u ((d.instant σ n).thread u).answer
  have ht : u < (d.instant σ n).threads.length :=
    lt_length_of_agenda (by rw [hag]; exact List.cons_ne_nil _ _)
  have hbegun : (d.instant σ (n + 1)).thread u = ⟨.lock :: (todo ++ rest), .none⟩ := by
    rw [instant_of_act hturn hag hact]
    exact thread_setThread_self ht _
  have hk := thread_of_stuck (by rw [hbegun]; exact List.cons_ne_nil _ _) hnk hstuck
  rw [hbegun] at hk
  refine ⟨todo ++ rest, by rw [hk], ?_, d', hs⟩
  rw [hk]
  exact hdue rest .none

/-- **No resume is lost.** Every notice of a pause belongs to a hit. At every instant at which
nobody who holds the lock is in a hook event, there have been as many notices for a context as
pauses and refusals of the closed context. A request to resume, a resume, and a resume of all open a
section as soon as their thread gets the lock. And a section that resumes a registered context, and
that opens after a notice, finds the pause of that hit, or finds it resumed; it does not end and is
not held up before it leaves the context running, and resumes it if its thread gets turn after
turn. -/
theorem no_resume_lost (ha : d.Attended σ f) :
    (∀ n t text rest h name b e,
      ((d.instant σ n).thread t).agenda = .begin (.send text) :: rest → (∃ p, .logic p ∈ rest) →
      text = (Protocol.Notice.paused h name b e).json.text →
      ∃ c ev, (d.instant σ n).Announces t c ev) ∧
    (∀ n, (∀ t, (d.instant σ n).Holds t →
      ∀ c ev, .decide c ev ∉ ((d.instant σ n).thread t).agenda) →
      ∀ c, d.tally σ (fun d t => ∃ ev, d.Announces t c ev) n =
        d.tally σ (fun d t => ∃ ev, d.Pauses t c ev) n +
          d.tally σ (fun d t => ∃ ev, d.Refuses t c ev) n) ∧
    (∀ n k u h c op rest d', (d.instant σ n).IsResume h c op → σ n = .step u →
      ((d.instant σ n).thread u).agenda = .begin op :: rest → n < k →
      (∀ m, n < m → m < k → σ m = .step u → (d.instant σ m).step u = none) →
      (d.instant σ k).step u = some d' → (d.instant σ k).Opens u h c) ∧
    ∀ i j t u h c ev, σ i = .step t → (d.instant σ i).Announces t c ev → i < j →
      σ j = .step u → (d.instant σ j).Opens u h c → (h, c) ∈ (d.instant σ j).registry →
      d.Stands σ i j t c ev ∧
      (∀ n, j < n → (h, c) ∈ (d.instant σ n).registry →
        ((d.instant σ n).Holds u ∧ ∃ d', (d.instant σ n).step u = some d') ∨
          ∃ m, j < m ∧ m < n ∧ d.Resumed σ m u h c ∧ d.Stands σ i m t c ev) ∧
      ((∀ k, ∃ n, k ≤ n ∧ σ n = .step u) → (∀ n, j < n → (h, c) ∈ (d.instant σ n).registry) →
        ∃ m, j < m ∧ d.Resumed σ m u h c ∧ d.Stands σ i m t c ev) := by
  refine ⟨fun n t text rest h name b e hag hcall htext => ha.announces htext hag hcall,
    fun n hquiet c => ?_,
    fun n k u h c op rest d' ho hturn hag hnk hstuck hs => ho.opens hturn hag hnk hstuck hs,
    fun i j t u h c ev hi hann hij hj ho hreg => ⟨?_, fun n hjn hn => ?_, fun hfair hstays => ?_⟩⟩
  · have hnone : ¬ ∃ t, Told c ((d.instant σ n).thread t) := by
      rintro ⟨t, htold⟩
      obtain ⟨ev, hmem⟩ := htold.decide_mem
      exact hquiet t ((ha.initial.disciplined.instant σ n).holds_of_told htold) c ev hmem
    rw [ha.count c n, if_neg hnone, Nat.add_zero]
  · exact ha.stands_of_opens hi hann hij (mem_registered.2 ⟨h, hreg⟩) ho
  · rcases ho.due_or_resumed ha.initial hj hreg hjn hn with hdue | ⟨m, hjm, hmn, hr⟩
    · have hd := ha.initial.disciplined.instant σ n
      exact .inl ⟨hd.holds_of_due hdue, hd.step_of_due hdue⟩
    · exact .inr ⟨m, hjm, hmn, hr, ha.stands_of_due hi hann (Nat.lt_trans hij hjm)
        (mem_registered.2 ⟨h, hr.entry⟩) hr.due⟩
  · have hdue : Due h c ((d.instant σ (j + 1)).thread u) := by
      rcases ho.due_or_resumed ha.initial hj hreg (Nat.lt_succ_self j)
        (hstays _ (Nat.lt_succ_self j)) with hdue | ⟨m, hjm, hmj, -⟩
      · exact hdue
      · omega
    obtain ⟨m, hjm, hr⟩ := hdue.resumed ha.initial hfair hstays
    exact ⟨m, hjm, hr, ha.stands_of_due hi hann (Nat.lt_trans hij hjm)
      (mem_registered.2 ⟨h, hr.entry⟩) hr.due⟩

/-! ## A run -/

theorem Leads.hook {S : Setup} {d : Debugger S} {a : Action S} {todo : List (Action S)}
    {r : Hook.Report} (h : d.Leads a todo) {x : Handle} (hmem : .begin (.hook x r) ∈ todo) :
    (∃ code, a = .host code) ∨
      ∃ p s last next, a = .logic p ∧ (S.logic.step s p last).2 = .use (.hook x r) next := by
  rcases h.begin hmem with
    ⟨x', name, -, hop⟩ | ⟨x', -, hop⟩ | ⟨code, x', report, ha, -⟩ | hlogic
  · cases hop
  · cases hop
  · exact .inl ⟨code, ha⟩
  · exact .inr hlogic

theorem hook_of_calls (hd : d.Initial)
    (hquiet : ∀ s code x r next, (host.step s code).2 ≠ .raise x r next)
    (hcalls : ∀ n t x r, σ n = .call t (.hook x r) → t = f x) (n : Nat) (t : ThreadId) (x : Handle)
    (r : Hook.Report) (hmem : .begin (.hook x r) ∈ ((d.instant σ n).thread t).agenda) :
    t = f x := by
  have hall := agenda_invariant (σ := σ)
    (P := fun t as => ∀ x r, .begin (.hook x r) ∈ as → t = f x) hd
    (fun t x r h => absurd h List.not_mem_nil)
    (fun n t op hσ x r h => by
      obtain rfl := Action.begin.inj (List.mem_singleton.1 h)
      exact hcalls n t x r hσ)
    (fun n t a rest e todo ans _ hact hp x r h => by
      rcases List.mem_append.1 h with h | h
      · rcases (act_leads hact).hook h with ⟨code, rfl⟩ | ⟨p, s, last, next, -, hu⟩
        · simp only [Debugger.act] at hact
          split at hact
          · rename_i hmove
            exact absurd hmove (hquiet _ _ _ _ _)
          · cases hact
            simp at h
          · cases hact
            exact absurd h List.not_mem_nil
        · rcases Protocol.step_use hu with ⟨text, v, hop, -⟩ | ⟨hop, -⟩
          · cases hop
          · exact absurd hop (by simp [Operation.isAsked])
      · exact hp x r (List.mem_cons_of_mem _ h)) n t
  exact hall x r hmem

end Debugger

namespace Rehearsal

/-- A sink that keeps everything. -/
def ledger : Sink where
  State := List String
  send kept text := (text :: kept, .ok ())

/-- A debugger with two threads, a breakpoint at the function `f` and a client
that is told of everything. -/
def attendedDebugger : Debugger (Protocol.setup host ledger) where
  host := ({} : PlannedHost)
  logic := { functions := ["f"] }
  sink := ([] : List String)
  threads := [{}, {}]

/-- A request to resume the first execution. -/
def goOn : Json :=
  .object [("cmd", .string "continue"), ("data", .object [("context", .string "0x1")])]

open Debugger (Turn Schedule)

/-- The first execution is registered and calls `f`; before the client is told of it, the client
asks to resume it already. -/
def race : Schedule := .ofTurns <|
  .call 0 (.start ⟨1⟩ "a") :: .replicate 11 (.step 0) ++
  .call 1 (.hook ⟨1⟩ callOfF) :: .replicate 6 (.step 1) ++
  .call 0 (.request goOn) :: .step 0 :: .step 1 :: .step 0 :: .replicate 5 (.step 1) ++
  .replicate 6 (.step 0)

variable {x : Thread (Protocol.setup host ledger)}

/-- Whether a thread is about to send a text in a hit at the call of `f`. -/
def telling (x : Thread (Protocol.setup host ledger)) : Bool :=
  match x.agenda with
  | .begin (.send _) :: rest => rest.any fun
    | .decide c e => c == 0 && e == .ofReport callOfF
    | _ => false
  | _ => false

theorem telling_eq (hx : telling x = true) : ∃ text rest,
    x.agenda = .begin (.send text) :: rest ∧ .decide 0 (.ofReport callOfF) ∈ rest := by
  unfold telling at hx
  split at hx
  · rename_i text rest hag
    refine ⟨text, rest, hag, ?_⟩
    obtain ⟨a, ha, hb⟩ := List.any_eq_true.1 hx
    split at hb
    · rename_i c e
      rw [Bool.and_eq_true] at hb
      obtain rfl := beq_iff_eq.1 hb.1
      obtain rfl := beq_iff_eq.1 hb.2
      exact ha
    · cases hb
  · cases hx

theorem race_call {n : Nat} {t : ThreadId} {op : Operation} (h : race n = .call t op) :
    (t = 0 ∧ op = .start ⟨1⟩ "a") ∨ (t = 1 ∧ op = .hook ⟨1⟩ callOfF) ∨
      (t = 0 ∧ op = .request goOn) := by
  rcases Schedule.ofTurns_mem _ n with hmem | hmem
  · have hn : race n ∈ _ := hmem
    rw [h] at hn
    simpa using hn
  · have hn : race n = .step 0 := hmem
    rw [h] at hn
    cases hn

theorem attendedDebugger_initial : attendedDebugger.Initial where
  registry := rfl
  contexts := rfl
  dispatch := rfl
  idle
    | 0 | 1 => rfl
    | t + 2 => by simp [attendedDebugger, Debugger.thread]

theorem attended_of_calls {σ : Schedule} (hhook : ∀ n t h r, σ n = .call t (.hook h r) → t = 1)
    (hpause : ∀ n t h r, σ n ≠ .call t (.pause h r))
    (hask : ∀ n t h r, σ n ≠ .call t (.breakpoint h r)) :
    attendedDebugger.Attended σ fun _ => 1 where
  initial := attendedDebugger_initial
  accepts s text := rfl
  hooks n t h r rest hag := by
    refine Debugger.hook_of_calls (f := fun _ => 1) attendedDebugger_initial
      (fun s code x r next hmove => ?_) hhook n t h r (by rw [hag]; exact List.mem_cons_self)
    cases code <;> cases hmove
  pauses := hpause
  asks := hask

theorem race_attended : attendedDebugger.Attended race fun _ => 1 := by
  refine attended_of_calls (fun n t h r hcall => ?_) (fun n t h r hcall => ?_)
    fun n t h r hcall => ?_
  · rcases race_call hcall with ⟨-, hop⟩ | ⟨rfl, -⟩ | ⟨-, hop⟩
    · cases hop
    · rfl
    · cases hop
  · rcases race_call hcall with ⟨-, hop⟩ | ⟨-, hop⟩ | ⟨-, hop⟩ <;> cases hop
  · rcases race_call hcall with ⟨-, hop⟩ | ⟨-, hop⟩ | ⟨-, hop⟩ <;> cases hop

/-- The request to resume finds the pause that it raced, and resumes the execution. -/
theorem race_won :
    attendedDebugger.tally race (fun d t => ∃ ev, d.Announces t 0 ev) 28 =
      attendedDebugger.tally race (fun d t => ∃ ev, d.Pauses t 0 ev) 28 +
        attendedDebugger.tally race (fun d t => ∃ ev, d.Refuses t 0 ev) 28 ∧
    (attendedDebugger.instant race 28).Opens 0 ⟨1⟩ 0 ∧
    attendedDebugger.Stands race 21 28 1 0 (.ofReport callOfF) ∧
    ∃ m, 28 < m ∧ m < 38 ∧ attendedDebugger.Resumed race m 0 ⟨1⟩ 0 := by
  obtain ⟨-, hbalance, hopens, hsection⟩ := Debugger.no_resume_lost race_attended
  have hann : (attendedDebugger.instant race 21).Announces 1 0 (.ofReport callOfF) := by
    obtain ⟨text, rest, hag, hmem⟩ := telling_eq
      (x := (attendedDebugger.instant race 21).thread 1) (by decide +kernel)
    exact .of_decide_mem race_attended hag hmem
  have hopen : (attendedDebugger.instant race 28).Opens 0 ⟨1⟩ 0 := by
    have hread : Protocol.readCommand goOn = .ok (.use (.resume ⟨1⟩)) := rfl
    have hidle : ((attendedDebugger.instant race 19).thread 0).agenda.isEmpty = true := by
      decide +kernel
    have hbegin : ((attendedDebugger.instant race 20).thread 0).agenda = [.begin (.request goOn)] :=
      Debugger.agenda_of_call rfl (List.isEmpty_iff.1 hidle) (by decide +kernel)
    -- the other thread holds the lock until turn 28
    have hheld : ∀ m < 28, 20 < m → ((attendedDebugger.instant race m).step 0).isNone = true := by
      decide +kernel
    have hstep : ((attendedDebugger.instant race 28).step 0).isSome = true := by decide +kernel
    obtain ⟨d', hs⟩ := Option.isSome_iff_exists.1 hstep
    exact hopens 20 28 0 ⟨1⟩ 0 (.request goOn) [] d' hread rfl hbegin (by decide)
      (fun m hm hlt _ => Option.isNone_iff_eq_none.1 (hheld m hlt hm)) hs
  obtain ⟨hstands, hends, -⟩ := hsection 21 28 1 0 ⟨1⟩ 0 (.ofReport callOfF) rfl hann (by decide)
    rfl hopen (by decide +kernel)
  refine ⟨hbalance 28 (fun t ht => ?_) 0, hopen, hstands, ?_⟩
  · have hfree : (attendedDebugger.instant race 28).dispatch = none := by decide +kernel
    have hheld := Debugger.held_of_dispatch_none hfree t
    unfold Debugger.Holds at ht
    omega
  · rcases hends 38 (by decide) (by decide +kernel) with ⟨hholds, -⟩ | ⟨m, hm, hlt, hr, -⟩
    · exact absurd hholds (by decide +kernel)
    · exact ⟨m, hm, hlt, hr⟩

end Rehearsal

end ScriptDebug
