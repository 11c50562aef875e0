import ScriptDebug.Proofs.Sight
import ScriptDebug.Rehearsal.Host
import ScriptDebug.Rehearsal.Sink

/-!
# Accesses to paused stacks

Every access to the host on behalf of a client goes back to a turn that found the context paused
(`Backed`), and the context is paused from then on until the access ends. The host may raise hook
events on the way; these announce and decide, but what is paused already does not pause again.
-/

namespace ScriptDebug

namespace Debugger

section Act

variable {S : Setup} {d e : Debugger S} {t : ThreadId} {c : ContextId} {x : Context}
  {a b : Action S} {todo : List (Action S)} {last ans : Answer}

theorem pause_of_isPaused (hx : x.isPaused = true) (e : Hook.Event) : ∀ y, x.pause e ≠ .ok y := by
  intro y h
  unfold Context.pause at h
  rw [if_pos hx] at h
  split at h <;> cases h

theorem act_decide_of_isPaused {k : ContextId} {ev : Hook.Event}
    (h : d.act t last (.decide k ev) = some (e, todo, ans)) (hx : d.contexts[c]? = some x)
    (hp : x.isPaused = true) : e.contexts[c]? = some x := by
  obtain ⟨y, hy, rfl | hset⟩ := act_sets h hx
  · exact hy
  · cases hset with
    | decide hpause => exact absurd hpause (pause_of_isPaused hp ev y)

end Act

section Run

variable {host : Host} {sink : Sink} {d e : Debugger (Protocol.setup host sink)} {σ : Schedule}
  {t : ThreadId} {c : ContextId} {n m : Nat} {x : Context} {op : Operation}
  {a b : Action (Protocol.setup host sink)} {last ans : Answer}
  {pre post rest todo : List (Action (Protocol.setup host sink))}

theorem act_keeps_paused (h : d.act t last a = some (e, todo, ans))
    (ha : a.isRaised = true ∨ a.accesses = true) (hx : d.contexts[c]? = some x)
    (hp : x.isPaused = true) :
    ∃ y, e.contexts[c]? = some y ∧ y.handle = x.handle ∧ y.isPaused = true := by
  have hkeep : ¬ a.alters c →
      ∃ y, e.contexts[c]? = some y ∧ y.handle = x.handle ∧ y.isPaused = true := by
    intro hn
    obtain ⟨y, hy, hh, -, hst, -⟩ := act_context h hx
    exact ⟨y, hy, hh, Context.isPaused_of_stance (hst hn) hp⟩
  cases a with
  | decide k ev => exact ⟨x, act_decide_of_isPaused h hx hp, rfl, hp⟩
  | close | pauseAt | resumeOne | resumeEach =>
    rcases ha with ha | ha <;> exact absurd ha (by simp [Action.isRaised, Action.accesses])
  | _ => exact hkeep id

theorem eq_last_of_singleton {α : Type} {y z : α} {l r : List α} (h : [y] = l ++ z :: r) :
    z = y ∧ r = [] := by
  cases l with
  | nil =>
    cases h
    exact ⟨rfl, rfl⟩
  | cons w l =>
    rw [List.cons_append, List.cons_eq_cons] at h
    exact absurd h.2.symm (by simp)

theorem eq_last_of_pair {α : Type} {x y z : α} {l r : List α} (h : [x, y] = l ++ z :: r)
    (hz : z ≠ x) : z = y ∧ r = [] := by
  cases l with
  | nil =>
    cases h
    exact absurd rfl hz
  | cons w l =>
    rw [List.cons_append, List.cons_eq_cons] at h
    exact eq_last_of_singleton h.2

theorem Leads.access (h : d.Leads b todo) (htodo : todo = pre ++ a :: post)
    (ha : a.accesses = true) :
    (∃ c op, b = .inspect c op ∧ op.makes a ∧ post = op.look.tail) ∨
      (b.accesses = true ∧ post = [] ∧ ∀ op : Operation, op.makes b → op.makes a) ∨
      ∃ x, b = .begin (.run x) ∧ ∀ p, .logic p ∉ post := by
  have hmem : a ∈ todo := by
    rw [htodo]
    exact List.mem_append_right _ List.mem_cons_self
  cases b with
  | begin op =>
    cases op with
    | run x =>
      refine .inr (.inr ⟨x, rfl, fun p hp => ?_⟩)
      obtain rfl | ⟨code, rfl⟩ := h
      · exact absurd hmem List.not_mem_nil
      · have hp : Action.logic p ∈ pre ++ a :: post :=
          List.mem_append_right _ (List.mem_cons_of_mem _ hp)
        rw [← htodo] at hp
        simp at hp
    | _ => exfalso; grind [Leads, OperationLeads, Action.dispatch, Action.accesses]
  | inspect c op =>
    refine .inl ⟨c, op, rfl, ?_⟩
    obtain rfl | rfl := h
    · exact absurd hmem List.not_mem_nil
    · cases pre with
      | nil =>
        rw [htodo]
        refine ⟨?_, rfl⟩
        cases op <;> cases htodo
        · exact .inr ⟨_, _, rfl⟩
        · exact .inl ⟨_, _, rfl⟩
        · rfl
        · rfl
      | cons b pre =>
        -- behind the access only its result is shown
        have htail : a ∈ op.look.tail := by
          rw [htodo]
          exact List.mem_append_right _ List.mem_cons_self
        cases op <;> simp only [Operation.look, List.tail_cons, List.tail_nil, List.mem_singleton,
          List.not_mem_nil] at htail
        all_goals exact absurd ha (by rw [htail]; simp [Action.accesses])
  | host code =>
    refine .inr (.inl ⟨rfl, ?_⟩)
    obtain rfl | ⟨code, rfl⟩ | ⟨x, r, next, rfl⟩ := h
    · exact absurd hmem List.not_mem_nil
    · obtain ⟨rfl, rfl⟩ := eq_last_of_singleton htodo
      exact ⟨rfl, fun op ho => ho⟩
    · obtain ⟨rfl, rfl⟩ :=
        eq_last_of_pair htodo (by rintro rfl; exact absurd ha (by simp [Action.accesses]))
      exact ⟨rfl, fun op ho => ho⟩
  | enumerate kind x frame index slots =>
    refine .inr (.inl ⟨rfl, ?_⟩)
    obtain rfl | ⟨slots, rfl⟩ := h
    · exact absurd hmem List.not_mem_nil
    · obtain ⟨rfl, rfl⟩ := eq_last_of_singleton htodo
      exact ⟨rfl, fun op ho => ho⟩
  | resumeEach cs k => cases cs <;> exfalso <;> grind [Leads, Action.accesses]
  | describe cs done => cases cs <;> exfalso <;> grind [Leads, Action.accesses]
  | _ => exfalso; grind [Leads, Action.dispatch, Action.accesses]

theorem logic_not_mem_look (p : Protocol.Point) :
    .logic p ∉ (op.look : List (Action (Protocol.setup host sink))) := by
  cases op <;> simp [Operation.look]

theorem act_inspect (h : d.act t last (.inspect c op) = some (e, todo, ans)) (hne : todo ≠ []) :
    e = d ∧ ∃ x, d.contexts[c]? = some x ∧ x.isPaused = true := by
  simp only [act] at h
  split at h
  · rename_i x hx
    split at h
    · rename_i hp
      cases h
      exact ⟨rfl, x, hx, hp⟩
    · cases h
      exact absurd rfl hne
  · cases h
    exact absurd rfl hne

/-! ## From the check to the end of the access -/

/-- **Backed.** An access goes back to turn `m`, at which its operation found the context paused,
and the context has been paused since. -/
structure Backed (d : Debugger (Protocol.setup host sink)) (σ : Schedule) (n : Nat) (t : ThreadId)
    (a : Action (Protocol.setup host sink)) (post : List (Action (Protocol.setup host sink)))
    (m : Nat) (c : ContextId) (op : Operation) (rest : List (Action (Protocol.setup host sink))) :
    Prop where
  before : m < n
  turn : σ m = .step t
  check : ((d.instant σ m).thread t).agenda = .inspect c op :: rest
  below : post = op.look.tail ++ rest
  makes : op.makes a
  paused : ∀ k, m ≤ k → k ≤ n → ∃ x, (d.instant σ k).contexts[c]? = some x ∧
    op.handle? = some x.handle ∧ x.isPaused = true

theorem Backed.later (hb : d.Backed σ n t a post m c op rest) (hm : op.makes a → op.makes b)
    (hx : ∃ x, (d.instant σ (n + 1)).contexts[c]? = some x ∧ op.handle? = some x.handle ∧
      x.isPaused = true) : d.Backed σ (n + 1) t b post m c op rest where
  before := Nat.lt_succ_of_lt hb.before
  turn := hb.turn
  check := hb.check
  below := hb.below
  makes := hm hb.makes
  paused k hmk hkn := by
    rcases Nat.lt_or_eq_of_le hkn with hkn | rfl
    · exact hb.paused k hmk (Nat.lt_succ_iff.1 hkn)
    · exact hx

/-- **One step of the accessing thread.** -/
theorem Backed.step (hb : d.Backed σ n t a post m c op rest)
    {b' : Action (Protocol.setup host sink)} {rest' : List (Action (Protocol.setup host sink))}
    (hact : (d.instant σ n).act t last b' = some (e, todo, ans))
    (hn : d.instant σ (n + 1) = e.setThread t ⟨todo ++ rest', ans⟩)
    (hk : b'.isRaised = true ∨ b'.accesses = true) (hm : op.makes a → op.makes b) :
    d.Backed σ (n + 1) t b post m c op rest := by
  obtain ⟨x, hx, hop, hp⟩ := hb.paused n (Nat.le_of_lt hb.before) (Nat.le_refl n)
  obtain ⟨y, hy, hh, hyp⟩ := act_keeps_paused hact hk hx hp
  refine hb.later hm ⟨y, ?_, by rw [hop, hh], hyp⟩
  rw [hn]
  exact hy

/-- **Answerable.** Whatever a thread accesses in a call of the client logic is backed, and no other
thread can alter the context. -/
def Answerable (d : Debugger (Protocol.setup host sink)) (σ : Schedule) (n : Nat)
    (t : ThreadId) : Prop :=
  ∀ pre post a, ((d.instant σ n).thread t).agenda = pre ++ a :: post → a.accesses = true →
    (∃ p, .logic p ∈ post) →
    ∃ m c op rest, d.Backed σ n t a post m c op rest ∧ (d.instant σ n).Shielded t c

theorem Initial.holds_of_call (hd : d.Initial)
    (hag : ((d.instant σ n).thread t).agenda = pre ++ post) (hcall : ∃ p, .logic p ∈ post) :
    (d.instant σ n).Holds t := by
  obtain ⟨p, hp⟩ := hcall
  refine (hd.disciplined.instant σ n).holds_of_logic (p := p) ?_
  rw [hag]
  exact List.mem_append_right pre hp

/-- What comes above an access that is under way is raised by the host. -/
theorem Initial.isRaised_of_access (hd : d.Initial)
    (hb : ((d.instant σ n).thread t).agenda = b :: rest) (hmem : a ∈ rest)
    (ha : a.accesses = true) : b.isRaised = true := by
  have hp := hd.pairwise_above (σ := σ) n t
  rw [hb] at hp
  have habove := (List.pairwise_cons.1 hp).1 a hmem
  cases a with
  | host code => exact habove
  | enumerate | fetch => exact absurd habove (by simp [Action.above, Action.isAtomic])
  | _ => exact absurd ha (by simp [Action.accesses])

theorem Initial.backed_of_check (hd : d.Initial) (ho : HandsOff (Protocol.setup host sink) σ)
    (hturn : σ n = .step t) (hb : ((d.instant σ n).thread t).agenda = .inspect c op :: rest)
    (hact : (d.instant σ n).act t last (.inspect c op) = some (e, todo, ans)) (htodo : todo ≠ [])
    (hn : d.instant σ (n + 1) = e.setThread t ⟨todo ++ rest, ans⟩) (hm : op.makes a)
    (hcall : ∃ p, .logic p ∈ rest) :
    d.Backed σ (n + 1) t a (op.look.tail ++ rest) n c op rest ∧ (d.instant σ n).Shielded t c := by
  obtain ⟨hs, x, hx, hop⟩ := (hd.sighted ho n t).head _ rest hb hcall
  obtain ⟨he, y, hy, hp⟩ := act_inspect hact htodo
  obtain rfl : y = x := Option.some.inj (hy.symm.trans hx)
  have hcontexts : (d.instant σ (n + 1)).contexts = (d.instant σ n).contexts := by
    rw [hn, he]
    rfl
  refine ⟨⟨Nat.lt_succ_self n, hturn, hb, rfl, hm, fun k hnk hkn => ⟨y, ?_, hop, hp⟩⟩, hs⟩
  rcases Nat.lt_or_eq_of_le hkn with hkn | rfl
  · obtain rfl : k = n := Nat.le_antisymm (Nat.lt_succ_iff.1 hkn) hnk
    exact hy
  · rw [hcontexts]
    exact hy

/-- **A step of the thread** leads from an access that is backed to one that is. -/
theorem Answerable.step (ih : d.Answerable σ n t) (hd : d.Initial)
    (ho : HandsOff (Protocol.setup host sink) σ) (hturn : σ n = .step t)
    (hst : (d.instant σ n).step t = some (d.instant σ (n + 1))) : d.Answerable σ (n + 1) t := by
  intro pre post a hag ha hcall
  obtain ⟨b, rest', e, todo, ans, hb, hact, hn, hself, -⟩ := step_cases hst
  rw [hself] at hag
  have hag : todo ++ rest' = pre ++ a :: post := hag
  -- the access was under way below the action
  have hbelow : ∀ as, rest' = as ++ a :: post →
      ∃ m c op rest, d.Backed σ (n + 1) t a post m c op rest ∧
        (d.instant σ (n + 1)).Shielded t c := by
    intro as has
    have hunder : ((d.instant σ n).thread t).agenda = (b :: as) ++ a :: post := by
      rw [hb, has]
      rfl
    have hraised :=
      hd.isRaised_of_access hb (by rw [has]; exact List.mem_append_right as List.mem_cons_self) ha
    have hholds := hd.holds_of_call hunder (hcall.imp fun p => List.mem_cons_of_mem a)
    obtain ⟨m, c, op, rest, hback, hs⟩ := ih _ _ _ hunder ha hcall
    exact ⟨m, c, op, rest, hback.step hact hn (.inl hraised) id, hs.step hholds hst⟩
  rcases List.append_eq_append_iff.1 hag with ⟨as, -, hrest⟩ | ⟨as, htodo, hpost⟩
  · exact hbelow as hrest
  cases as with
  | nil => exact hbelow [] hpost.symm
  | cons a' as =>
    obtain ⟨rfl, rfl⟩ := List.cons_eq_cons.1 hpost
    -- the action leads to the access
    have hhead : ((d.instant σ n).thread t).agenda = [b] ++ rest' := hb
    rcases (act_leads hact).access htodo ha with
      ⟨c, op, rfl, hm, rfl⟩ | ⟨hba, rfl, hm⟩ | ⟨x, rfl, hnot⟩
    · have hrest : ∃ p, .logic p ∈ rest' := by
        obtain ⟨p, hp⟩ := hcall
        rcases List.mem_append.1 hp with hp | hp
        · exact absurd (List.mem_of_mem_tail hp) (logic_not_mem_look p)
        · exact ⟨p, hp⟩
      obtain ⟨hback, hs⟩ := hd.backed_of_check ho hturn hb hact (by rw [htodo]; simp) hn hm hrest
      exact ⟨n, c, op, rest', hback, hs.step (hd.holds_of_call hhead hrest) hst⟩
    · obtain ⟨m, c, op, rest, hback, hs⟩ := ih [] _ b hb hba hcall
      exact ⟨m, c, op, rest, hback.step hact hn (.inr hba) (hm op),
        hs.step (hd.holds_of_call hhead hcall) hst⟩
    · -- a run is no part of a call
      obtain ⟨p, hp⟩ := hcall
      have hp : .logic p ∈ rest' := (List.mem_append.1 hp).resolve_left (hnot p)
      have habove := hd.pairwise_above (σ := σ) n t
      rw [hb] at habove
      exact absurd ((List.pairwise_cons.1 habove).1 _ hp)
        (by simp [Action.above, Action.isInner, Action.isRaised, Action.isAsked, Operation.isAsked])

/-- **A turn of another thread** leaves what is backed as it is. -/
theorem Answerable.take (ih : d.Answerable σ n t) (hd : d.Initial)
    (ho : HandsOff (Protocol.setup host sink) σ) (hturn : σ n ≠ .step t) :
    d.Answerable σ (n + 1) t := by
  intro pre post a hag ha hcall
  have hdisc := hd.disciplined.instant σ n
  rcases thread_take_ne (d.instant σ n) hturn with hthr | ⟨op, -, -, hthr⟩ <;>
    rw [instant_succ, hthr] at hag
  · obtain ⟨m, c, op, rest, hb, hs⟩ := ih pre post a hag ha hcall
    have ht := hd.holds_of_call hag (hcall.imp fun p => List.mem_cons_of_mem a)
    obtain ⟨x, hx, hop, hp⟩ := hb.paused n (Nat.le_of_lt hb.before) (Nat.le_refl n)
    obtain ⟨y, hy, hh, hst⟩ := hs.stance_take hdisc
      (fun u c e => ho.pauseAt_not_mem hd n u c e) ht hturn hx
    have hyp : y.isPaused = true := Context.isPaused_of_stance hst hp
    rw [instant_succ]
    refine ⟨m, c, op, rest, hb.later id ⟨y, ?_, by rw [hop, hh], hyp⟩, hs.take ht _⟩
    rw [instant_succ]
    exact hy
  · obtain ⟨rfl, -⟩ := eq_last_of_singleton hag
    exact absurd ha (by simp [Action.accesses])

theorem Initial.answerable (hd : d.Initial) (ho : HandsOff (Protocol.setup host sink) σ) (n : Nat)
    (t : ThreadId) :
    d.Answerable σ n t := by
  induction n with
  | zero =>
    intro pre post a hag
    rw [instant_zero, hd.idle t] at hag
    exact absurd hag (by simp)
  | succ n ih =>
    by_cases hturn : σ n = .step t
    · cases hst : (d.instant σ n).step t with
      | none =>
        have hn : d.instant σ (n + 1) = d.instant σ n := instant_of_stuck hturn hst
        intro pre post a hag ha hcall
        rw [hn] at hag ⊢
        obtain ⟨m, c, op, rest, hb, hs⟩ := ih pre post a hag ha hcall
        refine ⟨m, c, op, rest, hb.later id ?_, hs⟩
        rw [hn]
        exact hb.paused n (Nat.le_of_lt hb.before) (Nat.le_refl n)
      | some d' =>
        exact ih.step hd ho hturn (hst.trans (congrArg some (instant_of_step hturn hst).symm))
    · exact ih.take hd ho hturn

end Run

/-- **The dispatch lock freezes the pause state.** Whatever the client logic is, a call of it runs
under the lock, and while a thread holds the lock no turn of another thread changes the run state or
the pause event of a context that is registered at some instant of that time. So every access that
the JSON protocol makes to a stack goes back to a turn that found the context of that execution
paused, and the context stays paused until the access ends; and in every listing that the protocol
replies with, a context has a location exactly when its state is paused. -/
theorem dispatch_lock_freezes_pause_state :
    (∀ (S : Setup) (d : Debugger S) (σ : Schedule), d.Initial → HandsOff S σ → ∀ t : ThreadId,
      (∀ n, (d.instant σ n).InCall t → (d.instant σ n).Holds t) ∧
      ∀ (i j m k : Nat) (c : ContextId) (x : Context),
        (∀ n, i ≤ n → n ≤ j → (d.instant σ n).Holds t) →
        i ≤ m → m ≤ j → c ∈ (d.instant σ m).registered →
        i ≤ k → k < j → σ k ≠ .step t → (d.instant σ k).contexts[c]? = some x →
        ∃ y, (d.instant σ (k + 1)).contexts[c]? = some y ∧ y.state = x.state ∧
          y.pausedAt = x.pausedAt) ∧
    ∀ (host : Host) (sink : Sink) (d : Debugger (Protocol.setup host sink)) (σ : Schedule),
      d.Initial → (∀ n t h r, σ n ≠ .call t (.pause h r)) → ∀ (n : Nat) (t : ThreadId),
      (∀ (pre post : List (Action (Protocol.setup host sink))) a,
        ((d.instant σ n).thread t).agenda = pre ++ a :: post → a.accesses = true →
        (∃ p, .logic p ∈ post) → ∃ m c op rest, d.Backed σ n t a post m c op rest) ∧
      ∀ rest route request infos,
        (d.instant σ n).thread t = ⟨.logic (.answering route request) :: rest, .contexts infos⟩ →
        ∀ i ∈ infos, i.location.isSome ↔ i.state = .paused := by
  refine ⟨fun S d σ hd ho t => ⟨fun n hcall => ?_, fun i j m k c x ht him _ hc hik hkj hk hx => ?_⟩,
    fun host sink d σ hd hσ n t =>
      ⟨fun pre post a hag ha hcall => ?_, fun rest route request infos hth => ?_⟩⟩
  · obtain ⟨p, hp⟩ := hcall
    exact (hd.disciplined.instant σ n).holds_of_logic hp
  · obtain ⟨y, hy, hst⟩ := hd.stance_frozen ho ht him hc hik hkj hk hx
    exact ⟨y, hy, congrArg Prod.fst hst, congrArg Prod.snd hst⟩
  · obtain ⟨m, c, op, rest, hb, -⟩ :=
      hd.answerable (Protocol.handsOff hσ) n t pre post a hag ha hcall
    exact ⟨m, c, op, rest, hb⟩
  · have hcall : (d.instant σ n).InCall t :=
      ⟨Protocol.Point.answering route request, by rw [hth]; exact List.mem_cons_self⟩
    exact hd.coherent (Protocol.handsOff hσ) hcall (by rw [hth])

/-! ## A run -/

end Debugger

namespace Rehearsal

/-- A debugger with three threads, a breakpoint at the function `f` and a client
that takes every message. -/
def debugger : Debugger (Protocol.setup host sink) where
  host := ({} : PlannedHost)
  logic := { functions := ["f"] }
  sink := ({} : SinkState)
  threads := [{}, {}, {}]

/-- A call of the function `f` in a script. -/
def callOfF : Hook.Report := ⟨0, some "f", none, "Lua", "@main.lua", 3, 0, 1, 9⟩

/-- A request to evaluate `x` in the first execution. -/
def evaluateX : Json :=
  .object [("cmd", .string "eval"),
    ("data", .object [("context", .string "0x1"), ("expr_str", .string "x")])]

open Debugger (Turn Schedule)

/-- The first execution is registered and pauses at `f`; the contexts are listed; and while `x` is
evaluated, another thread takes the execution out of the registry. -/
def evaluation : Schedule := .ofTurns <|
  .call 0 (.start ⟨1⟩ "a") :: .replicate 11 (.step 0) ++
  .call 1 (.hook ⟨1⟩ callOfF) :: .replicate 13 (.step 1) ++
  .call 0 (.request (.object [("cmd", .string "contexts")])) :: .replicate 11 (.step 0) ++
  .call 0 (.request evaluateX) :: .replicate 6 (.step 0) ++
  [.call 2 (.stop ⟨1⟩), .step 2]

variable {h : Host} {s : Sink}

/-- Whether a thread accesses the host in a call of the client logic. -/
def accessing (x : Thread (Protocol.setup h s)) : Bool :=
  match x.agenda with
  | a :: .showValue :: .logic _ :: _ => a.accesses
  | _ => false

/-- Whether a thread is about to reply with a listing of the contexts. -/
def listing (x : Thread (Protocol.setup h s)) : Bool :=
  match x with
  | ⟨.logic (.answering _ _) :: _, .contexts _⟩ => true
  | _ => false

theorem accessing_eq {x : Thread (Protocol.setup h s)} (hx : accessing x = true) :
    ∃ a p rest, x.agenda = [] ++ a :: .showValue :: .logic p :: rest ∧ a.accesses = true := by
  unfold accessing at hx
  split at hx
  · rename_i a p rest hag
    exact ⟨a, p, rest, hag, hx⟩
  · cases hx

theorem listing_eq {x : Thread (Protocol.setup h s)} (hx : listing x = true) :
    ∃ rest route request infos,
      x = ⟨.logic (Protocol.Point.answering route request) :: rest, .contexts infos⟩ := by
  unfold listing at hx
  split at hx
  · exact ⟨_, _, _, _, rfl⟩
  · cases hx

theorem debugger_initial : debugger.Initial where
  registry := rfl
  contexts := rfl
  dispatch := rfl
  idle
    | 0 | 1 | 2 => rfl
    | t + 3 => by simp [debugger, Debugger.thread]

theorem evaluation_handsOff (n : Nat) (t : ThreadId) (x : Handle) (r : Hook.Report) :
    evaluation n ≠ .call t (.pause x r) := by
  intro h
  rcases Schedule.ofTurns_mem _ n with hmem | hmem
  · have hn : evaluation n ∈ _ := hmem
    rw [h] at hn
    simp at hn
  · have hn : evaluation n = .step 0 := hmem
    rw [h] at hn
    cases hn

/-- The removal of the execution from the registry leaves it paused under the evaluation, the
evaluation is backed, and the listing before it is coherent. -/
theorem evaluation_frozen :
    (∃ y, (debugger.instant evaluation 47).contexts[0]? = some y ∧ y.state = .paused ∧
      y.pausedAt = some (.ofReport callOfF)) ∧
    (∃ a post m c op rest, debugger.Backed evaluation 46 0 a post m c op rest) ∧
    ∃ infos, ((debugger.instant evaluation 35).thread 0).answer = .contexts infos ∧
      ∀ i ∈ infos, i.location.isSome ↔ i.state = .paused := by
  obtain ⟨hfreeze, hprotocol⟩ := Debugger.dispatch_lock_freezes_pause_state
  have hoff : ∀ n t x r, evaluation n ≠ .call t (.pause x r) := evaluation_handsOff
  refine ⟨?_, ?_, ?_⟩
  · refine
      (hfreeze _ debugger evaluation debugger_initial (Protocol.handsOff hoff) 0).2 46 47 46 46 0
      ⟨⟨1⟩, "a", .paused, some (.ofReport callOfF), false, [1]⟩ (fun n hn hm => ?_)
      (Nat.le_refl 46) (Nat.le_succ 46) (by decide +kernel) (Nat.le_refl 46)
      (Nat.lt_succ_self 46) (by simp [evaluation, Schedule.ofTurns]) (by decide +kernel)
    rcases (by omega : n = 46 ∨ n = 47) with rfl | rfl <;> decide +kernel
  · obtain ⟨a, p, rest, hag, ha⟩ := accessing_eq
      (x := (debugger.instant evaluation 46).thread 0) (by decide +kernel)
    have hcall : ∃ q, .logic q ∈ (.showValue :: .logic p :: rest : List (Action _)) :=
      ⟨p, List.mem_cons_of_mem _ List.mem_cons_self⟩
    exact ⟨a, _,
      (hprotocol host sink debugger evaluation debugger_initial hoff 46 0).1 [] _ a hag ha hcall⟩
  · obtain ⟨rest, route, request, infos, hth⟩ := listing_eq
      (x := (debugger.instant evaluation 35).thread 0) (by decide +kernel)
    exact ⟨infos, by rw [hth],
      (hprotocol host sink debugger evaluation debugger_initial hoff 35 0).2
      rest route request infos hth⟩

end Rehearsal

end ScriptDebug
