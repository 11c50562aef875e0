import ScriptDebug.Context.Rendezvous
import ScriptDebug.Proofs.Registry

/-!
# What a rendezvous keeps

`Moves` lists what a turn can do. Every turn keeps the context consistent and the queue among the
waits (`Kept`), and the pauses of a run are matched by its releases, but for the one that stands
(`count_replies`). So nobody is queued at a running context, where no one would wake him. The
contexts of a debugger are such rendezvous, whatever its threads do (`Initial.reached`).
-/

namespace ScriptDebug

namespace Context

variable {c d : Context} {e : Hook.Event} {t : ThreadId}

theorem closed_wait : (c.wait t).1.closed = c.closed := by
  unfold wait
  split <;> rfl

theorem closed_resume : c.resume.1.closed = c.closed := by
  unfold resume
  split <;> rfl

theorem state_wait : (c.wait t).1.state = c.state := by
  unfold wait
  split <;> rfl

theorem pause_eq_ok (h : c.pause e = .ok d) :
    c.closed = false ∧
    c.state = .running ∧ d = { c with state := .paused, pausedAt := some e } := by
  unfold pause isPaused at h
  cases hc : c.closed <;> cases hs : c.state <;> rw [hc, hs] at h <;> cases h
  exact ⟨rfl, rfl, rfl⟩

end Context

namespace Rendezvous

open Context (Reply)

variable {r r' : Rendezvous} {turn : Turn} {turns : List Turn} {t : ThreadId} {reply : Reply}

/-- **What a turn can do.** -/
inductive Moves (r : Rendezvous) : Turn → Rendezvous → Reply → Prop
  | stay (turn : Turn) : Moves r turn r .pending
  | pause {e : Hook.Event} {x : Context} (t : ThreadId) (hx : r.context.pause e = .ok x) :
    Moves r (.call t (.pause e)) { r with context := x } .paused
  | refuse {e : Hook.Event} {why : Context.Refusal} (t : ThreadId)
      (hr : r.context.pause e = .error why) : Moves r (.call t (.pause e)) r (.refused why)
  | resume (t : ThreadId) :
    Moves r (.call t .resume) { r with context := r.context.resume.1 }
      (.released r.context.resume.2)
  | close (t : ThreadId) :
    Moves r (.call t .close) { r with context := r.context.close.1 } (.released r.context.close.2)
  | queue {turn : Turn} (t : ThreadId) (hp : r.context.state = .paused) :
    Moves r turn { context := (r.context.wait t).1, waiting := r.waiting.insert t } .pending
  | leave (t : ThreadId) : Moves r (.leave t) { r with context := r.context.wake t } .pending
  | finish {turn : Turn} (t : ThreadId) (hq : t ∈ r.waiting → t ∉ r.context.waiters)
      (hrun : r.context.state = .running) :
    Moves r turn { r with waiting := r.waiting.filter (· ≠ t) } .waited

theorem look_moves (turn : Turn) (hq : t ∈ r.waiting → t ∉ r.context.waiters) :
    r.Moves turn (r.look t).1 (r.look t).2 := by
  cases hs : r.context.state with
  | paused =>
    have hlook : r.look t =
        ({ context := (r.context.wait t).1, waiting := r.waiting.insert t }, .pending) := by
      simp [look, Context.wait, Context.isPaused, hs]
    rw [hlook]
    exact .queue t hs
  | running =>
    have hlook : r.look t = ({ r with waiting := r.waiting.filter (· ≠ t) }, .waited) := by
      simp [look, Context.wait, Context.isPaused, hs]
    rw [hlook]
    exact .finish t hq hs

theorem step_moves (r : Rendezvous) (turn : Turn) :
    r.Moves turn (r.step turn).1 (r.step turn).2 := by
  cases turn with
  | call t c =>
    by_cases ht : t ∈ r.waiting
    · simp only [step, if_pos ht]
      exact .stay _
    · simp only [step, if_neg ht]
      cases c with
      | pause e =>
        cases hp : r.context.pause e with
        | ok x =>
          simp only [call, hp]
          exact .pause t hp
        | error why =>
          simp only [call, hp]
          exact .refuse t hp
      | resume => exact .resume t
      | close => exact .close t
      | wait => exact look_moves _ fun h => absurd h ht
  | leave t => exact .leave t
  | look t =>
    by_cases ht : t ∈ r.waiting ∧ t ∉ r.context.waiters
    · simp only [step, if_pos ht]
      exact look_moves _ fun _ => ht.2
    · simp only [step, if_neg ht]
      exact .stay _

/-! ## What every turn keeps -/

/-- **Kept.** The context is consistent, and who is queued has not ended his wait. -/
structure Kept (r : Rendezvous) : Prop where
  consistent : r.context.Consistent
  queued : ∀ t ∈ r.context.waiters, t ∈ r.waiting

theorem kept_start (h : Handle) (name : String) : (start h name).Kept where
  consistent := Context.consistent_new h name
  queued _ ht := absurd ht List.not_mem_nil

/-- At a running context nobody is queued. -/
theorem Kept.not_queued (hk : r.Kept) (hrun : r.context.state = .running) :
    t ∉ r.context.waiters := by
  intro hq
  have hpaused : r.context.state = .paused := hk.consistent.2.2 (List.ne_nil_of_mem hq)
  rw [hrun] at hpaused
  cases hpaused

theorem Kept.moves (hk : r.Kept) (hm : r.Moves turn r' reply) : r'.Kept := by
  cases hm with
  | stay | refuse => exact hk
  | pause _ hx =>
    refine ⟨.pause hx, fun u hu => hk.queued u ?_⟩
    obtain ⟨-, -, rfl⟩ := Context.pause_eq_ok hx
    exact hu
  | resume =>
    refine ⟨hk.consistent.resume, fun u hu => hk.queued u ?_⟩
    have hu : u ∈ r.context.resume.1.waiters := hu
    unfold Context.resume at hu
    split at hu
    · exact absurd hu List.not_mem_nil
    · exact hu
  | close t => exact ⟨.close _, fun u hu => absurd hu List.not_mem_nil⟩
  | queue t hp =>
    refine ⟨hk.consistent.wait t, fun u hu => List.mem_insert_iff.2 ?_⟩
    have hu : u ∈ (r.context.wait t).1.waiters := hu
    simp only [Context.wait, Context.isPaused, hp, beq_self_eq_true, if_true] at hu
    exact (List.mem_cons.1 hu).imp_right (hk.queued u)
  | leave t => exact ⟨hk.consistent.wake t, fun u hu => hk.queued u (List.mem_filter.1 hu).1⟩
  | finish t hq hrun =>
    exact ⟨hk.consistent, fun u hu => absurd hu (hk.not_queued hrun)⟩

theorem Kept.run (hk : r.Kept) (turns : List Turn) : (r.run turns).Kept := by
  induction turns generalizing r with
  | nil => exact hk
  | cons turn turns ih => exact ih (hk.moves (r.step_moves turn))

theorem Kept.look_running (hk : r.Kept) (ht : t ∈ r.waiting) (hrun : r.context.state = .running) :
    (r.step (.look t)).2 = .waited := by
  simp only [step, if_pos (And.intro ht (hk.not_queued hrun))]
  simp [look, Context.wait, Context.isPaused, hrun]

theorem Moves.running (hm : r.Moves turn r' reply) (hw : reply = .waited) :
    r.context.state = .running := by
  cases hm with
  | finish t hq hrun => exact hrun
  | _ => cases hw

theorem Moves.refused (hm : r.Moves turn r' reply) (why : Context.Refusal)
    (hw : reply = .refused why) : r' = r := by
  cases hm with
  | refuse => rfl
  | _ => cases hw

theorem Moves.closed (hm : r.Moves turn r' reply) (hc : r.context.closed = true) :
    r'.context.closed = true := by
  cases hm with
  | stay | refuse | leave | finish => exact hc
  | close => rfl
  | pause t hx =>
    obtain ⟨hopen, -⟩ := Context.pause_eq_ok hx
    rw [hopen] at hc
    cases hc
  | resume t => exact Context.closed_resume.trans hc
  | queue t hp => exact Context.closed_wait.trans hc

theorem closed_run (hc : r.context.closed = true) (turns : List Turn) :
    (r.run turns).context.closed = true := by
  induction turns generalizing r with
  | nil => exact hc
  | cons turn turns ih => exact ih ((r.step_moves turn).closed hc)

/-! ## Pauses and releases -/

/-- How many pauses stand: one at a paused context. -/
def standing (r : Rendezvous) : Nat := if r.context.state = .paused then 1 else 0

/-- A pause makes one stand, a release that finds the context paused ends one,
and nothing else does. -/
theorem Moves.standing (hm : r.Moves turn r' reply) :
    (reply = .paused ∧ r.standing = 0 ∧ r'.standing = 1) ∨
      (reply = .released true ∧ r.standing = 1 ∧ r'.standing = 0) ∨
      (reply ≠ .paused ∧ reply ≠ .released true ∧ r'.standing = r.standing) := by
  unfold Rendezvous.standing
  cases hm with
  | stay | refuse | leave | finish => exact .inr (.inr ⟨by simp, by simp, rfl⟩)
  | pause t hx =>
    obtain ⟨-, hrun, rfl⟩ := Context.pause_eq_ok hx
    exact .inl ⟨rfl, by simp [hrun], rfl⟩
  | resume t => cases hs : r.context.state <;> simp [Context.resume, Context.isPaused, hs]
  | close t => cases hs : r.context.state <;> simp [Context.close, Context.isPaused, hs]
  | queue t hp => exact .inr (.inr ⟨by simp, by simp, by rw [Context.state_wait]⟩)

/-- **Pauses and releases** of a run are in balance, but for the pauses that stand. -/
theorem count_replies (r : Rendezvous) (turns : List Turn) :
    (r.replies turns).count .paused + r.standing =
      (r.replies turns).count (.released true) + (r.run turns).standing := by
  induction turns generalizing r with
  | nil => rfl
  | cons turn turns ih =>
    have hrest := ih (r.step turn).1
    simp only [replies, run_cons, List.count_cons]
    rcases (r.step_moves turn).standing with ⟨hr, h0, h1⟩ | ⟨hr, h1, h0⟩ | ⟨hp, hr, hs⟩
    · simp only [hr, beq_self_eq_true, if_true]
      simp
      omega
    · simp only [hr, beq_self_eq_true, if_true]
      simp
      omega
    · simp only [beq_iff_eq, hp, hr, if_false]
      omega

/-- **The invariant of a rendezvous.** -/
theorem rendezvous_invariant (h : Handle) (name : String) (turns : List Turn) :
    let r := (start h name).run turns
    (r.context.pausedAt.isSome ↔ r.context.state = .paused) ∧
      (r.context.closed = true → r.context.state = .running ∧
        ∀ more, (r.run more).context.closed = true) ∧
      (∀ t ∈ r.context.waiters, t ∈ r.waiting ∧ r.context.state = .paused) ∧
      (∀ t ∈ r.waiting, r.context.state = .running → (r.step (.look t)).2 = .waited) ∧
      ((start h name).replies turns).count .paused =
        ((start h name).replies turns).count (.released true) +
          (if r.context.state = .paused then 1 else 0) ∧
      ∀ turn, ((r.step turn).2 = .waited → r.context.state = .running) ∧
        ∀ why, (r.step turn).2 = .refused why → (r.step turn).1 = r := by
  intro r
  have hk : r.Kept := (kept_start h name).run turns
  refine ⟨hk.consistent.1, fun hc => ⟨hk.consistent.2.1 hc, closed_run hc⟩, fun t ht => ?_,
    fun t ht hrun => hk.look_running ht hrun, count_replies (start h name) turns,
    fun turn => ⟨(r.step_moves turn).running, (r.step_moves turn).refused⟩⟩
  exact ⟨hk.queued t ht, hk.consistent.2.2 (List.ne_nil_of_mem ht)⟩

/-! ## The contexts of a debugger -/

/-- **Reached.** A context that comes out of a rendezvous. -/
def Reached (x : Context) : Prop :=
  ∃ turns, ((start x.handle x.name).run turns).context = x

theorem exists_not_mem (l : List ThreadId) : ∃ t, t ∉ l := by
  have hle : ∀ l : List Nat, ∀ t ∈ l, t ≤ l.sum := by
    intro l
    induction l with
    | nil => exact fun t ht => absurd ht List.not_mem_nil
    | cons u l ih =>
      intro t ht
      rw [List.sum_cons]
      rcases List.mem_cons.1 ht with rfl | ht
      · exact Nat.le_add_right t _
      · exact Nat.le_trans (ih t ht) (Nat.le_add_left _ u)
  exact ⟨l.sum + 1, fun hmem => Nat.not_succ_le_self _ (hle l _ hmem)⟩

theorem Reached.next {x y : Context} (hx : Reached x) (hh : y.handle = x.handle)
    (hn : y.name = x.name)
    (hturn : ∀ r : Rendezvous, r.context = x → ∃ turn, (r.step turn).1.context = y) :
    Reached y := by
  obtain ⟨turns, hr⟩ := hx
  obtain ⟨turn, hy⟩ := hturn _ hr
  refine ⟨turns ++ [turn], ?_⟩
  rw [hh, hn, run_append]
  exact hy

theorem exists_call (r : Rendezvous) (call : Context.Call) :
    ∃ turn t, r.step turn = r.call t call := by
  obtain ⟨t, ht⟩ := exists_not_mem r.waiting
  exact ⟨.call t call, t, if_neg ht⟩

theorem context_look (r : Rendezvous) (t : ThreadId) :
    (r.look t).1.context = (r.context.wait t).1 := by
  unfold look Context.wait
  split
  · rename_i x heq
    split at heq <;> cases heq
    rename_i hp
    rw [if_pos hp]
  · rename_i x heq
    split at heq <;> cases heq
    rename_i hp
    rw [if_neg hp]

theorem exists_look (r : Rendezvous) (ht : t ∉ r.context.waiters) :
    ∃ turn, r.step turn = r.look t := by
  by_cases hw : t ∈ r.waiting
  · exact ⟨.look t, if_pos ⟨hw, ht⟩⟩
  · exact ⟨.call t .wait, if_neg hw⟩

end Rendezvous

namespace Debugger

variable {S : Setup} {d e : Debugger S} {σ : Schedule} {t u : ThreadId} {c : ContextId} {n : Nat}
  {x y : Context} {a : Action S} {rest todo : List (Action S)} {last ans : Answer}

theorem act_context_cases (h : d.act t last a = some (e, todo, ans))
    (hx : d.contexts[c]? = some x) :
    ∃ y, e.contexts[c]? = some y ∧ (y = x ∨ (∃ ev, x.pause ev = .ok y) ∨ y = x.resume.1 ∨
      y = x.close.1 ∨ a = .wait c ∧ x.wait t = (y, true) ∧ todo = [.parked c]) := by
  obtain ⟨y, hy, rfl | hset⟩ := act_sets h hx
  · exact ⟨y, hy, .inl rfl⟩
  refine ⟨y, hy, .inr ?_⟩
  cases hset with
  | close => exact .inr (.inr (.inl rfl))
  | decide hp | pauseAt hp => exact .inl ⟨_, hp⟩
  | wait hw =>
    simp only [act, hx, hw] at h
    cases h
    exact .inr (.inr (.inr ⟨rfl, hw, rfl⟩))
  | resumeOne | resumeEach => exact .inr (.inl rfl)

/-- Queued threads stand at the context. -/
def Queued (d : Debugger S) : Prop :=
  ∀ c x u, d.contexts[c]? = some x → u ∈ x.waiters → ∃ rest, (d.thread u).agenda = .parked c :: rest

theorem Queued.step {d' : Debugger S} (hq : d.Queued) (hs : d.step t = some d') : d'.Queued := by
  obtain ⟨a, rest, e, todo, ans, hag, hact, rfl, hself, hne⟩ := step_cases hs
  intro c y u hy hu
  rw [setThread_contexts] at hy
  cases hx : d.contexts[c]? with
  | none =>
    obtain ⟨h, name, -, rfl, -⟩ := started_of_new hact hx hy
    exact absurd hu List.not_mem_nil
  | some x =>
    -- who is queued does not act
    have hold : u ∈ x.waiters →
        ∃ rest', ((e.setThread t ⟨todo ++ rest, ans⟩).thread u).agenda = .parked c :: rest' := by
      intro hux
      obtain ⟨rest', hu'⟩ := hq c x u hx hux
      by_cases hut : u = t
      · subst hut
        obtain ⟨rfl, -⟩ := List.cons_eq_cons.1 (hag.symm.trans hu')
        simp only [act, hx, if_pos hux] at hact
        cases hact
      · exact ⟨rest', by rw [hne u hut]; exact hu'⟩
    obtain ⟨z, hz, hcases⟩ := act_context_cases hact hx
    obtain rfl : y = z := Option.some.inj (hy.symm.trans hz)
    rcases hcases with rfl | ⟨ev, hp⟩ | rfl | rfl | ⟨-, hw, rfl⟩
    · exact hold hu
    · obtain ⟨-, -, rfl⟩ := Context.pause_eq_ok hp
      exact hold hu
    · unfold Context.resume at hu
      split at hu
      · exact absurd hu List.not_mem_nil
      · exact hold hu
    · exact absurd hu List.not_mem_nil
    · unfold Context.wait at hw
      split at hw <;> cases hw
      rcases List.mem_cons.1 hu with rfl | hu
      · exact ⟨rest, by rw [hself]; rfl⟩
      · exact hold hu

theorem Initial.queued (hd : d.Initial) (σ : Schedule) (n : Nat) : (d.instant σ n).Queued := by
  refine instant_invariant (P := Queued) (fun c x u hx _ => ?_) (fun n t d' hq hs => hq.step hs)
    (fun n t op _ hq hid _ c x u hx hu => ?_) (fun n t k z hq hz c x u hx hu => ?_) n
  · rw [hd.contexts] at hx
    cases hx
  · obtain ⟨rest, hag⟩ := hq c x u hx hu
    refine ⟨rest, ?_⟩
    rw [thread_call_ne, hag]
    rintro rfl
    rw [hid] at hag
    cases hag
  · obtain ⟨y, hy, rfl | rfl⟩ := context_of_wake hz hx
    · exact hq c x u hy hu
    · exact hq c y u hy (List.mem_filter.1 hu).1

theorem Queued.reached {d' : Debugger S} (hq : d.Queued) (hs : d.step t = some d')
    (hd : ∀ (c : ContextId) (x : Context), d.contexts[c]? = some x → Rendezvous.Reached x)
    (hy : d'.contexts[c]? = some y) : Rendezvous.Reached y := by
  obtain ⟨a, rest, e, todo, ans, hag, hact, rfl, -⟩ := step_cases hs
  rw [setThread_contexts] at hy
  cases hx : d.contexts[c]? with
  | none =>
    obtain ⟨h, name, -, rfl, -⟩ := started_of_new hact hx hy
    exact ⟨[], rfl⟩
  | some x =>
    obtain ⟨z, hz, hh, hn, -⟩ := act_context hact hx
    obtain rfl : y = z := Option.some.inj (hy.symm.trans hz)
    obtain ⟨z, hz, hcases⟩ := act_context_cases hact hx
    obtain rfl : y = z := Option.some.inj (hy.symm.trans hz)
    rcases hcases with rfl | hcases
    · exact hd c y hx
    refine (hd c x hx).next hh hn fun r hr => ?_
    subst hr
    rcases hcases with ⟨ev, hp⟩ | rfl | rfl | ⟨rfl, hw, -⟩
    · obtain ⟨turn, t, hstep⟩ := r.exists_call (.pause ev)
      exact ⟨turn, by rw [hstep]; simp only [Rendezvous.call, hp]⟩
    · obtain ⟨turn, t, hstep⟩ := r.exists_call .resume
      exact ⟨turn, by rw [hstep]; rfl⟩
    · obtain ⟨turn, t, hstep⟩ := r.exists_call .close
      exact ⟨turn, by rw [hstep]; rfl⟩
    · have hfree : t ∉ r.context.waiters := fun hmem => by
        obtain ⟨rest', hag'⟩ := hq c r.context t hx hmem
        rw [hag] at hag'
        cases hag'
      obtain ⟨turn, hstep⟩ := r.exists_look hfree
      exact ⟨turn, by rw [hstep, Rendezvous.context_look, hw]⟩

/-- **Every context of a debugger** comes out of a rendezvous of the threads that are at it. -/
theorem Initial.reached (hd : d.Initial) (σ : Schedule) (n : Nat) :
    ∀ (c : ContextId) (x : Context), (d.instant σ n).contexts[c]? = some x →
      Rendezvous.Reached x := by
  refine instant_invariant
    (P := fun d => ∀ (c : ContextId) (x : Context), d.contexts[c]? = some x → Rendezvous.Reached x)
    (fun c x hx => ?_) (fun n t d' hn hs c y hy => (hd.queued σ n).reached hs hn hy)
    (fun n t op _ hn _ _ c x hx => hn c x hx) (fun n t k z hn hz c x hx => ?_) n
  · rw [hd.contexts] at hx
    cases hx
  · obtain ⟨y, hy, rfl | rfl⟩ := context_of_wake hz hx
    · exact hn c x hy
    · exact (hn c y hy).next rfl rfl fun r hr => ⟨.leave t, by rw [← hr]; rfl⟩

end Debugger

end ScriptDebug
