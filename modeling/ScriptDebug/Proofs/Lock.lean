import ScriptDebug.Proofs.Outcome

/-!
# Who holds the dispatch lock

An agenda owes the lock as often as its thread holds it. `owes` reads this off from the end of an
agenda: an `unlock` gives one hold back, and so does, in the end, everything that an `enter`, a
`decide` or a `sweep` leads to; a `lock` takes one. Client logic and resumes stand only where the
lock is held, and an operation that client logic uses gives back no more than it took. In every
schedule from an initial state each thread owes just what it holds (`Disciplined`).
-/

namespace ScriptDebug

variable {S : Setup}

/-- **Debt** of an agenda: the holds of the lock that it gives back, and how many of these belong to
the innermost call of the client logic and what is below it. -/
structure Debt where
  holds : Nat := 0
  floor : Nat := 0
  deriving DecidableEq

namespace Debt

/-- One more hold to give back. -/
def give (m : Debt) : Debt := { m with holds := m.holds + 1 }

/-- One hold less, taken above the floor. -/
def take (m : Debt) : Option Debt :=
  if m.floor < m.holds then some { m with holds := m.holds - 1 } else none

/-- What is done where the lock is held. -/
def need (m : Debt) : Option Debt := if 0 < m.holds then some m else none

/-- A call of the client logic: all that is held belongs to it. -/
def call (m : Debt) : Option Debt := if 0 < m.holds then some ⟨m.holds, m.holds⟩ else none

/-- The debt of a possible agenda. -/
def Sound (m : Debt) : Prop := m.floor ≤ m.holds

variable {m n : Debt}

theorem Sound.give (h : m.Sound) : m.give.Sound := Nat.le_succ_of_le h

theorem Sound.take (h : m.take = some n) : n.Sound ∧ n.holds + 1 = m.holds := by
  unfold Debt.take at h
  split at h
  · cases h
    exact ⟨by unfold Sound; dsimp only; omega, by dsimp only; omega⟩
  · exact absurd h (by simp)

theorem take_give (h : m.Sound) : m.give.take = some m := by
  have : m.give.floor < m.give.holds := Nat.lt_succ_of_le h
  rw [Debt.take, if_pos this]
  rfl

theorem need_eq (h : m.need = some n) : n = m ∧ 0 < m.holds := by
  unfold need at h
  split at h
  · rename_i hp
    cases h
    exact ⟨rfl, hp⟩
  · exact absurd h (by simp)

theorem need_give : m.give.need = some m.give := if_pos (Nat.succ_pos _)

theorem call_eq (h : m.call = some n) : n = ⟨m.holds, m.holds⟩ ∧ 0 < m.holds := by
  unfold call at h
  split at h
  · rename_i hp
    cases h
    exact ⟨rfl, hp⟩
  · exact absurd h (by simp)

theorem call_give : m.give.call = some ⟨m.holds + 1, m.holds + 1⟩ := if_pos (Nat.succ_pos _)

end Debt

/-- The debt of an agenda, from its first action and the debt of its rest. -/
def Action.debt : Action S → Debt → Option Debt
  | .lock, m => m.take
  | .unlock, m | .enter _, m | .reloaded _, m | .decide .., m | .sweep, m | .resumeEach .., m =>
    some m.give
  | .logic _, m => m.call
  | .resumeOne _, m => m.need
  | .begin _, m | .give _, m | .reportNotice, m | .reportText, m | .reportHandled, m
  | .sendFailure, m | .install _, m | .uninstall _, m | .close _, m | .locate .., m
  | .pauseAt .., m | .wait _, m | .parked _, m | .inspect .., m | .host _, m | .showValue, m
  | .reportLoaded, m | .enumerate .., m | .fetch .., m | .describe .., m
  | .describeLocation .., m => some m

/-- The debt of an agenda; `none` for one that would do something without the lock it needs. -/
def owes : List (Action S) → Option Debt
  | [] => some {}
  | a :: rest => (owes rest).bind a.debt

theorem owes_cons {a : Action S} {rest : List (Action S)} {m : Debt} :
    owes (a :: rest) = some m ↔ ∃ n, owes rest = some n ∧ a.debt n = some m := by
  rw [owes, Option.bind_eq_some_iff]

theorem sound_of_owes {as : List (Action S)} {m : Debt} (h : owes as = some m) : m.Sound := by
  induction as generalizing m with
  | nil =>
    cases h
    exact Nat.le_refl 0
  | cons a rest ih =>
    obtain ⟨n, hn, ha⟩ := owes_cons.1 h
    have hs := ih hn
    cases a with
    | lock => exact (Debt.Sound.take ha).1
    | unlock | enter | reloaded | decide | sweep | resumeEach =>
      cases ha
      exact hs.give
    | logic p =>
      obtain ⟨rfl, -⟩ := Debt.call_eq ha
      exact Nat.le_refl _
    | resumeOne c =>
      obtain ⟨rfl, -⟩ := Debt.need_eq ha
      exact hs
    | _ =>
      cases ha
      exact hs

theorem floor_pos_of_logic {as : List (Action S)} {m : Debt} (h : owes as = some m)
    {p : S.logic.Point} (hp : .logic p ∈ as) : 0 < m.floor := by
  induction as generalizing m with
  | nil => exact absurd hp List.not_mem_nil
  | cons a rest ih =>
    obtain ⟨n, hn, ha⟩ := owes_cons.1 h
    rcases List.mem_cons.1 hp with rfl | hp
    · obtain ⟨rfl, hpos⟩ := Debt.call_eq ha
      exact hpos
    · have hpos := ih hn hp
      cases a <;> grind [Action.debt, Debt.give, Debt.take, Debt.need, Debt.call]

theorem owes_dispatch {rest : List (Action S)} {m : Debt} (h : owes rest = some m)
    (call : LogicCall) : owes (Action.dispatch call ++ rest) = some m := by
  simp [Action.dispatch, owes, h, Action.debt, Debt.take_give (sound_of_owes h)]

namespace Debugger

variable {d : Debugger S} {todo rest : List (Action S)} {m n : Debt}

theorem OperationLeads.owes_append {op : Operation} (h : d.OperationLeads op todo)
    (hm : owes rest = some m) : owes (todo ++ rest) = some m := by
  have hs := sound_of_owes hm
  cases op with
  | setListening | setVariable | reload | send =>
    obtain rfl : todo = [] := h
    exact hm
  | detach | hook =>
    obtain rfl | rfl := h <;> simp [owes, hm, Action.debt]
  | run | pause =>
    obtain rfl | ⟨x, rfl⟩ := h <;> simp [owes, hm, Action.debt]
  | load | evaluate | listVariables | fetchVariable =>
    obtain rfl | ⟨c, -, rfl⟩ := h <;> simp [owes, hm, Action.debt]
  | start =>
    obtain rfl | rfl := h
    · exact hm
    · rw [List.append_assoc]
      exact owes_dispatch (by simp [owes, hm, Action.debt]) _
  | stop =>
    obtain rfl | ⟨c, name, -, rfl⟩ := h
    · exact hm
    · rw [List.append_assoc]
      exact owes_dispatch (by simp [owes, hm, Action.debt]) _
  | breakpoint =>
    obtain rfl | ⟨name, rfl⟩ := h
    · exact hm
    · rw [List.append_assoc]
      exact owes_dispatch (by simp [owes, hm, Action.debt]) _
  | message | request =>
    obtain rfl := h
    rw [List.append_assoc]
    exact owes_dispatch (by simp [owes, hm, Action.debt]) _
  | attach x name =>
    obtain rfl : todo = [.begin (.start x name), .install x] := h
    simp [owes, hm, Action.debt]
  | contexts =>
    obtain rfl : todo = [.describe d.registered []] := h
    simp [owes, hm, Action.debt]
  | resumeAll =>
    obtain rfl : todo = [.lock, .sweep] := h
    simp [owes, hm, Action.debt, Debt.take_give hs]
  | resume =>
    obtain rfl | ⟨c, -, rfl⟩ := h
    · exact hm
    · simp [owes, hm, Action.debt, Debt.need_give, Debt.take_give hs]

/-- **What comes in place of an action owes what the action owed.** -/
theorem Leads.owes_append {a : Action S} (h : d.Leads a todo) (hl : a ≠ .lock)
    (hu : a ≠ .unlock) (hm : owes rest = some m) (ha : a.debt m = some n) :
    ∃ k, owes (todo ++ rest) = some k ∧ k.holds = n.holds := by
  have hs := sound_of_owes hm
  cases a with
  | lock => exact absurd rfl hl
  | unlock => exact absurd rfl hu
  | begin op =>
    cases ha
    exact ⟨m, OperationLeads.owes_append h hm, rfl⟩
  | give | reportHandled | sendFailure | close | pauseAt | showValue | reportLoaded | fetch =>
    cases ha
    obtain rfl : todo = [] := h
    exact ⟨m, hm, rfl⟩
  | resumeOne =>
    obtain ⟨rfl, -⟩ := Debt.need_eq ha
    obtain rfl : todo = [] := h
    exact ⟨n, hm, rfl⟩
  | enter =>
    cases ha
    obtain rfl | rfl := h <;>
      exact ⟨⟨m.holds + 1, m.holds + 1⟩, by simp [owes, hm, Action.debt, Debt.call_give], rfl⟩
  | reloaded =>
    cases ha
    obtain rfl | rfl := h
    · exact ⟨m.give, by simp [owes, hm, Action.debt], rfl⟩
    · exact ⟨⟨m.holds + 1, m.holds + 1⟩, by simp [owes, hm, Action.debt, Debt.call_give], rfl⟩
  | logic p =>
    obtain rfl | ⟨s, last, op, next, -, rfl⟩ := h
    · exact ⟨m, hm, by obtain ⟨rfl, -⟩ := Debt.call_eq ha; rfl⟩
    · have hc : m.call = some n := ha
      exact ⟨n, by simp [owes, hm, Action.debt, hc], rfl⟩
  | reportNotice | reportText | wait | parked =>
    cases ha
    obtain rfl | rfl := h <;> exact ⟨m, by simp [owes, hm, Action.debt], rfl⟩
  | install =>
    cases ha
    obtain rfl | ⟨f, rfl⟩ := h <;> exact ⟨m, by simp [owes, hm, Action.debt], rfl⟩
  | uninstall =>
    cases ha
    obtain ⟨r, rfl⟩ := h
    exact ⟨m, by simp [owes, hm, Action.debt], rfl⟩
  | locate x report =>
    cases ha
    obtain rfl | ⟨c, name, -, rfl⟩ := h
    · exact ⟨m, hm, rfl⟩
    · refine ⟨m, ?_, rfl⟩
      rw [List.append_assoc, List.cons_append, owes_cons]
      refine ⟨m.give, owes_dispatch (by simp [owes, hm, Action.debt]) _, Debt.take_give hs⟩
  | decide =>
    cases ha
    obtain rfl | rfl := h <;> exact ⟨m.give, by simp [owes, hm, Action.debt], rfl⟩
  | sweep =>
    cases ha
    obtain rfl : todo = [.resumeEach d.registered 0] := h
    exact ⟨m.give, by simp [owes, hm, Action.debt], rfl⟩
  | resumeEach cs k =>
    cases ha
    cases cs with
    | nil =>
      obtain rfl : todo = [.unlock] := h
      exact ⟨m.give, by simp [owes, hm, Action.debt], rfl⟩
    | cons c cs =>
      obtain ⟨k, rfl⟩ := h
      exact ⟨m.give, by simp [owes, hm, Action.debt], rfl⟩
  | inspect c op =>
    cases ha
    obtain rfl | rfl := h
    · exact ⟨m, hm, rfl⟩
    · exact ⟨m, by cases op <;> simp [owes, hm, Action.debt, Operation.look], rfl⟩
  | host code =>
    cases ha
    obtain rfl | ⟨code, rfl⟩ | ⟨x, report, next, rfl⟩ := h <;>
      exact ⟨m, by simp [owes, hm, Action.debt], rfl⟩
  | enumerate =>
    cases ha
    obtain rfl | ⟨slots, rfl⟩ := h <;> exact ⟨m, by simp [owes, hm, Action.debt], rfl⟩
  | describe cs done =>
    cases ha
    cases cs with
    | nil =>
      obtain rfl : todo = [] := h
      exact ⟨m, hm, rfl⟩
    | cons c cs =>
      obtain rfl | ⟨state, rfl⟩ := h <;> exact ⟨m, by simp [owes, hm, Action.debt], rfl⟩
  | describeLocation =>
    cases ha
    obtain ⟨done, rfl⟩ := h
    exact ⟨m, by simp [owes, hm, Action.debt], rfl⟩

/-! ## Discipline -/

/-- How often a thread holds the dispatch lock. -/
def held (d : Debugger S) (t : ThreadId) : Nat :=
  match d.dispatch with
  | some hold => if hold.owner = t then hold.again + 1 else 0
  | none => 0

/-- Whether a thread holds the dispatch lock. -/
def Holds (d : Debugger S) (t : ThreadId) : Prop := 0 < d.held t

instance (d : Debugger S) (t : ThreadId) : Decidable (d.Holds t) :=
  inferInstanceAs (Decidable (0 < d.held t))

/-- **Discipline.** Every thread owes the lock as often as it holds it. -/
def Disciplined (d : Debugger S) : Prop :=
  ∀ t, ∃ m, owes (d.thread t).agenda = some m ∧ m.holds = d.held t

theorem held_of_dispatch_none {d : Debugger S} (h : d.dispatch = none) (t : ThreadId) :
    d.held t = 0 := by
  unfold held
  rw [h]

theorem Holds.unique {d : Debugger S} {t u : ThreadId} (ht : d.Holds t) (hu : d.Holds u) :
    t = u := by
  unfold Holds held at ht hu
  cases hd : d.dispatch with
  | none => simp [hd] at ht
  | some hold =>
    simp only [hd] at ht hu
    split at ht
    · split at hu
      · exact (by assumption : hold.owner = t).symm.trans (by assumption)
      · exact absurd hu (Nat.lt_irrefl 0)
    · exact absurd ht (Nat.lt_irrefl 0)

theorem held_eq_zero {d : Debugger S} {t u : ThreadId} (ht : d.Holds t) (hu : u ≠ t) :
    d.held u = 0 := by
  rcases Nat.eq_zero_or_pos (d.held u) with h | h
  · exact h
  · exact absurd (Holds.unique h ht) hu

theorem Initial.disciplined {d : Debugger S} (h : d.Initial) : d.Disciplined := by
  intro t
  rw [h.idle t, held_of_dispatch_none h.dispatch]
  exact ⟨{}, rfl, rfl⟩

section Act

variable {d e : Debugger S} {t u : ThreadId} {last ans : Answer} {a : Action S}
  {rest todo : List (Action S)} {m : Debt}

theorem held_of_lock (h : d.act t last .lock = some (e, todo, ans)) :
    todo = [] ∧ e.held t = d.held t + 1 ∧ ∀ u, u ≠ t → e.held u = d.held u := by
  refine ⟨act_leads h, ?_⟩
  simp only [act] at h
  split at h
  · rename_i hd
    cases h
    refine ⟨by simp [held, hd], fun u hu => ?_⟩
    simp [held, hd, Ne.symm hu]
  · rename_i hold hd
    split at h
    · rename_i ho
      cases h
      refine ⟨by simp [held, hd, ho], fun u hu => ?_⟩
      simp [held, hd, ho, Ne.symm hu]
    · exact absurd h (by simp)

theorem held_of_unlock (h : d.act t last .unlock = some (e, todo, ans)) (ht : d.Holds t) :
    todo = [] ∧ e.held t + 1 = d.held t ∧ ∀ u, u ≠ t → e.held u = d.held u := by
  refine ⟨act_leads h, ?_⟩
  unfold Holds held at ht
  simp only [act] at h
  split at h
  · rename_i owner again hd
    cases h
    simp only [hd] at ht
    split at ht
    · rename_i ho
      subst ho
      exact ⟨by simp [held, hd], fun u hu => by simp [held, hd, Ne.symm hu]⟩
    · exact absurd ht (Nat.lt_irrefl 0)
  · rename_i hn
    cases h
    cases hd : d.dispatch with
    | none => simp [hd] at ht
    | some hold =>
      obtain ⟨owner, again⟩ := hold
      cases again with
      | succ k => exact absurd hd (hn owner k)
      | zero =>
        simp only [hd] at ht
        split at ht
        · rename_i ho
          subst ho
          exact ⟨by simp [held, hd], fun u hu => by simp [held, hd, Ne.symm hu]⟩
        · exact absurd ht (Nat.lt_irrefl 0)

theorem act_owes (h : d.act t last a = some (e, todo, ans)) (hm : owes (a :: rest) = some m)
    (ht : m.holds = d.held t) :
    (∃ n, owes (todo ++ rest) = some n ∧ n.holds = e.held t) ∧ ∀ u, u ≠ t →
      e.held u = d.held u := by
  obtain ⟨k, hk, ha⟩ := owes_cons.1 hm
  by_cases hl : a = .lock
  · subst hl
    obtain ⟨rfl, hself, hne⟩ := held_of_lock h
    obtain ⟨-, hholds⟩ := Debt.Sound.take ha
    exact ⟨⟨k, hk, by omega⟩, hne⟩
  · by_cases hu : a = .unlock
    · subst hu
      cases ha
      have hpos : d.Holds t := by
        unfold Holds
        rw [← ht]
        exact Nat.succ_pos _
      obtain ⟨rfl, hself, hne⟩ := held_of_unlock h hpos
      have hg : k.give.holds = k.holds + 1 := rfl
      exact ⟨⟨k, hk, by omega⟩, hne⟩
    · have hd := act_dispatch h hl hu
      obtain ⟨n, hn, hnm⟩ := (act_leads h).owes_append hl hu hk ha
      unfold held at ht ⊢
      rw [hd]
      exact ⟨⟨n, hn, hnm.trans ht⟩, fun u _ => rfl⟩

end Act

theorem Disciplined.step {d d' : Debugger S} {t : ThreadId} (hd : d.Disciplined)
    (h : d.step t = some d') : d'.Disciplined := by
  obtain ⟨a, rest, e, todo, ans, hag, hact, rfl, hself, hne⟩ := step_cases h
  obtain ⟨m, hm, ht⟩ := hd t
  rw [hag] at hm
  obtain ⟨howes, hothers⟩ := act_owes hact hm ht
  intro u
  have hheld : (e.setThread t ⟨todo ++ rest, ans⟩).held u = e.held u := rfl
  rw [hheld]
  by_cases hu : u = t
  · subst hu
    rw [hself]
    exact howes
  · rw [hne u hu, hothers u hu]
    exact hd u

theorem Disciplined.call {d : Debugger S} {t : ThreadId} (hd : d.Disciplined)
    (hid : (d.thread t).agenda = []) (ht : t < d.threads.length) (op : Operation) :
    (d.call t op).Disciplined := by
  intro u
  have hheld : (d.call t op).held u = d.held u := rfl
  rw [hheld]
  by_cases hu : u = t
  · subst hu
    obtain ⟨m, hm, hu⟩ := hd u
    rw [hid] at hm
    rw [thread_call_self ht]
    exact ⟨m, by simpa [owes, Action.debt] using hm, hu⟩
  · rw [thread_call_ne hu]
    exact hd u

theorem Disciplined.instant {d : Debugger S} (hd : d.Disciplined) (σ : Schedule) (n : Nat) :
    (d.instant σ n).Disciplined :=
  instant_invariant hd (fun _ _ _ hn hs => hn.step hs) (fun _ _ op _ hn hid ht => hn.call hid ht op)
    (fun _ _ _ _ hn _ => hn) n

/-! ## Where the lock is held -/

section Agenda

variable {d : Debugger S} {t : ThreadId} {rest : List (Action S)}

theorem Disciplined.holds_of_logic (hd : d.Disciplined) {p : S.logic.Point}
    (hp : .logic p ∈ (d.thread t).agenda) : d.Holds t := by
  obtain ⟨m, hm, ht⟩ := hd t
  unfold Holds
  rw [← ht]
  exact Nat.lt_of_lt_of_le (floor_pos_of_logic hm hp) (sound_of_owes hm)

/-- Whoever is about to do what owes the lock holds it. -/
theorem Disciplined.holds_of_debt (hd : d.Disciplined) {a : Action S}
    (hag : (d.thread t).agenda = a :: rest)
    (ha : ∀ m n, a.debt m = some n → 0 < n.holds) : d.Holds t := by
  obtain ⟨m, hm, ht⟩ := hd t
  rw [hag] at hm
  obtain ⟨n, -, hn⟩ := owes_cons.1 hm
  unfold Holds
  rw [← ht]
  exact ha n m hn

theorem Disciplined.holds_of_give (hd : d.Disciplined) {a : Action S}
    (hag : (d.thread t).agenda = a :: rest) (ha : ∀ m, a.debt m = some m.give) : d.Holds t := by
  refine hd.holds_of_debt hag fun m n hn => ?_
  obtain rfl := Option.some.inj ((ha m).symm.trans hn)
  exact Nat.succ_pos _

/-- What may change the stance of a context, other than closing it, needs the lock. -/
theorem Disciplined.holds_of_alters (hd : d.Disciplined) {a : Action S}
    (hag : (d.thread t).agenda = a :: rest) {c : ContextId} (ha : a.alters c)
    (hc : a ≠ .close c) (hp : ∀ e, a ≠ .pauseAt c e) : d.Holds t := by
  refine hd.holds_of_debt hag fun m n hn => ?_
  cases a with
  | close k => exact absurd (by rw [show k = c from ha]) hc
  | pauseAt k e => exact absurd (by rw [show k = c from ha]) (hp e)
  | decide =>
    cases hn
    exact Nat.succ_pos _
  | resumeOne =>
    obtain ⟨rfl, hpos⟩ := Debt.need_eq hn
    exact hpos
  | resumeEach cs k =>
    cases hn
    exact Nat.succ_pos _
  | _ => exact absurd ha id

end Agenda

end Debugger

end ScriptDebug
