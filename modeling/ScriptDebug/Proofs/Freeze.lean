import ScriptDebug.Proofs.Registry

/-!
# What the dispatch lock freezes

While a thread holds the dispatch lock, no other thread changes the stance of a context that is
registered at some instant of that time. All that pauses and resumes holds the lock. The closing of
a context does not; but its thread takes the lock between the removal from the registry and the
closing, and so gets stuck there: the context is shielded (`Shielded`).
-/

namespace ScriptDebug

variable {S : Setup}

/-- Whether an agenda takes the lock before it closes a context. -/
def ClosesBehindLock (c : ContextId) : List (Action S) → Prop
  | [] => True
  | .lock :: _ => True
  | a :: rest => a ≠ .close c ∧ ClosesBehindLock c rest

variable {c : ContextId} {a : Action S} {as rest todo : List (Action S)}

theorem closesBehindLock_of_not_mem (h : .close c ∉ as) : ClosesBehindLock c as := by
  induction as with
  | nil => trivial
  | cons a rest ih =>
    have ha : a ≠ .close c := fun ha => h (by simp [ha])
    have hr := ih fun hr => h (List.mem_cons_of_mem _ hr)
    unfold ClosesBehindLock
    split <;> grind

theorem ClosesBehindLock.tail (h : ClosesBehindLock c (a :: rest)) (ha : a ≠ .lock) :
    a ≠ .close c ∧ ClosesBehindLock c rest := by
  unfold ClosesBehindLock at h
  split at h <;> grind

theorem ClosesBehindLock.append (h : ClosesBehindLock c rest) (ht : ClosesBehindLock c todo) :
    ClosesBehindLock c (todo ++ rest) := by
  induction todo with
  | nil => exact h
  | cons a todo ih =>
    unfold ClosesBehindLock at ht ⊢
    grind

namespace Debugger

variable {d e d' : Debugger S} {t u : ThreadId} {last ans : Answer} {x : Context}
  {turn : Turn} {σ : Schedule} {i j k m n : Nat}

theorem Leads.closesBehindLock (h : d.Leads a todo) : ClosesBehindLock c todo := by
  by_cases hc : .close c ∈ todo
  · obtain ⟨y, name, -, -, rfl⟩ := h.close hc
    trivial
  · exact closesBehindLock_of_not_mem hc

/-- **Shielded.** No other thread closes the context without taking the lock first. -/
def Shielded (d : Debugger S) (t : ThreadId) (c : ContextId) : Prop :=
  ∀ u, u ≠ t → ClosesBehindLock c (d.thread u).agenda

theorem Orderly.shielded (hd : d.Orderly) (hc : c ∈ d.registered) (t : ThreadId) :
    d.Shielded t c :=
  fun u _ => closesBehindLock_of_not_mem fun hmem => (hd.closing u c hmem).2 hc

theorem act_lock_of_holds (ht : d.Holds t) (hu : u ≠ t) : d.act u last .lock = none := by
  cases h : d.act u last .lock with
  | none => rfl
  | some r =>
    obtain ⟨e, todo, ans⟩ := r
    obtain ⟨-, hself, hne⟩ := held_of_lock h
    have hu0 : d.held u = 0 := held_eq_zero ht hu
    have hte : e.Holds t := by
      unfold Holds
      rw [hne t (Ne.symm hu)]
      exact ht
    have hue : e.Holds u := by
      unfold Holds
      omega
    exact absurd (Holds.unique hue hte) hu

theorem Shielded.step (hs : d.Shielded t c) (ht : d.Holds t) (h : d.step u = some d') :
    d'.Shielded t c := by
  obtain ⟨a, rest, e, todo, ans, hag, hact, -, hself, hne⟩ := step_cases h
  intro v hv
  by_cases hvu : v = u
  · subst hvu
    have ha : a ≠ .lock := by
      rintro rfl
      rw [act_lock_of_holds ht hv] at hact
      exact absurd hact (by simp)
    have hcl := hs v hv
    rw [hag] at hcl
    rw [hself]
    exact (hcl.tail ha).2.append (act_leads hact).closesBehindLock
  · rw [hne v hvu]
    exact hs v hv

theorem Shielded.take (hs : d.Shielded t c) (ht : d.Holds t) (turn : Turn) :
    (d.take turn).Shielded t c := by
  rcases take_cases d turn with
    h | ⟨u, d', -, hst, h⟩ | ⟨u, op, -, -, hu, h⟩ | ⟨u, k, x, -, -, h⟩ <;>
    rw [h]
  · exact hs
  · exact hs.step ht hst
  · intro v hv
    by_cases hvu : v = u
    · subst hvu
      rw [thread_call_self hu]
      exact closesBehindLock_of_not_mem (by simp)
    · rw [thread_call_ne hvu]
      exact hs v hv
  · exact hs

/-- A context stays shielded while the lock is held. -/
theorem Shielded.during (hs : (d.instant σ m).Shielded t c)
    (ht : ∀ k, m ≤ k → k < n → (d.instant σ k).Holds t) (hmn : m ≤ n) :
    (d.instant σ n).Shielded t c := by
  induction hmn with
  | refl => exact hs
  | @step n hmn ih =>
    rw [instant_succ]
    exact (ih fun k hk hkn => ht k hk (Nat.lt_succ_of_lt hkn)).take
      (ht n hmn (Nat.lt_succ_self n)) (σ n)

/-! ## The stance of a registered context -/

theorem registered_of_take (hlt : c < d.contexts.length) (hc : c ∈ (d.take turn).registered) :
    c ∈ d.registered := by
  rcases take_cases d turn with
    h | ⟨u, d', -, hst, h⟩ | ⟨u, op, -, -, -, h⟩ | ⟨u, k, x, -, -, h⟩ <;>
    rw [h] at hc
  · exact hc
  · obtain ⟨a, rest, e, todo, ans, -, hact, rfl, -⟩ := step_cases hst
    exact registered_of_act hact hlt hc
  · exact hc
  · exact hc

theorem context_take (turn : Turn) (hx : d.contexts[c]? = some x) :
    ∃ y, (d.take turn).contexts[c]? = some y ∧ y.handle = x.handle ∧ y.name = x.name := by
  rcases take_cases d turn with
    h | ⟨u, d', -, hst, h⟩ | ⟨u, op, -, -, -, h⟩ | ⟨u, k, z, -, hz, h⟩ <;>
    rw [h]
  · exact ⟨x, hx, rfl, rfl⟩
  · obtain ⟨a, rest, e, todo, ans, -, hact, rfl, -⟩ := step_cases hst
    obtain ⟨y, hy, hh, hn, -⟩ := act_context hact hx
    exact ⟨y, hy, hh, hn⟩
  · exact ⟨x, hx, rfl, rfl⟩
  · obtain ⟨y, hy, rfl | rfl⟩ := context_wake u hz hx <;> exact ⟨_, hy, rfl, rfl⟩

theorem context_of_later (hkm : k ≤ m) (hx : (d.instant σ k).contexts[c]? = some x) :
    ∃ y, (d.instant σ m).contexts[c]? = some y ∧ y.handle = x.handle ∧ y.name = x.name := by
  induction hkm with
  | refl => exact ⟨x, hx, rfl, rfl⟩
  | @step m hkm ih =>
    obtain ⟨y, hy, hh, hn⟩ := ih
    obtain ⟨z, hz, hzh, hzn⟩ := context_take (σ m) hy
    rw [instant_succ]
    exact ⟨z, hz, hzh.trans hh, hzn.trans hn⟩

theorem registered_of_later (hkm : k ≤ m) (hx : (d.instant σ k).contexts[c]? = some x)
    (hc : c ∈ (d.instant σ m).registered) : c ∈ (d.instant σ k).registered := by
  induction hkm with
  | refl => exact hc
  | @step m hkm ih =>
    obtain ⟨y, hy, -⟩ := context_of_later hkm hx
    rw [instant_succ] at hc
    exact ih (registered_of_take (List.getElem?_eq_some_iff.1 hy).1 hc)

/-- An entry of the registry was there before, if its context was. -/
theorem Initial.entry_of_later (hd : d.Initial) {h : Handle} (hkm : k ≤ m)
    (hx : (d.instant σ k).contexts[c]? = some x) (hc : (h, c) ∈ (d.instant σ m).registry) :
    (h, c) ∈ (d.instant σ k).registry := by
  obtain ⟨h', hmem⟩ := mem_registered.1 (registered_of_later hkm hx (mem_registered.2 ⟨h, hc⟩))
  obtain ⟨y, hy, hyh, -⟩ := (hd.orderly.instant σ k).entry h' c hmem
  obtain ⟨z, hz, hzh, -⟩ := (hd.orderly.instant σ m).entry h c hc
  obtain ⟨w, hw, hwh, -⟩ := context_of_later hkm hy
  obtain rfl : z = w := Option.some.inj (hz.symm.trans hw)
  obtain rfl : h = h' := (hzh.symm.trans hwh).trans hyh
  exact hmem

/-- **Hands off.** Neither the embedder nor the client logic pauses a context from outside; a
context pauses only at a hook event of its execution. -/
structure HandsOff (S : Setup) (σ : Schedule) : Prop where
  calls : ∀ n t h r, σ n ≠ .call t (.pause h r)
  uses : ∀ s p last h r next, (S.logic.step s p last).2 ≠ .use (.pause h r) next

/-- Whether an action pauses a context from outside. -/
def pausesOutside : Action S → Bool
  | .begin (.pause ..) | .pauseAt .. => true
  | _ => false

theorem Leads.pausesOutside
    (huses : ∀ s p last h r next, (S.logic.step s p last).2 ≠ .use (.pause h r) next)
    (h : d.Leads a todo) (ha : Debugger.pausesOutside a = false) :
    ∀ b ∈ todo, Debugger.pausesOutside b = false := by
  cases a with
  | begin op => cases op <;> grind [Leads, OperationLeads, Action.dispatch, Debugger.pausesOutside]
  | resumeEach cs n => cases cs <;> grind [Leads, Debugger.pausesOutside]
  | describe cs done => cases cs <;> grind [Leads, Debugger.pausesOutside]
  | inspect k op => cases op <;> grind [Leads, Operation.look, Debugger.pausesOutside]
  | logic p =>
    obtain rfl | ⟨s, last, op, next, hu, rfl⟩ := h
    · exact fun b hb => absurd hb List.not_mem_nil
    · have hop : Debugger.pausesOutside (.begin op : Action S) = false := by
        cases op with
        | pause x r => exact absurd hu (huses s p last x r next)
        | _ => rfl
      intro b hb
      rcases List.mem_cons.1 hb with rfl | hb
      · exact hop
      · obtain rfl := List.mem_singleton.1 hb
        rfl
  | _ => grind [Leads, Action.dispatch, Debugger.pausesOutside]

theorem HandsOff.pauseAt_not_mem (ho : HandsOff S σ) (hd : d.Initial) (n : Nat) (t : ThreadId)
    (c : ContextId) (e : Hook.Event) : .pauseAt c e ∉ ((d.instant σ n).thread t).agenda := by
  have hall := agenda_invariant (P := fun _ as => ∀ a ∈ as, pausesOutside a = false) hd
    (fun _ a ha => absurd ha List.not_mem_nil) (σ := σ)
    (fun n t op hσ a ha => by
      obtain rfl := List.mem_singleton.1 ha
      cases op with
      | pause h r => exact absurd hσ (ho.calls n t h r)
      | _ => rfl)
    (fun n t a rest e todo ans _ hact hp b hb => by
      rcases List.mem_append.1 hb with hb | hb
      · exact (act_leads hact).pausesOutside ho.uses (hp a List.mem_cons_self) b hb
      · exact hp b (List.mem_cons_of_mem _ hb)) n t
  intro hmem
  exact absurd (hall _ hmem) (by simp [pausesOutside])

theorem Shielded.stance_take (hd : d.Disciplined) (hp : ∀ u c e, .pauseAt c e ∉ (d.thread u).agenda)
    (ht : d.Holds t) (hs : d.Shielded t c) (hturn : turn ≠ .step t)
    (hx : d.contexts[c]? = some x) :
    ∃ y, (d.take turn).contexts[c]? = some y ∧ y.handle = x.handle ∧ y.stance = x.stance := by
  rcases take_cases d turn with
    h | ⟨u, d', rfl, hst, h⟩ | ⟨u, op, -, -, -, h⟩ | ⟨u, k, z, -, hz, h⟩ <;>
    rw [h]
  · exact ⟨x, hx, rfl, rfl⟩
  · obtain ⟨a, rest, e, todo, ans, hag, hact, rfl, -⟩ := step_cases hst
    have hu : u ≠ t := by
      rintro rfl
      exact hturn rfl
    obtain ⟨y, hy, hh, -, hk, -⟩ := act_context hact hx
    refine ⟨y, hy, hh, hk fun ha => ?_⟩
    -- whoever alters it closes it, pauses it from outside, or holds the lock
    by_cases hc : a = .close c
    · subst hc
      have hcl := hs u hu
      rw [hag] at hcl
      exact (hcl.tail (by simp)).1 rfl
    · have hpa : ∀ e, a ≠ .pauseAt c e := by
        rintro e rfl
        exact hp u c e (by rw [hag]; exact List.mem_cons_self)
      exact hu (Holds.unique (hd.holds_of_alters hag ha hc hpa) ht)
  · exact ⟨x, hx, rfl, rfl⟩
  · obtain ⟨y, hy, rfl | rfl⟩ := context_wake u hz hx <;> exact ⟨_, hy, rfl, rfl⟩

/-- **Freeze.** While a thread holds the lock, no turn of another thread changes the stance of a
context that is registered at some instant of that time. -/
theorem Initial.stance_frozen (hd : d.Initial) (ho : HandsOff S σ)
    (ht : ∀ n, i ≤ n → n ≤ j → (d.instant σ n).Holds t) (him : i ≤ m)
    (hc : c ∈ (d.instant σ m).registered) (hik : i ≤ k) (hkj : k < j) (hk : σ k ≠ .step t)
    (hx : (d.instant σ k).contexts[c]? = some x) :
    ∃ y, (d.instant σ (k + 1)).contexts[c]? = some y ∧ y.stance = x.stance := by
  have hs : (d.instant σ k).Shielded t c := by
    rcases Nat.le_total m k with hmk | hkm
    · exact ((hd.orderly.instant σ m).shielded hc t).during
        (fun n hmn hnk => ht n (Nat.le_trans him hmn) (by omega)) hmk
    · exact (hd.orderly.instant σ k).shielded (registered_of_later hkm hx hc) t
  obtain ⟨y, hy, -, hst⟩ := hs.stance_take (hd.disciplined.instant σ k)
    (fun u c e => ho.pauseAt_not_mem hd k u c e) (ht k hik (Nat.le_of_lt hkj)) hk hx
  rw [instant_succ]
  exact ⟨y, hy, hst⟩

end Debugger

end ScriptDebug
