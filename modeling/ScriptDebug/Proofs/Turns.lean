import ScriptDebug.Proofs.Yields

/-!
# Schedules, turn by turn

A schedule gives every turn its number. `instant d σ n` is the state before turn `n` of the schedule
`σ`, so that one can speak of what holds at some turn, and from one turn to another. `step_cases`
takes a step apart: the action at the head of an agenda, and what comes in its place.
-/

namespace ScriptDebug.Debugger

variable {S : Setup}

/-- **Schedule**, with a number for every turn. -/
abbrev Schedule := Nat → Turn

/-- The state before turn `n`. -/
def instant (d : Debugger S) (σ : Schedule) (n : Nat) : Debugger S :=
  d.takeAll ((List.range n).map σ)

@[simp] theorem instant_zero (d : Debugger S) (σ : Schedule) : d.instant σ 0 = d := rfl

theorem instant_succ (d : Debugger S) (σ : Schedule) (n : Nat) :
    d.instant σ (n + 1) = (d.instant σ n).take (σ n) := by
  unfold instant
  rw [List.range_succ, List.map_append, takeAll_append]
  rfl

theorem instant_of_step {d d' : Debugger S} {σ : Schedule} {n : Nat} {t : ThreadId}
    (hturn : σ n = .step t) (hs : (d.instant σ n).step t = some d') :
    d.instant σ (n + 1) = d' := by
  rw [instant_succ, hturn]
  simp [take, hs]

theorem instant_of_stuck {d : Debugger S} {σ : Schedule} {n : Nat} {t : ThreadId}
    (hturn : σ n = .step t) (hs : (d.instant σ n).step t = none) :
    d.instant σ (n + 1) = d.instant σ n := by
  rw [instant_succ, hturn]
  simp [take, hs]

/-- Nothing changes any more when all turns are those of a thread that has nothing to do. -/
theorem instant_of_idle {d : Debugger S} {σ : Schedule} {n : Nat} {t : ThreadId}
    (hturns : ∀ i, n ≤ i → σ i = .step t) (hidle : ((d.instant σ n).thread t).agenda = []) {i : Nat}
    (hni : n ≤ i) :
    d.instant σ i = d.instant σ n := by
  induction hni with
  | refl => rfl
  | @step i hni ih =>
    refine (instant_of_stuck (hturns i hni) ?_).trans ih
    rw [ih]
    simp only [step, hidle]

/-- The schedule that takes some turns, and lets the first thread go on for ever after. -/
def Schedule.ofTurns (turns : List Turn) : Schedule := fun n => (turns[n]?).getD (.step 0)

theorem Schedule.ofTurns_mem (turns : List Turn) (n : Nat) :
    ofTurns turns n ∈ turns ∨ ofTurns turns n = .step 0 := by
  unfold ofTurns
  cases h : turns[n]? with
  | none => exact .inr rfl
  | some turn => exact .inl (List.mem_of_getElem? h)

/-- Nothing is registered, the lock is free, and no thread has anything to do. -/
structure Initial (d : Debugger S) : Prop where
  registry : d.registry = []
  contexts : d.contexts = []
  dispatch : d.dispatch = none
  idle : ∀ t, (d.thread t).agenda = []

/-! ## Threads -/

theorem lt_length_of_agenda {d : Debugger S} {t : ThreadId} (h : (d.thread t).agenda ≠ []) :
    t < d.threads.length := by
  rcases Nat.lt_or_ge t d.threads.length with ht | ht
  · exact ht
  · exact absurd (by simp [thread, List.getElem?_eq_none ht]) h

theorem idle_of_all {d : Debugger S} (h : d.threads.all (fun x => x.agenda.isEmpty) = true)
    (t : ThreadId) :
    (d.thread t).agenda = [] := by
  refine Classical.byContradiction fun hne => ?_
  have ht := lt_length_of_agenda hne
  have hidle := List.all_eq_true.1 h d.threads[t] (List.getElem_mem ht)
  rw [thread, List.getElem?_eq_getElem ht] at hne
  exact hne (List.isEmpty_iff.1 hidle)

theorem thread_setThread_self {d : Debugger S} {t : ThreadId} (ht : t < d.threads.length)
    (x : Thread S) : (d.setThread t x).thread t = x := by
  simp [thread, setThread, ht]

theorem thread_setThread_ne {d : Debugger S} {t u : ThreadId} (h : u ≠ t) (x : Thread S) :
    (d.setThread t x).thread u = d.thread u := by
  simp [thread, setThread, List.getElem?_set_ne (Ne.symm h)]

section Fields

variable (d : Debugger S) (t : ThreadId) (x : Thread S)

@[simp] theorem setThread_contexts : (d.setThread t x).contexts = d.contexts := rfl
@[simp] theorem setThread_dispatch : (d.setThread t x).dispatch = d.dispatch := rfl
@[simp] theorem setThread_registered : (d.setThread t x).registered = d.registered := rfl

end Fields

theorem getElem?_setContext (d : Debugger S) (c k : ContextId) (y : Context) :
    (d.setContext k y).contexts[c]? = if k = c then (d.contexts[c]?).map fun _ => y
      else d.contexts[c]? := by
  unfold setContext
  by_cases hkc : k = c
  · subst hkc
    rw [if_pos rfl]
    rcases Nat.lt_or_ge k d.contexts.length with hlt | hge
    · rw [List.getElem?_set_self hlt, List.getElem?_eq_getElem hlt]
      rfl
    · simp [hge]
  · rw [if_neg hkc]
    exact List.getElem?_set_ne hkc

/-- A thread that looks again at a context early leaves every context there, and takes at most
itself out of the queue. -/
theorem context_wake {d : Debugger S} {c k : ContextId} {x z : Context} (t : ThreadId)
    (hz : d.contexts[k]? = some z) (hx : d.contexts[c]? = some x) :
    ∃ y, (d.setContext k (z.wake t)).contexts[c]? = some y ∧ (y = x ∨ y = x.wake t) := by
  rw [getElem?_setContext]
  by_cases hkc : k = c
  · subst hkc
    obtain rfl : z = x := Option.some.inj (hz.symm.trans hx)
    rw [if_pos rfl, hx]
    exact ⟨z.wake t, rfl, .inr rfl⟩
  · rw [if_neg hkc]
    exact ⟨x, hx, .inl rfl⟩

theorem context_of_wake {d : Debugger S} {c k : ContextId} {y z : Context} {t : ThreadId}
    (hz : d.contexts[k]? = some z) (hy : (d.setContext k (z.wake t)).contexts[c]? = some y) :
    ∃ x, d.contexts[c]? = some x ∧ (y = x ∨ y = x.wake t) := by
  rw [getElem?_setContext] at hy
  by_cases hkc : k = c
  · subst hkc
    rw [if_pos rfl, hz] at hy
    exact ⟨z, hz, .inr (Option.some.inj hy).symm⟩
  · rw [if_neg hkc] at hy
    exact ⟨y, hy, .inl rfl⟩

theorem act_threads {d e : Debugger S} {t : ThreadId} {last ans : Answer} {a : Action S}
    {todo : List (Action S)} (h : d.act t last a = some (e, todo, ans)) :
    e.threads = d.threads := by
  cases act_yields h <;> rfl

/-! ## One turn -/

/-- **A step.** The head of an agenda is acted on, and its place is taken by what it leads to. -/
theorem step_cases {d d' : Debugger S} {t : ThreadId} (h : d.step t = some d') :
    ∃ a rest e todo ans, (d.thread t).agenda = a :: rest ∧
      d.act t (d.thread t).answer a = some (e, todo, ans) ∧ d' = e.setThread t ⟨todo ++ rest, ans⟩ ∧
      d'.thread t = ⟨todo ++ rest, ans⟩ ∧ ∀ u, u ≠ t → d'.thread u = d.thread u := by
  unfold step at h
  split at h
  · exact absurd h (by simp)
  · rename_i a rest hag
    rw [Option.map_eq_some_iff] at h
    obtain ⟨⟨e, todo, ans⟩, hact, rfl⟩ := h
    have hth : e.threads = d.threads := act_threads hact
    have ht : t < e.threads.length := by
      rw [hth]
      exact lt_length_of_agenda (by rw [hag]; exact List.cons_ne_nil a rest)
    refine ⟨a, rest, e, todo, ans, hag, hact, rfl, thread_setThread_self ht _, fun u hu => ?_⟩
    rw [thread_setThread_ne hu]
    unfold thread
    rw [hth]

/-- **A turn** does nothing, or it is a step, a call of an idle thread, or an early wake-up. -/
theorem take_cases (d : Debugger S) (turn : Turn) :
    d.take turn = d ∨
      (∃ t d', turn = .step t ∧ d.step t = some d' ∧ d.take turn = d') ∨
      (∃ t op, turn = .call t op ∧ (d.thread t).agenda = [] ∧ t < d.threads.length ∧
        d.take turn = d.call t op) ∨
      ∃ t c x, turn = .wake t c ∧ d.contexts[c]? = some x ∧
        d.take turn = d.setContext c (x.wake t) := by
  cases turn with
  | step t =>
    cases hs : d.step t with
    | none => exact .inl (by simp [take, hs])
    | some d' => exact .inr (.inl ⟨t, d', rfl, hs, by simp [take, hs]⟩)
  | call t op =>
    by_cases hid : (d.thread t).agenda = []
    · rcases Nat.lt_or_ge t d.threads.length with ht | ht
      · exact .inr (.inr (.inl ⟨t, op, rfl, hid, ht, by simp [take, hid]⟩))
      · exact .inl (by simp [take, hid, call, setThread, List.set_eq_of_length_le ht])
    · exact .inl (by simp [take, hid])
  | wake t c =>
    cases hx : d.contexts[c]? with
    | none => exact .inl (by simp [take, wakeEarly, hx])
    | some x => exact .inr (.inr (.inr ⟨t, c, x, rfl, hx, by simp [take, wakeEarly, hx]⟩))

theorem thread_call_self {d : Debugger S} {t : ThreadId} (ht : t < d.threads.length)
    (op : Operation) : (d.call t op).thread t = { agenda := [.begin op] } :=
  thread_setThread_self ht _

theorem thread_call_ne {d : Debugger S} {t u : ThreadId} (h : u ≠ t) (op : Operation) :
    (d.call t op).thread u = d.thread u :=
  thread_setThread_ne h _

theorem agenda_of_call {d : Debugger S} {σ : Schedule} {n : Nat} {t : ThreadId} {op : Operation}
    (hturn : σ n = .call t op) (hidle : ((d.instant σ n).thread t).agenda = [])
    (ht : t < (d.instant σ n).threads.length) :
    ((d.instant σ (n + 1)).thread t).agenda = [.begin op] := by
  rw [instant_succ, hturn]
  simp only [take, hidle, List.isEmpty_nil, if_true, thread_call_self ht]

theorem agenda_call (d : Debugger S) (t u : ThreadId) (op : Operation) :
    (d.call t op).thread u = d.thread u ∨
    u = t ∧ (d.call t op).thread u = ⟨[.begin op], .none⟩ := by
  by_cases hut : u = t
  · subst hut
    rcases Nat.lt_or_ge u d.threads.length with hlt | hge
    · exact .inr ⟨rfl, thread_call_self hlt op⟩
    · refine .inl ?_
      unfold call setThread thread
      rw [List.set_eq_of_length_le hge]
  · exact .inl (thread_call_ne hut op)

/-- A new thread with nothing to do is like one that never started. -/
theorem thread_append (d : Debugger S) (t : ThreadId) :
    ({ d with threads := d.threads ++ [{}] } : Debugger S).thread t = d.thread t := by
  unfold thread
  rcases Nat.lt_or_ge t d.threads.length with hlt | hge
  · rw [List.getElem?_append_left hlt]
  · rw [List.getElem?_append_right hge, List.getElem?_eq_none hge]
    cases t - d.threads.length <;> rfl

/-- A turn of another kind than a step of a thread leaves the thread alone,
or gives it an operation. -/
theorem thread_take_ne (d : Debugger S) {turn : Turn} {t : ThreadId} (hturn : turn ≠ .step t) :
    (d.take turn).thread t = d.thread t ∨
      ∃ op, turn = .call t op ∧ (d.thread t).agenda = [] ∧
        (d.take turn).thread t = { agenda := [.begin op] } := by
  rcases take_cases d turn with
    h | ⟨u, d', rfl, hs, h⟩ | ⟨u, op, rfl, hid, hu, h⟩ | ⟨u, c, x, -, -, h⟩ <;>
    rw [h]
  · exact .inl rfl
  · obtain ⟨a, rest, e, todo, ans, -, -, -, -, hne⟩ := step_cases hs
    refine .inl (hne t ?_)
    rintro rfl
    exact hturn rfl
  · by_cases htu : t = u
    · subst htu
      exact .inr ⟨op, rfl, hid, thread_call_self hu op⟩
    · exact .inl (thread_call_ne htu op)
  · exact .inl rfl

/-- **A run.** What no step, call or wake-up breaks holds at every instant. -/
theorem instant_invariant {P : Debugger S → Prop} {d : Debugger S} {σ : Schedule} (h0 : P d)
    (hstep : ∀ n t d', P (d.instant σ n) → (d.instant σ n).step t = some d' → P d')
    (hcall : ∀ n t op, σ n = .call t op → P (d.instant σ n) →
      ((d.instant σ n).thread t).agenda = [] → t < (d.instant σ n).threads.length →
      P ((d.instant σ n).call t op))
    (hwake : ∀ n t c x, P (d.instant σ n) → (d.instant σ n).contexts[c]? = some x →
      P ((d.instant σ n).setContext c (x.wake t))) (n : Nat) : P (d.instant σ n) := by
  induction n with
  | zero => exact h0
  | succ n ih =>
    rw [instant_succ]
    rcases take_cases (d.instant σ n) (σ n) with
      h | ⟨t, d', -, hs, h⟩ | ⟨t, op, hσ, hid, ht, h⟩ | ⟨t, c, x, -, hx, h⟩ <;> rw [h]
    · exact ih
    · exact hstep n t d' ih hs
    · exact hcall n t op hσ ih hid ht
    · exact hwake n t c x ih hx

/-- **Agendas along a run.** What holds of an empty agenda and of an operation, and is kept by every
step, holds of every agenda. -/
theorem agenda_invariant {P : ThreadId → List (Action S) → Prop} {d : Debugger S} {σ : Schedule}
    (hd : d.Initial) (hnil : ∀ t, P t [])
    (hcall : ∀ n t op, σ n = .call t op → P t [.begin op])
    (hstep : ∀ n t a rest e todo ans, ((d.instant σ n).thread t).agenda = a :: rest →
      (d.instant σ n).act t ((d.instant σ n).thread t).answer a = some (e, todo, ans) →
      P t (a :: rest) → P t (todo ++ rest)) (n : Nat) (t : ThreadId) :
    P t ((d.instant σ n).thread t).agenda := by
  refine instant_invariant (P := fun d => ∀ t, P t (d.thread t).agenda) (fun t => ?_)
    (fun n u d' hn hs t => ?_) (fun n u op hσ hn _ hu t => ?_) (fun _ _ _ _ hn _ t => hn t) n t
  · rw [hd.idle t]
    exact hnil t
  · obtain ⟨a, rest, e, todo, ans, hag, hact, -, hself, hne⟩ := step_cases hs
    by_cases htu : t = u
    · subst htu
      rw [hself]
      exact hstep n t a rest e todo ans hag hact (by rw [← hag]; exact hn t)
    · rw [hne t htu]
      exact hn t
  · by_cases htu : t = u
    · subst htu
      rw [thread_call_self hu]
      exact hcall n t op hσ
    · rw [thread_call_ne htu]
      exact hn t

end ScriptDebug.Debugger
