import ScriptDebug.Proofs.Turns

/-!
# A thread that is left alone

What becomes of the state when one thread works and no other one takes a turn.

1. `Reaches t d x e y`: with the shared state `d` and thread `t` being `x`, its steps lead to the
   state `e` and to `y`. What a thread still has to do behind its present work stays behind it
   (`Reaches.append`); so pieces of work are looked at one by one (`Works.append`).
2. The lock is taken if no other thread holds it, and given back as it was (`works_lock`,
   `works_unlock`).
3. A thread that has reached where it can go no further is there after any number of steps more
   (`Reaches.settles`), and there is one such place only (`Settles.unique`).
-/

namespace ScriptDebug.Debugger

variable {S : Setup} {d e f : Debugger S} {t : ThreadId} {x y z : Thread S} {a : Action S}
  {as bs todo rest : List (Action S)} {last mid ans : Answer} {op : Operation}

/-! ## Reaching -/

/-- **Reaches.** The steps of one thread, each on the first action of its agenda. -/
inductive Reaches (t : ThreadId) : Debugger S → Thread S → Debugger S → Thread S → Prop
  | refl (d : Debugger S) (x : Thread S) : Reaches t d x d x
  | step {d d' e : Debugger S} {a : Action S} {rest todo : List (Action S)} {last ans : Answer}
      {y : Thread S} (hact : d.act t last a = some (d', todo, ans))
      (hrest : Reaches t d' ⟨todo ++ rest, ans⟩ e y) :
      Reaches t d ⟨a :: rest, last⟩ e y

theorem Reaches.trans (h : Reaches t d x e y) (h' : Reaches t e y f z) : Reaches t d x f z := by
  induction h with
  | refl => exact h'
  | step hact _ ih => exact .step hact (ih h')

/-- More work behind the present one waits for it. -/
theorem Reaches.append (h : Reaches t d x e y) (bs : List (Action S)) :
    Reaches t d ⟨x.agenda ++ bs, x.answer⟩ e ⟨y.agenda ++ bs, y.answer⟩ := by
  induction h with
  | refl => exact .refl _ _
  | step hact _ ih => exact .step hact (List.append_assoc _ _ bs ▸ ih)

theorem Reaches.threads (h : Reaches t d x e y) : e.threads = d.threads := by
  induction h with
  | refl => rfl
  | step hact _ ih => exact ih.trans (act_threads hact)

/-- **Works.** Some work is done, and leaves an answer. -/
def Works (t : ThreadId) (d : Debugger S) (last : Answer) (as : List (Action S)) (e : Debugger S)
    (ans : Answer) : Prop :=
  Reaches t d ⟨as, last⟩ e ⟨[], ans⟩

theorem works_nil (d : Debugger S) (last : Answer) : Works t d last [] d last := .refl _ _

theorem Works.reaches (h : Works t d last as e mid) (h' : Reaches t e ⟨bs, mid⟩ f y) :
    Reaches t d ⟨as ++ bs, last⟩ f y :=
  (Reaches.append h bs).trans h'

theorem Works.append (h : Works t d last as e mid) (h' : Works t e mid bs f ans) :
    Works t d last (as ++ bs) f ans :=
  h.reaches h'

theorem Works.cons (hact : d.act t last a = some (e, todo, mid))
    (h : Works t e mid (todo ++ as) f ans) :
    Works t d last (a :: as) f ans :=
  .step hact h

theorem Works.of_act (hact : d.act t last a = some (e, todo, mid)) (h : Works t e mid todo f ans) :
    Works t d last [a] f ans :=
  .cons hact (by rw [List.append_nil]; exact h)

theorem works_act (hact : d.act t last a = some (e, [], ans)) : Works t d last [a] e ans :=
  .of_act hact (works_nil e ans)

/-! ## The lock -/

/-- **Open.** No other thread holds the lock. -/
def Open (d : Debugger S) (t : ThreadId) : Prop := ∀ hold, d.dispatch = some hold → hold.owner = t

/-- The lock as it is when a thread takes it once more. -/
def locked (d : Debugger S) (t : ThreadId) : Debugger S :=
  { d with dispatch := some ⟨t, match d.dispatch with | none => 0 | some hold => hold.again + 1⟩ }

theorem open_of_free (h : d.dispatch = none) : d.Open t := by
  intro hold hhold
  rw [h] at hhold
  cases hhold

theorem open_locked (d : Debugger S) (t : ThreadId) : (d.locked t).Open t := by
  rintro hold ⟨⟩
  rfl

theorem act_lock (h : d.Open t) (last : Answer) :
    d.act t last .lock = some (d.locked t, [], last) := by
  simp only [act, locked]
  cases hd : d.dispatch with
  | none => rfl
  | some hold => simp [h hold hd]

theorem works_lock (h : d.Open t) (last : Answer) : Works t d last [.lock] (d.locked t) last :=
  works_act (act_lock h last)

theorem act_unlock (h : d.Open t) (he : e.dispatch = (d.locked t).dispatch) (last : Answer) :
    e.act t last .unlock = some ({ e with dispatch := d.dispatch }, [], last) := by
  simp only [act, he, locked]
  cases hd : d.dispatch with
  | none => rfl
  | some hold =>
    obtain ⟨owner, again⟩ := hold
    obtain rfl : owner = t := h _ hd
    rfl

theorem works_unlock (h : d.Open t) (he : e.dispatch = (d.locked t).dispatch) (last : Answer) :
    Works t e last [.unlock] { e with dispatch := d.dispatch } last :=
  works_act (act_unlock h he last)

/-! ## Threads apart from the state -/

/-- What an action does has nothing to do with what the threads have to do. -/
theorem act_setThread (d : Debugger S) (t u : ThreadId) (x : Thread S) (last : Answer)
    (a : Action S) :
    (d.setThread u x).act t last a =
      (d.act t last a).map fun (e, todo, ans) => (e.setThread u x, todo, ans) := by
  cases a with
  | begin op =>
    cases op <;> simp only [act, beginOperation, beginLook, setThread] <;> repeat' split
    all_goals first | rfl | simp_all [lookup]
  | resumeEach cs n =>
    cases cs <;> simp only [act, setThread, setContext] <;> repeat' split
    all_goals rfl
  | describe cs done =>
    cases cs <;> simp only [act, setThread] <;> repeat' split
    all_goals rfl
  | _ =>
    simp only [act, setThread, setContext]
    repeat' split
    all_goals first | rfl | simp_all [lookup]

theorem setThread_setThread (d : Debugger S) (t : ThreadId) (x y : Thread S) :
    (d.setThread t x).setThread t y = d.setThread t y := by
  simp [setThread]

theorem step_setThread (ht : t < d.threads.length) (hact : d.act t last a = some (e, todo, ans)) :
    (d.setThread t ⟨a :: rest, last⟩).step t = some (e.setThread t ⟨todo ++ rest, ans⟩) := by
  simp only [step, thread_setThread_self ht, act_setThread, hact, Option.map_some,
    setThread_setThread]

theorem Reaches.runThread (h : Reaches t d x e y) (ht : t < d.threads.length) :
    ∃ n, ∀ m, (d.setThread t x).runThread t (n + m) = (e.setThread t y).runThread t m := by
  induction h with
  | refl => exact ⟨0, fun m => by rw [Nat.zero_add]⟩
  | @step d d' e a rest todo last ans y hact _ ih =>
    obtain ⟨n, hn⟩ := ih (by rw [act_threads hact]; exact ht)
    refine ⟨n + 1, fun m => ?_⟩
    rw [Nat.add_right_comm, Debugger.runThread, step_setThread ht hact]
    exact hn m

theorem runThread_of_stuck (h : d.step t = none) (n : Nat) : d.runThread t n = d := by
  cases n with
  | zero => rfl
  | succ n => simp only [runThread, h]

/-! ## Settling -/

/-- **Settles.** An operation is given to a thread, and nobody else takes a turn: from some step on
the state is `e`, and the thread is `y` and goes no further. -/
def Settles (d : Debugger S) (t : ThreadId) (op : Operation) (e : Debugger S)
    (y : Thread S) : Prop :=
  (e.setThread t y).step t = none ∧ ∃ n, ∀ m, n ≤ m → (d.call t op).runThread t m = e.setThread t y

/-- **Finishes.** The thread settles with nothing left to do, and with an answer. -/
def Finishes (d : Debugger S) (t : ThreadId) (op : Operation) (e : Debugger S)
    (ans : Answer) : Prop :=
  d.Settles t op e ⟨[], ans⟩

theorem Reaches.settles (h : Reaches t d ⟨[.begin op], .none⟩ e y) (ht : t < d.threads.length)
    (hstuck : (e.setThread t y).step t = none) : d.Settles t op e y := by
  obtain ⟨n, hn⟩ := h.runThread ht
  refine ⟨hstuck, n, fun m hm => ?_⟩
  obtain ⟨k, rfl⟩ := Nat.exists_eq_add_of_le hm
  exact (hn k).trans (runThread_of_stuck hstuck k)

theorem Works.finishes (h : Works t d .none [.begin op] e ans) (ht : t < d.threads.length) :
    d.Finishes t op e ans := by
  have hte : t < e.threads.length := by
    rw [Reaches.threads h]
    exact ht
  refine Reaches.settles h ht ?_
  simp only [step, thread_setThread_self hte]

theorem Settles.unique (h : d.Settles t op e y) (h' : d.Settles t op f z) :
    e.setThread t y = f.setThread t z := by
  obtain ⟨-, n, hn⟩ := h
  obtain ⟨-, m, hm⟩ := h'
  rw [← hn (max n m) (Nat.le_max_left n m), hm (max n m) (Nat.le_max_right n m)]

theorem Finishes.unique (h : d.Finishes t op e ans) (h' : d.Finishes t op f mid)
    (hf : t < f.threads.length) :
    ans = mid := by
  have hsame : e.setThread t ⟨[], ans⟩ = f.setThread t ⟨[], mid⟩ := Settles.unique h h'
  have hlen : e.threads.length = f.threads.length := by
    simpa [setThread] using congrArg (fun d => d.threads.length) hsame
  have hthread := congrArg (fun d => (thread d t).answer) hsame
  simpa [thread_setThread_self hf, thread_setThread_self (hlen ▸ hf)] using hthread

end ScriptDebug.Debugger
