import ScriptDebug.Proofs.Turns

/-!
# Calls of operations

An agenda is a stack. A step takes the head off, puts on what the head leads to, and does not look
at the rest. So what lies deeper stays until all above it is done (`keeps_or_does`); a thread that
has begun an operation comes back to the rest of its agenda (`Completes`), and on its way it has
acted on every action that the operation put on the agenda (`Completes.does`).
-/

namespace ScriptDebug.Debugger

variable {S : Setup} {d e : Debugger S} {σ : Schedule} {t u : ThreadId} {op : Operation}
  {a b : Action S} {as pre rest todo : List (Action S)} {ans : Answer} {i j k m n r : Nat}

/-- **Deed.** At turn `n` a thread acts on the head of its agenda. -/
structure Does (d : Debugger S) (σ : Schedule) (n : Nat) (t : ThreadId) (a : Action S)
    (rest : List (Action S)) : Prop where
  turn : σ n = .step t
  agenda : ((d.instant σ n).thread t).agenda = a :: rest
  able : ((d.instant σ n).step t).isSome = true

theorem thread_eq_of_turn (h : σ n = .step t) (h' : σ n = .step u) : t = u := by
  rw [h] at h'
  cases h'
  rfl

theorem instant_of_act (hturn : σ n = .step t)
    (hag : ((d.instant σ n).thread t).agenda = a :: rest)
    (hact : (d.instant σ n).act t ((d.instant σ n).thread t).answer a = some (e, todo, ans)) :
    d.instant σ (n + 1) = e.setThread t ⟨todo ++ rest, ans⟩ := by
  refine instant_of_step hturn ?_
  simp only [step, hag, hact]
  rfl

theorem Does.of_act (hturn : σ n = .step t)
    (hag : ((d.instant σ n).thread t).agenda = a :: rest)
    (hact : (d.instant σ n).act t ((d.instant σ n).thread t).answer a = some (e, todo, ans)) :
    d.Does σ n t a rest := by
  refine ⟨hturn, hag, ?_⟩
  simp only [step, hag, hact]
  rfl

/-- **What a deed leaves.** -/
theorem Does.next (h : d.Does σ n t a rest) :
    ∃ e todo ans,
      (d.instant σ n).act t ((d.instant σ n).thread t).answer a = some (e, todo, ans) ∧
      d.instant σ (n + 1) = e.setThread t ⟨todo ++ rest, ans⟩ ∧
      (d.instant σ (n + 1)).thread t = ⟨todo ++ rest, ans⟩ := by
  obtain ⟨d', hs⟩ := Option.isSome_iff_exists.1 h.able
  obtain ⟨b, rest', e, todo, ans, hag, hact, rfl, hself, -⟩ := step_cases hs
  obtain ⟨rfl, rfl⟩ := List.cons_eq_cons.1 (hag.symm.trans h.agenda)
  have hnext := instant_of_act h.turn h.agenda hact
  exact ⟨e, todo, ans, hact, hnext, by rw [hnext]; exact hself⟩

theorem does_of_turn (d : Debugger S) (hturn : σ n = .step t) :
    d.instant σ (n + 1) = d.instant σ n ∨ ∃ a rest, d.Does σ n t a rest := by
  cases hs : (d.instant σ n).step t with
  | none => exact .inl (instant_of_stuck hturn hs)
  | some d' =>
    obtain ⟨a, rest, e, todo, ans, hag, hact, -⟩ := step_cases hs
    exact .inr ⟨a, rest, .of_act hturn hag hact⟩

/-- At any turn a thread stays as it is, is called, or acts. -/
theorem thread_succ (d : Debugger S) (σ : Schedule) (n : Nat) (t : ThreadId) :
    (d.instant σ (n + 1)).thread t = (d.instant σ n).thread t ∨
      (((d.instant σ n).thread t).agenda = [] ∧ ∃ op, σ n = .call t op ∧
        (d.instant σ (n + 1)).thread t = { agenda := [.begin op] }) ∨
      ∃ a rest, d.Does σ n t a rest := by
  by_cases hturn : σ n = .step t
  · rcases does_of_turn d hturn with h | h
    · exact .inl (by rw [h])
    · exact .inr (.inr h)
  · rw [instant_succ]
    rcases thread_take_ne (d.instant σ n) hturn with h | ⟨op, hop, hid, h⟩
    · exact .inl h
    · exact .inr (.inl ⟨hid, op, hop, h⟩)

theorem thread_of_stuck (hag : ((d.instant σ m).thread t).agenda ≠ []) (hmn : m ≤ n)
    (hstuck : ∀ k, m ≤ k → k < n → σ k = .step t → (d.instant σ k).step t = none) :
    (d.instant σ n).thread t = (d.instant σ m).thread t := by
  induction hmn with
  | refl => rfl
  | @step n hmn ih =>
    have hsame := ih fun k hmk hkn => hstuck k hmk (Nat.lt_succ_of_lt hkn)
    rw [← hsame]
    by_cases hturn : σ n = .step t
    · rw [instant_of_stuck hturn (hstuck n hmn (Nat.lt_succ_self n) hturn)]
    · rw [instant_succ]
      rcases thread_take_ne (d.instant σ n) hturn with h | ⟨op, -, hid, -⟩
      · exact h
      · rw [hsame] at hid
        exact absurd hid hag

/-! ## What stays on an agenda -/

/-- **Keeps.** From one turn to another, some actions stay on the agenda of a thread,
as the last ones. -/
def Keeps (d : Debugger S) (σ : Schedule) (t : ThreadId) (as : List (Action S))
    (i j : Nat) : Prop :=
  ∀ n, i ≤ n → n ≤ j → ∃ pre, ((d.instant σ n).thread t).agenda = pre ++ as

theorem keeps_self (h : ((d.instant σ n).thread t).agenda = pre ++ as) : d.Keeps σ t as n n := by
  intro i hni hin
  obtain rfl := Nat.le_antisymm hni hin
  exact ⟨pre, h⟩

theorem Keeps.concat (h : d.Keeps σ t as i n)
    (hag : ((d.instant σ (n + 1)).thread t).agenda = pre ++ as) : d.Keeps σ t as i (n + 1) := by
  intro k hik hkn
  rcases Nat.lt_or_eq_of_le hkn with hlt | rfl
  · exact h k hik (Nat.le_of_lt_succ hlt)
  · exact ⟨pre, hag⟩

/-- **A stack.** An action stays on an agenda, above what is below it,
until the thread acts on it. -/
theorem keeps_or_does (hag : ((d.instant σ m).thread t).agenda = pre ++ b :: rest) (hmn : m ≤ n) :
    d.Keeps σ t (b :: rest) m n ∨
      ∃ j, m ≤ j ∧ j < n ∧ d.Keeps σ t (b :: rest) m j ∧ d.Does σ j t b rest := by
  induction hmn with
  | refl => exact .inl (keeps_self hag)
  | @step n hmn ih =>
    rcases ih with hk | ⟨j, hmj, hjn, hk, hd⟩
    · obtain ⟨pre', hn⟩ := hk n hmn (Nat.le_refl n)
      rcases thread_succ d σ n t with h | ⟨hid, -⟩ | ⟨a, rest', hdoes⟩
      · exact .inl (hk.concat (by rw [h]; exact hn))
      · rw [hid] at hn
        exact absurd hn (by simp)
      · have hcons := hdoes.agenda
        rw [hn] at hcons
        cases pre' with
        | nil =>
          obtain ⟨rfl, rfl⟩ := List.cons_eq_cons.1 hcons
          exact .inr ⟨n, hmn, Nat.lt_succ_self n, hk, hdoes⟩
        | cons a' pre' =>
          obtain ⟨-, hrest⟩ := List.cons_eq_cons.1 hcons
          obtain ⟨e, todo, ans, -, -, hself⟩ := hdoes.next
          have hnext : ((d.instant σ (n + 1)).thread t).agenda = (todo ++ pre') ++ b :: rest := by
            rw [hself, ← hrest]
            exact (List.append_assoc ..).symm
          exact .inl (hk.concat hnext)
    · exact .inr ⟨j, hmj, Nat.lt_succ_of_lt hjn, hk, hd⟩

/-- Between two turns of a thread, nothing happens on a busy agenda. -/
theorem exists_turn (hag : ((d.instant σ n).thread t).agenda ≠ [])
    (hfair : ∀ k, ∃ m, k ≤ m ∧ σ m = .step t) :
    ∃ m, n ≤ m ∧ σ m = .step t ∧ (d.instant σ m).thread t = (d.instant σ n).thread t := by
  obtain ⟨k, hnk, hk⟩ := hfair n
  obtain ⟨l, rfl⟩ := Nat.exists_eq_add_of_le hnk
  clear hnk
  induction l generalizing n with
  | zero => exact ⟨n, Nat.le_refl n, hk, rfl⟩
  | succ l ih =>
    by_cases hturn : σ n = .step t
    · exact ⟨n, Nat.le_refl n, hturn, rfl⟩
    have hsame : (d.instant σ (n + 1)).thread t = (d.instant σ n).thread t := by
      rw [instant_succ]
      rcases thread_take_ne (d.instant σ n) hturn with h | ⟨op, -, hid, -⟩
      · exact h
      · exact absurd hid hag
    obtain ⟨m, hnm, hm, hth⟩ := ih (n := n + 1) (by rw [hsame]; exact hag)
      (by rw [show n + 1 + l = n + (l + 1) by omega]; exact hk)
    exact ⟨m, Nat.le_of_succ_le hnm, hm, hth.trans hsame⟩

/-! ## Calls -/

/-- **Call.** A thread begins an operation at turn `k`, above the rest of its agenda, and is done
with it before turn `r`. -/
structure Completes (d : Debugger S) (σ : Schedule) (t : ThreadId) (op : Operation)
    (rest : List (Action S)) (k r : Nat) : Prop where
  turn : σ k = .step t
  begins : ((d.instant σ k).thread t).agenda = .begin op :: rest
  before : k < r
  inside : ∀ n, k < n → n < r → ∃ pre, pre ≠ [] ∧ ((d.instant σ n).thread t).agenda = pre ++ rest
  returned : ((d.instant σ r).thread t).agenda = rest

/-- What stands above the rest of the agenda in a call is acted on before the call returns. -/
theorem Completes.does (h : d.Completes σ t op rest k r)
    (hag : ((d.instant σ m).thread t).agenda = pre ++ b :: (as ++ rest)) (hmr : m ≤ r) :
    ∃ j, m ≤ j ∧ j < r ∧ d.Keeps σ t (b :: (as ++ rest)) m j ∧ d.Does σ j t b (as ++ rest) := by
  refine (keeps_or_does hag hmr).resolve_left fun hk => ?_
  obtain ⟨pre', hr⟩ := hk r hmr (Nat.le_refl r)
  have hlen := congrArg List.length (h.returned.symm.trans hr)
  simp only [List.length_append, List.length_cons] at hlen
  omega

theorem Completes.first (h : d.Completes σ t op rest k r) :
    d.Does σ k t (.begin op) rest :=
  .of_act h.turn h.begins rfl

theorem Completes.eq_of_agenda (h : d.Completes σ t op rest k r) (hkn : k < n) (hnr : n ≤ r)
    (hag : ((d.instant σ n).thread t).agenda = rest) : n = r := by
  rcases Nat.lt_or_eq_of_le hnr with hlt | heq
  · obtain ⟨pre, hpre, hn⟩ := h.inside n hkn hlt
    exact absurd (List.append_left_eq_self.1 (hn.symm.trans hag)) hpre
  · exact heq

/-- **A call, told by heights.** A thread is in a call as long as its agenda is higher than
what is below the call. -/
theorem completes_of_height (hturn : σ k = .step t)
    (hbegins : ((d.instant σ k).thread t).agenda = .begin op :: rest) (hkr : k < r)
    (hinside : ∀ n, k < n → n < r → rest.length < ((d.instant σ n).thread t).agenda.length)
    (hback : ((d.instant σ r).thread t).agenda.length = rest.length) :
    d.Completes σ t op rest k r := by
  have hkeeps : ∀ n, k < n → n ≤ r → ∃ pre, ((d.instant σ n).thread t).agenda = pre ++ rest := by
    intro n hkn
    induction hkn with
    | refl =>
      intro _
      obtain ⟨e, todo, ans, -, -, hthread⟩ := (Does.of_act hturn hbegins rfl).next
      exact ⟨todo, by rw [hthread]⟩
    | @step n hkn ih =>
      intro hnr
      obtain ⟨pre, hn⟩ := ih (Nat.le_of_succ_le hnr)
      have hhigh := hinside n hkn hnr
      rcases thread_succ d σ n t with hsame | ⟨hid, -⟩ | ⟨a, as, hdoes⟩
      · exact ⟨pre, by rw [hsame, hn]⟩
      · rw [hid] at hhigh
        exact absurd hhigh (Nat.not_lt_zero _)
      · cases pre with
        | nil =>
          rw [hn] at hhigh
          exact absurd hhigh (Nat.lt_irrefl _)
        | cons b pre =>
          obtain ⟨rfl, rfl⟩ := List.cons_eq_cons.1 (hdoes.agenda.symm.trans hn)
          obtain ⟨e, todo, ans, -, -, hthread⟩ := hdoes.next
          refine ⟨todo ++ pre, ?_⟩
          rw [hthread, List.append_assoc]
          rfl
  refine ⟨hturn, hbegins, hkr, fun n hkn hnr => ?_, ?_⟩
  · obtain ⟨pre, hn⟩ := hkeeps n hkn (Nat.le_of_lt hnr)
    refine ⟨pre, fun hnil => ?_, hn⟩
    have hhigh := hinside n hkn hnr
    rw [hn, hnil] at hhigh
    exact absurd hhigh (Nat.lt_irrefl _)
  · obtain ⟨pre, hr⟩ := hkeeps r hkr (Nat.le_refl r)
    rw [hr, List.length_append] at hback
    obtain rfl : pre = [] := List.eq_nil_of_length_eq_zero (by omega)
    exact hr

end ScriptDebug.Debugger
