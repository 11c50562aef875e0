import ScriptDebug.Proofs.Removal

/-!
# Registrations and their notices

`Registers` and `Removes` are the turns that put a context into the registry and take it out;
`registered_iff` says that the registry is what these leave. Each of them puts a notice to the
client logic on the agenda of its thread (`Issues`), which is made at a turn of its own (`Makes`):
at one turn only, and before the call returns. And no other notice is ever made (`Initial.issued`).
-/

namespace ScriptDebug

/-- Whether a call tells of a context that was registered or removed. -/
def LogicCall.isNotice : LogicCall → Bool
  | .added .. | .removed .. => true
  | _ => false

namespace Debugger

variable {S : Setup} {d e : Debugger S} {σ : Schedule} {t : ThreadId} {h : Handle} {name : String}
  {c c' : ContextId} {x : Context} {call : LogicCall} {a : Action S}
  {as pre rest todo : List (Action S)} {last ans : Answer} {k k' m m' n r : Nat}

/-! ## The listing -/

/-- The handles of the registry ascend. -/
def Ascends (d : Debugger S) : Prop := (d.registry.map (·.1)).Pairwise (· < ·)

theorem Ascends.act (hd : d.Ascends) (hact : d.act t last a = some (e, todo, ans)) : e.Ascends := by
  unfold Ascends
  rcases act_registry hact with hr | ⟨x, name, -, -, hr, -⟩ | ⟨x, c, -, -, hr, -⟩ <;> rw [hr]
  · exact hd
  · exact Ascending.pairwise_put Handle.lt_trans Handle.lt_of_not_lt hd _ _
  · exact Ascending.pairwise_remove hd x

theorem Initial.ascends (hd : d.Initial) (σ : Schedule) (n : Nat) : (d.instant σ n).Ascends := by
  refine instant_invariant (P := Ascends) ?_ (fun n t d' hn hs => ?_) (fun _ _ _ _ hn _ _ => hn)
    (fun _ _ _ _ hn _ => hn) n
  · unfold Ascends
    rw [hd.registry]
    exact .nil
  · obtain ⟨a, rest, e, todo, ans, -, hact, rfl, -⟩ := step_cases hs
    have he : e.Ascends := hn.act hact
    exact he

theorem Orderly.map_handle (hd : d.Orderly) :
    d.registeredContexts.map (·.handle) = d.registry.map (·.1) := by
  have hall : ∀ l : List (Handle × ContextId),
      (∀ h c, (h, c) ∈ l → ∃ x, d.contexts[c]? = some x ∧ x.handle = h) →
      ((l.map (·.2)).filterMap fun c => d.contexts[c]?).map (·.handle) = l.map (·.1) := by
    intro l hl
    induction l with
    | nil => rfl
    | cons entry l ih =>
      obtain ⟨h, c⟩ := entry
      obtain ⟨x, hx, rfl⟩ := hl h c List.mem_cons_self
      rw [List.map_cons, List.filterMap_cons_some hx, List.map_cons,
        ih fun h c hc => hl h c (List.mem_cons_of_mem _ hc)]
      rfl
  refine hall d.registry fun h c hc => ?_
  obtain ⟨x, hx, hh, -⟩ := hd.entry h c hc
  exact ⟨x, hx, hh⟩

theorem mem_registeredContexts :
    x ∈ d.registeredContexts ↔ ∃ c ∈ d.registered, d.contexts[c]? = some x :=
  List.mem_filterMap

/-! ## Turns that change the registry -/

/-- **Registration.** At turn `k` a thread registers context `c` under a handle. -/
structure Registers (d : Debugger S) (σ : Schedule) (k : Nat) (c : ContextId) (t : ThreadId)
    (h : Handle) (name : String) (rest : List (Action S)) : Prop where
  turn : σ k = .step t
  agenda : ((d.instant σ k).thread t).agenda = .begin (.start h name) :: rest
  free : (d.instant σ k).lookup h = none
  number : (d.instant σ k).contexts.length = c

/-- **Removal.** At turn `k` a thread takes context `c` out of the registry. -/
structure Removes (d : Debugger S) (σ : Schedule) (k : Nat) (c : ContextId) (t : ThreadId)
    (h : Handle) (rest : List (Action S)) : Prop where
  turn : σ k = .step t
  agenda : ((d.instant σ k).thread t).agenda = .begin (.stop h) :: rest
  found : (d.instant σ k).lookup h = some c

theorem act_start (hl : d.lookup h = none) :
    d.act t last (.begin (.start h name)) =
      some ({ d with
          contexts := d.contexts ++ [{ handle := h, name }]
          registry := Ascending.put h d.contexts.length d.registry },
        Action.dispatch (.added h name) ++ [.reportNotice, .give (.flag true)], .none) := by
  simp only [act, beginOperation, hl]

theorem act_start_taken (hl : d.lookup h = some c) :
    d.act t last (.begin (.start h name)) = some (d, [], .flag false) := by
  simp only [act, beginOperation, hl]

theorem Registers.next (hr : d.Registers σ k c t h name rest) :
    d.instant σ (k + 1) = (({ d.instant σ k with
        contexts := (d.instant σ k).contexts ++ [{ handle := h, name }]
        registry := Ascending.put h c (d.instant σ k).registry } : Debugger S).setThread t
      ⟨.lock :: .enter (.added h name) :: .reportNotice :: .give (.flag true) :: rest, .none⟩) := by
  rw [← hr.number]
  exact instant_of_act hr.turn hr.agenda (act_start hr.free)

theorem Removes.next (hr : d.Removes σ k c t h rest) (hx : (d.instant σ k).contexts[c]? = some x) :
    d.instant σ (k + 1) = (({ d.instant σ k with
        registry := Ascending.remove h (d.instant σ k).registry } : Debugger S).setThread t
      ⟨.lock :: .enter (.removed h x.name) :: .reportNotice :: .close c ::
        .give (.flag true) :: rest, .none⟩) :=
  instant_of_act hr.turn hr.agenda (act_stop hr.found hx rfl)

theorem Registers.agenda_next (hr : d.Registers σ k c t h name rest) :
    ((d.instant σ (k + 1)).thread t).agenda =
      .lock :: .enter (.added h name) :: .reportNotice :: .give (.flag true) :: rest := by
  obtain ⟨e, todo, ans, hact, -, hself⟩ := (Does.of_act hr.turn hr.agenda (act_start hr.free)).next
  rw [act_start hr.free] at hact
  cases hact
  rw [hself]
  rfl

theorem Removes.agenda_next (hr : d.Removes σ k c t h rest)
    (hx : (d.instant σ k).contexts[c]? = some x) :
    ((d.instant σ (k + 1)).thread t).agenda = .lock :: .enter (.removed h x.name) ::
      .reportNotice :: .close c :: .give (.flag true) :: rest :=
  agenda_of_stop hr.turn hr.agenda hr.found hx

theorem Registers.registered (hr : d.Registers σ k c t h name rest) :
    c ∈ (d.instant σ (k + 1)).registered := by
  rw [hr.next]
  exact mem_registered.2 ⟨h, Ascending.mem_of_get? (Ascending.get?_put_self ..)⟩

theorem Removes.context (hr : d.Removes σ k c t h rest) (hd : d.Initial) :
    ∃ x, (d.instant σ k).contexts[c]? = some x := by
  obtain ⟨x, hx, -⟩ := (hd.orderly.instant σ k).entry h c (Ascending.mem_of_get? hr.found)
  exact ⟨x, hx⟩

theorem Removes.not_registered (hr : d.Removes σ k c t h rest) (hd : d.Initial) :
    c ∉ (d.instant σ (k + 1)).registered := by
  obtain ⟨x, hx⟩ := hr.context hd
  have hact : (d.instant σ k).act t .none (.begin (.stop h)) = some _ := act_stop hr.found hx rfl
  rw [hr.next hx, setThread_registered]
  exact (hd.orderly.instant σ k).not_registered_of_stop hact hr.found

theorem registry_succ (d : Debugger S) (σ : Schedule) (n : Nat) :
    (d.instant σ (n + 1)).registry = (d.instant σ n).registry ∨
    ∃ t a rest, d.Does σ n t a rest := by
  rcases take_cases (d.instant σ n) (σ n) with
    h | ⟨t, d', hturn, hs, -⟩ | ⟨t, op, -, -, -, h⟩ | ⟨t, k, x, -, -, h⟩
  · exact .inl (by rw [instant_succ, h])
  · obtain ⟨a, rest, e, todo, ans, hag, hact, -⟩ := step_cases hs
    exact .inr ⟨t, a, rest, .of_act hturn hag hact⟩
  · exact .inl (by rw [instant_succ, h]; rfl)
  · exact .inl (by rw [instant_succ, h]; rfl)

theorem registered_succ (hd : d.Initial) :
    c ∈ (d.instant σ (n + 1)).registered ↔
      (∃ t h name rest, d.Registers σ n c t h name rest) ∨
        c ∈ (d.instant σ n).registered ∧ ¬ ∃ t h rest, d.Removes σ n c t h rest := by
  have ho := hd.orderly.instant σ n
  constructor
  · intro hc
    refine Classical.or_iff_not_imp_left.2 fun hr =>
      ⟨?_, fun ⟨t, h, rest, hrem⟩ => hrem.not_registered hd hc⟩
    obtain ⟨h, hmem⟩ := mem_registered.1 hc
    rcases registry_succ d σ n with heq | ⟨t, a, rest, hdoes⟩
    · exact mem_registered.2 ⟨h, by rw [← heq]; exact hmem⟩
    · obtain ⟨e, todo, ans, hact, hnext, -⟩ := hdoes.next
      rw [hnext] at hmem
      rcases mem_registry_of_act hact hmem with hmem | ⟨name, rfl, hl, hlen, -⟩
      · exact mem_registered.2 ⟨h, hmem⟩
      · exact absurd ⟨t, h, name, rest, hdoes.turn, hdoes.agenda, hl, hlen.symm⟩ hr
  · rintro (⟨t, h, name, rest, hr⟩ | ⟨hc, hrem⟩)
    · exact hr.registered
    refine Classical.byContradiction fun hn => hrem ?_
    rcases registry_succ d σ n with heq | ⟨t, a, rest, hdoes⟩
    · exact absurd (by unfold registered; rw [heq]; exact hc) hn
    · obtain ⟨e, todo, ans, hact, hnext, -⟩ := hdoes.next
      rw [hnext] at hn
      obtain ⟨h, name, rfl, hl, -⟩ := (act_leads hact).close (ho.close_of_act hact hc hn)
      exact ⟨t, h, rest, hdoes.turn, hdoes.agenda, hl⟩

theorem Registers.lt_removes (hr : d.Registers σ k c t h name rest) (hd : d.Initial) {u : ThreadId}
    {y : Handle} {post : List (Action S)} (hrem : d.Removes σ m c u y post) : k < m := by
  refine Nat.lt_of_not_le fun hmk => ?_
  obtain ⟨x, hx⟩ := hrem.context hd
  obtain ⟨z, hz, -⟩ := context_of_later hmk hx
  have hlt := (List.getElem?_eq_some_iff.1 hz).1
  rw [hr.number] at hlt
  exact Nat.lt_irrefl c hlt

/-- **The registry** consists of the contexts that were registered and not removed. -/
theorem registered_iff (hd : d.Initial) :
    c ∈ (d.instant σ n).registered ↔
      (∃ k < n, ∃ t h name rest, d.Registers σ k c t h name rest) ∧
        ¬ ∃ k < n, ∃ t h rest, d.Removes σ k c t h rest := by
  induction n with
  | zero =>
    have hnone : (d.instant σ 0).registered = [] := by
      unfold registered
      rw [instant_zero, hd.registry]
      rfl
    rw [hnone]
    exact ⟨fun hc => absurd hc List.not_mem_nil,
      fun ⟨⟨k, hk, _⟩, _⟩ => absurd hk (Nat.not_lt_zero k)⟩
  | succ n ih =>
    rw [registered_succ hd, ih]
    constructor
    · rintro (⟨t, h, name, rest, hr⟩ | ⟨⟨⟨k, hk, hr⟩, hrem⟩, hn⟩)
      · refine ⟨⟨n, Nat.lt_succ_self n, t, h, name, rest, hr⟩, fun ⟨k, hk, u, y, post, hrem⟩ => ?_⟩
        have hlt := hr.lt_removes hd hrem
        omega
      · refine ⟨⟨k, Nat.lt_succ_of_lt hk, hr⟩, fun ⟨i, hi, hri⟩ => ?_⟩
        rcases Nat.lt_or_eq_of_le (Nat.le_of_lt_succ hi) with hlt | rfl
        · exact hrem ⟨i, hlt, hri⟩
        · exact hn hri
    · rintro ⟨⟨k, hk, hr⟩, hrem⟩
      rcases Nat.lt_or_eq_of_le (Nat.le_of_lt_succ hk) with hlt | rfl
      · exact .inr ⟨⟨⟨k, hlt, hr⟩, fun ⟨i, hi, hri⟩ => hrem ⟨i, Nat.lt_succ_of_lt hi, hri⟩⟩,
          fun hn => hrem ⟨n, Nat.lt_succ_self n, hn⟩⟩
      · exact .inl hr

theorem Registers.unique (hr : d.Registers σ k c t h name rest) {u : ThreadId} {y : Handle}
    {name' : String} {post : List (Action S)} (hr' : d.Registers σ k' c u y name' post) :
    k = k' := by
  have hlt : ∀ {i j : Nat} {t u : ThreadId} {h y : Handle} {name name' : String}
      {rest post : List (Action S)}, d.Registers σ i c t h name rest →
      d.Registers σ j c u y name' post → ¬ i < j := by
    intro i j t u h y name name' rest post hi hj hij
    have hc : (d.instant σ (i + 1)).contexts[c]? = some { handle := h, name } := by
      rw [hi.next, ← hi.number]
      exact List.getElem?_concat_length
    obtain ⟨z, hz, -⟩ := context_of_later (Nat.succ_le_of_lt hij) hc
    have hlen := (List.getElem?_eq_some_iff.1 hz).1
    rw [hj.number] at hlen
    exact Nat.lt_irrefl c hlen
  exact Nat.le_antisymm (Nat.le_of_not_lt (hlt hr' hr)) (Nat.le_of_not_lt (hlt hr hr'))

theorem Removes.unique (hr : d.Removes σ k c t h rest) (hd : d.Initial) {u : ThreadId} {y : Handle}
    {post : List (Action S)} (hr' : d.Removes σ k' c u y post) : k = k' := by
  have hlt : ∀ {i j : Nat} {t u : ThreadId} {h y : Handle} {rest post : List (Action S)},
      d.Removes σ i c t h rest → d.Removes σ j c u y post → ¬ i < j := by
    intro i j t u h y rest post hi hj hij
    obtain ⟨x, hx⟩ := hi.context hd
    obtain ⟨z, hz, -⟩ := context_of_later (Nat.le_succ i) hx
    have hreg : c ∈ (d.instant σ j).registered :=
      mem_registered.2 ⟨y, Ascending.mem_of_get? hj.found⟩
    exact hi.not_registered hd (registered_of_later (Nat.succ_le_of_lt hij) hz hreg)
  exact Nat.le_antisymm (Nat.le_of_not_lt (hlt hr' hr)) (Nat.le_of_not_lt (hlt hr hr'))

/-! ## Notices -/

/-- **Issue.** At turn `k` a registration or removal of context `c` puts a notice on the agenda of
its thread, above what comes after it. -/
inductive Issues (d : Debugger S) (σ : Schedule) (k : Nat) (t : ThreadId) (c : ContextId) :
    LogicCall → List (Action S) → Prop
  | added {h : Handle} {name : String} {rest : List (Action S)}
      (hr : d.Registers σ k c t h name rest) :
    Issues d σ k t c (.added h name) (.reportNotice :: .give (.flag true) :: rest)
  | removed {h : Handle} {x : Context} {rest : List (Action S)} (hr : d.Removes σ k c t h rest)
      (hx : (d.instant σ k).contexts[c]? = some x) :
    Issues d σ k t c (.removed h x.name) (.reportNotice :: .close c :: .give (.flag true) :: rest)

/-- **Dispatch.** A call of the client logic that is on an agenda behind turn
`k` is made at turn `m`. -/
structure Makes (d : Debugger S) (σ : Schedule) (k m : Nat) (t : ThreadId) (call : LogicCall)
    (as : List (Action S)) : Prop where
  before : k < m
  due : d.Keeps σ t (.enter call :: as) (k + 1) m
  does : d.Does σ m t (.enter call) as

/-- At turn `m` the client logic is told of context `c`. -/
def Tells (d : Debugger S) (σ : Schedule) (m : Nat) (c : ContextId) (call : LogicCall) : Prop :=
  ∃ k t as, d.Issues σ k t c call as ∧ d.Makes σ k m t call as

/-- At turn `m` the client logic is told that context `c` was registered. -/
def Introduces (d : Debugger S) (σ : Schedule) (m : Nat) (c : ContextId) : Prop :=
  ∃ h name, d.Tells σ m c (.added h name)

/-- At turn `m` the client logic is told that context `c` was removed. -/
def Withdraws (d : Debugger S) (σ : Schedule) (m : Nat) (c : ContextId) : Prop :=
  ∃ h name, d.Tells σ m c (.removed h name)

/-- What a notice is put on top of is longer than the agenda below the operation. -/
theorem Issues.begins (hi : d.Issues σ k t c call as) :
    ∃ op rest, ((d.instant σ k).thread t).agenda = .begin op :: rest ∧ rest.length < as.length := by
  cases hi with
  | added hr => exact ⟨_, _, hr.agenda, by simp only [List.length_cons]; omega⟩
  | removed hr hx => exact ⟨_, _, hr.agenda, by simp only [List.length_cons]; omega⟩

theorem Issues.agenda_next (hi : d.Issues σ k t c call as) :
    ((d.instant σ (k + 1)).thread t).agenda = [.lock] ++ .enter call :: as := by
  cases hi with
  | added hr => exact hr.agenda_next
  | removed hr hx => exact hr.agenda_next hx

theorem Issues.context (hd : d.Initial) (hi : d.Issues σ k t c call as) (hkm : k < m) :
    ∃ x, (d.instant σ m).contexts[c]? = some x ∧
      (call = .added x.handle x.name ∨ call = .removed x.handle x.name) := by
  cases hi with
  | @added h name rest hr =>
    have hx : (d.instant σ (k + 1)).contexts[c]? = some { handle := h, name } := by
      rw [hr.next, ← hr.number]
      exact List.getElem?_concat_length
    obtain ⟨y, hy, hh, hn⟩ := context_of_later (Nat.succ_le_of_lt hkm) hx
    exact ⟨y, hy, .inl (by rw [hh, hn])⟩
  | @removed h x rest hr hx =>
    obtain ⟨z, hz, hzh, -⟩ := (hd.orderly.instant σ k).entry h c (Ascending.mem_of_get? hr.found)
    obtain rfl : z = x := Option.some.inj (hz.symm.trans hx)
    obtain ⟨y, hy, hh, hn⟩ := context_of_later (Nat.le_of_lt hkm) hx
    exact ⟨y, hy, .inr (by rw [hh, hn, hzh])⟩

/-- The same notice is not issued again as long as it is on the agenda. -/
theorem Issues.not_lt (hi : d.Issues σ k' t c call as)
    (hk : d.Keeps σ t (.enter call :: as) (k + 1) m) (hm : k' ≤ m) : ¬ k < k' := by
  intro hlt
  obtain ⟨op, rest, hag, hlen⟩ := hi.begins
  obtain ⟨pre, hpre⟩ := hk k' (Nat.succ_le_of_lt hlt) hm
  have heq := congrArg List.length (hag.symm.trans hpre)
  simp only [List.length_append, List.length_cons] at heq
  omega

theorem Issues.context_eq (hi : d.Issues σ k t c call as) (hi' : d.Issues σ k t c' call as) :
    c = c' := by
  cases hi with
  | added hr =>
    cases hi' with
    | added hr' => exact hr.number.symm.trans hr'.number
  | removed hr hx =>
    generalize hcall : LogicCall.removed _ _ = call' at hi'
    cases hi' with
    | removed hr' hx' => rfl

theorem Makes.not_lt (hm : d.Makes σ k m t call as) (hm' : d.Makes σ k' m' t call as)
    (hk : k' ≤ m) : ¬ m < m' := by
  intro hlt
  obtain ⟨pre, hpre⟩ := hm'.due (m + 1) (Nat.succ_le_succ hk) (Nat.succ_le_of_lt hlt)
  obtain ⟨e, todo, ans, hact, -, hself⟩ := hm.does.next
  rw [hself] at hpre
  -- the call is over when the two actions that replace it are done
  have hsplit : todo = pre ++ [.enter call] := by
    have heq : todo ++ as = (pre ++ [.enter call]) ++ as := by
      rw [List.append_assoc]
      exact hpre
    exact List.append_cancel_right heq
  rcases act_leads hact with rfl | rfl <;> cases pre with
  | nil => cases hsplit
  | cons a pre =>
    cases pre with
    | nil => cases hsplit
    | cons b pre => simp at hsplit

theorem Makes.unique (hm : d.Makes σ k m t call as) (hm' : d.Makes σ k m' t call as) : m = m' :=
  Nat.le_antisymm (Nat.le_of_not_lt (hm'.not_lt hm (Nat.le_of_lt hm'.before)))
    (Nat.le_of_not_lt (hm.not_lt hm' (Nat.le_of_lt hm.before)))

/-- Only the registration and the removal of a context lead to a notice. -/
theorem Leads.notice (hl : d.Leads a todo) (hcall : call.isNotice = true)
    (hmem : .enter call ∈ todo) :
    (∃ h name, a = .begin (.start h name)) ∨ ∃ h, a = .begin (.stop h) := by
  cases a with
  | begin op =>
    cases op with
    | start h name => exact .inl ⟨h, name, rfl⟩
    | stop h => exact .inr ⟨h, rfl⟩
    | _ => exfalso; grind [Leads, OperationLeads, Action.dispatch, LogicCall.isNotice]
  | resumeEach cs n => cases cs <;> exfalso <;> grind [Leads]
  | describe cs done => cases cs <;> exfalso <;> grind [Leads]
  | inspect k op => cases op <;> exfalso <;> grind [Leads, Operation.look]
  | _ => exfalso; grind [Leads, Action.dispatch, LogicCall.isNotice]

theorem eq_of_dispatch {told : LogicCall} {post : List (Action S)} (hrest : ∀ y, .enter y ∉ rest)
    (heq : Action.dispatch told ++ rest = pre ++ .enter call :: post) :
    call = told ∧ post = rest := by
  rcases pre with _ | ⟨a, _ | ⟨b, pre⟩⟩
  · cases heq
  · cases heq
    exact ⟨rfl, rfl⟩
  · refine absurd ?_ (hrest call)
    have hsplit : rest = pre ++ .enter call :: post :=
      (List.cons_eq_cons.1 (List.cons_eq_cons.1 heq).2).2
    rw [hsplit]
    exact List.mem_append_right _ List.mem_cons_self

/-- A notice that comes onto an agenda at a turn is issued at this turn. -/
theorem Does.issues (hd : d.Initial) (hdoes : d.Does σ n t a rest) (hcall : call.isNotice = true)
    (hact : (d.instant σ n).act t ((d.instant σ n).thread t).answer a = some (e, todo, ans))
    {post : List (Action S)} (htodo : todo = pre ++ .enter call :: post) :
    ∃ c, d.Issues σ n t c call (post ++ rest) := by
  have hmem : .enter call ∈ todo := by
    rw [htodo]
    exact List.mem_append_right _ List.mem_cons_self
  rcases (act_leads hact).notice hcall hmem with ⟨h, name, rfl⟩ | ⟨h, rfl⟩
  · cases hl : (d.instant σ n).lookup h with
    | some c =>
      rw [act_start_taken hl] at hact
      cases hact
      cases hmem
    | none =>
      rw [act_start hl] at hact
      cases hact
      obtain ⟨rfl, rfl⟩ := eq_of_dispatch (by simp) htodo
      exact ⟨_, .added ⟨hdoes.turn, hdoes.agenda, hl, rfl⟩⟩
  · cases hl : (d.instant σ n).lookup h with
    | none =>
      simp only [act, beginOperation, hl] at hact
      cases hact
      cases hmem
    | some c =>
      have hr : d.Removes σ n c t h rest := ⟨hdoes.turn, hdoes.agenda, hl⟩
      obtain ⟨x, hx⟩ := hr.context hd
      rw [act_stop hl hx rfl] at hact
      cases hact
      obtain ⟨rfl, rfl⟩ := eq_of_dispatch (by simp) htodo
      exact ⟨c, .removed hr hx⟩

/-- **Every notice** on an agenda was issued, and has been there since. -/
theorem Initial.issued (hd : d.Initial) (hcall : call.isNotice = true)
    (hag : ((d.instant σ n).thread t).agenda = pre ++ .enter call :: as) :
    ∃ k c, k < n ∧ d.Issues σ k t c call as ∧ d.Keeps σ t (.enter call :: as) (k + 1) n := by
  induction n generalizing pre with
  | zero =>
    rw [instant_zero, hd.idle t] at hag
    exact absurd hag (by simp)
  | succ n ih =>
    have hlater : ∀ pre', ((d.instant σ n).thread t).agenda = pre' ++ .enter call :: as →
        ∃ k c, k < n + 1 ∧ d.Issues σ k t c call as ∧
          d.Keeps σ t (.enter call :: as) (k + 1) (n + 1) := by
      intro pre' hn
      obtain ⟨k, c, hk, hi, hkeeps⟩ := ih hn
      exact ⟨k, c, Nat.lt_succ_of_lt hk, hi, hkeeps.concat hag⟩
    rcases thread_succ d σ n t with h | ⟨-, op, -, h⟩ | ⟨a, rest, hdoes⟩
    · exact hlater pre (by rw [← h]; exact hag)
    · rw [h] at hag
      rcases pre with _ | ⟨b, pre⟩ <;> simp at hag
    · obtain ⟨e, todo, ans, hact, -, hself⟩ := hdoes.next
      have hsplit : todo ++ rest = pre ++ .enter call :: as := by rw [← hag, hself]
      rcases List.append_eq_append_iff.1 hsplit with ⟨l, -, hrest⟩ | ⟨l, htodo, hl⟩
      · exact hlater (a :: l) (by rw [hdoes.agenda, hrest]; rfl)
      · cases l with
        | nil => exact hlater [a] (by rw [hdoes.agenda, ← List.nil_append rest, ← hl]; rfl)
        | cons b l =>
          obtain ⟨rfl, rfl⟩ := List.cons_eq_cons.1 hl
          obtain ⟨c, hi⟩ := hdoes.issues hd hcall hact htodo
          exact ⟨n, c, Nat.lt_succ_self n, hi, keeps_self hag⟩

theorem Initial.told (hd : d.Initial) (hcall : call.isNotice = true)
    (hdoes : d.Does σ m t (.enter call) as) :
    ∃ c x, (d.instant σ m).contexts[c]? = some x ∧
      (call = .added x.handle x.name ∨ call = .removed x.handle x.name) ∧
      d.Tells σ m c call ∧ ∀ c' call', d.Tells σ m c' call' → c' = c := by
  have hag : ((d.instant σ m).thread t).agenda = [] ++ .enter call :: as := hdoes.agenda
  obtain ⟨k, c, hk, hi, hkeeps⟩ := hd.issued hcall hag
  obtain ⟨x, hx, hnamed⟩ := hi.context hd hk
  refine ⟨c, x, hx, hnamed, ⟨k, t, as, hi, hk, hkeeps, hdoes⟩,
    fun c' call' ⟨k', t', as', hi', hm'⟩ => ?_⟩
  obtain rfl := thread_eq_of_turn hm'.does.turn hdoes.turn
  have hag := hm'.does.agenda.symm.trans hdoes.agenda
  cases hag
  obtain rfl : k' = k := Nat.le_antisymm
    (Nat.le_of_not_lt (hi'.not_lt hkeeps (Nat.le_of_lt hm'.before)))
    (Nat.le_of_not_lt (hi.not_lt hm'.due (Nat.le_of_lt hk)))
  exact hi'.context_eq hi

theorem Initial.introduced (hd : d.Initial) (hdoes : d.Does σ m t (.enter (.added h name)) as) :
    ∃ c x, (d.instant σ m).contexts[c]? = some x ∧ x.handle = h ∧ x.name = name ∧
      d.Introduces σ m c ∧ ∀ c', d.Introduces σ m c' → c' = c := by
  obtain ⟨c, x, hx, hcall, htells, hunique⟩ := hd.told rfl hdoes
  rcases hcall with hcall | hcall <;> cases hcall
  exact ⟨c, x, hx, rfl, rfl, ⟨_, _, htells⟩, fun c' ⟨_, _, ht⟩ => hunique c' _ ht⟩

theorem Initial.withdrawn (hd : d.Initial) (hdoes : d.Does σ m t (.enter (.removed h name)) as) :
    ∃ c x, (d.instant σ m).contexts[c]? = some x ∧ x.handle = h ∧ x.name = name ∧
      d.Withdraws σ m c ∧ ∀ c', d.Withdraws σ m c' → c' = c := by
  obtain ⟨c, x, hx, hcall, htells, hunique⟩ := hd.told rfl hdoes
  rcases hcall with hcall | hcall <;> cases hcall
  exact ⟨c, x, hx, rfl, rfl, ⟨_, _, htells⟩, fun c' ⟨_, _, ht⟩ => hunique c' _ ht⟩

theorem Introduces.unique (hi : d.Introduces σ m c) (hi' : d.Introduces σ m' c) : m = m' := by
  obtain ⟨h, name, k, t, as, hi, hm⟩ := hi
  obtain ⟨h', name', k', t', as', hi', hm'⟩ := hi'
  cases hi with
  | added hr =>
    cases hi' with
    | added hr' =>
      obtain rfl := hr.unique hr'
      obtain rfl := thread_eq_of_turn hr.turn hr'.turn
      have hag := hr.agenda.symm.trans hr'.agenda
      cases hag
      exact hm.unique hm'

theorem Withdraws.unique (hd : d.Initial) (hw : d.Withdraws σ m c) (hw' : d.Withdraws σ m' c) :
    m = m' := by
  obtain ⟨h, name, k, t, as, hi, hm⟩ := hw
  obtain ⟨h', name', k', t', as', hi', hm'⟩ := hw'
  cases hi with
  | @removed _ x _ hr hx =>
    cases hi' with
    | @removed _ x' _ hr' hx' =>
      obtain rfl := hr.unique hd hr'
      obtain rfl := thread_eq_of_turn hr.turn hr'.turn
      have hag := hr.agenda.symm.trans hr'.agenda
      cases hag
      obtain rfl : x = x' := Option.some.inj (hx.symm.trans hx')
      exact hm.unique hm'

/-! ## Calls that have returned -/

theorem Completes.makes {op : Operation} (hs : d.Completes σ t op rest k r)
    (hag : ((d.instant σ (k + 1)).thread t).agenda = [.lock] ++ .enter call :: (as ++ rest)) :
    ∃ m, k < m ∧ m < r ∧ d.Makes σ k m t call (as ++ rest) := by
  obtain ⟨m, hkm, hmr, hkeeps, hdoes⟩ := hs.does hag hs.before
  exact ⟨m, hkm, hmr, hkm, hkeeps, hdoes⟩

theorem Completes.started (hs : d.Completes σ t (.start h name) rest k r)
    (hl : (d.instant σ k).lookup h = none) :
    ((d.instant σ r).thread t).answer = .flag true ∧
      ∃ c m, d.Registers σ k c t h name rest ∧ k < m ∧ m < r ∧ d.Introduces σ m c := by
  have hr : d.Registers σ k (d.instant σ k).contexts.length t h name rest :=
    ⟨hs.turn, hs.begins, hl, rfl⟩
  constructor
  · have hag : ((d.instant σ (k + 1)).thread t).agenda =
        [.lock, .enter (.added h name), .reportNotice] ++ .give (.flag true) :: ([] ++ rest) :=
      hr.agenda_next
    obtain ⟨j, hkj, hjr, -, hgive⟩ := hs.does hag hs.before
    obtain ⟨e, todo, ans, hact, -, hself⟩ := hgive.next
    cases hact
    obtain rfl : j + 1 = r := hs.eq_of_agenda (Nat.lt_succ_of_lt hkj) hjr (by rw [hself]; rfl)
    rw [hself]
  · have hag : ((d.instant σ (k + 1)).thread t).agenda =
        [.lock] ++ .enter (.added h name) :: ([.reportNotice, .give (.flag true)] ++ rest) :=
      hr.agenda_next
    obtain ⟨m, hkm, hmr, hmakes⟩ := hs.makes hag
    exact ⟨_, m, hr, hkm, hmr, h, name, k, t, _, .added hr, hmakes⟩

theorem Completes.not_started (hs : d.Completes σ t (.start h name) rest k r)
    (hl : (d.instant σ k).lookup h = some c) :
    ((d.instant σ r).thread t).answer = .flag false ∧ r = k + 1 ∧
      (d.instant σ r).registry = (d.instant σ k).registry ∧
      (d.instant σ r).contexts = (d.instant σ k).contexts := by
  obtain ⟨e, todo, ans, hact, hnext, hself⟩ := hs.first.next
  rw [act_start_taken hl] at hact
  cases hact
  obtain rfl : k + 1 = r := hs.eq_of_agenda (Nat.lt_succ_self k) hs.before (by rw [hself]; rfl)
  exact ⟨by rw [hself], rfl, by rw [hnext]; rfl, by rw [hnext]; rfl⟩

theorem Completes.withdrawn (hd : d.Initial) (hs : d.Completes σ t (.stop h) rest k r)
    (hl : (d.instant σ k).lookup h = some c) : ∃ m, k < m ∧ m < r ∧ d.Withdraws σ m c := by
  have hr : d.Removes σ k c t h rest := ⟨hs.turn, hs.begins, hl⟩
  obtain ⟨x, hx⟩ := hr.context hd
  have hag : ((d.instant σ (k + 1)).thread t).agenda = [.lock] ++
      .enter (.removed h x.name) :: ([.reportNotice, .close c, .give (.flag true)] ++ rest) :=
    hr.agenda_next hx
  obtain ⟨m, hkm, hmr, hmakes⟩ := hs.makes hag
  exact ⟨m, hkm, hmr, h, x.name, k, t, _, .removed hr hx, hmakes⟩

/-- **Every registration is announced once, and withdrawn at most once.** A registration that has
returned either made a context, and told the client logic of it at one turn and no other; or the
handle was taken, and the registration was a single turn that changed nothing. The client logic is
told of the registration and of the removal of a context at most once each, of the removal before it
returns, and of nothing else. And the contexts are listed in strictly ascending order of their
handles, and are those that were registered and not removed. -/
theorem announced_once (hd : d.Initial) (σ : Schedule) :
    (∀ t h name rest k r, d.Completes σ t (.start h name) rest k r →
      (((d.instant σ r).thread t).answer = .flag true ∧
        ∃ c m, d.Registers σ k c t h name rest ∧ k < m ∧ m < r ∧ d.Introduces σ m c) ∨
      (((d.instant σ r).thread t).answer = .flag false ∧
        (∃ c, (d.instant σ k).lookup h = some c) ∧ r = k + 1 ∧
        (d.instant σ r).registry = (d.instant σ k).registry ∧
        (d.instant σ r).contexts = (d.instant σ k).contexts ∧
        ∀ m call as, k ≤ m → m < r → ¬ d.Does σ m t (.enter call) as)) ∧
    (∀ m m' c, d.Introduces σ m c → d.Introduces σ m' c → m = m') ∧
    (∀ m m' c, d.Withdraws σ m c → d.Withdraws σ m' c → m = m') ∧
    (∀ t h rest k r c, d.Completes σ t (.stop h) rest k r → (d.instant σ k).lookup h = some c →
      ∃ m, k < m ∧ m < r ∧ d.Withdraws σ m c) ∧
    (∀ m t h name as, d.Does σ m t (.enter (.added h name)) as →
      ∃ c x, (d.instant σ m).contexts[c]? = some x ∧ x.handle = h ∧ x.name = name ∧
        d.Introduces σ m c ∧ ∀ c', d.Introduces σ m c' → c' = c) ∧
    (∀ m t h name as, d.Does σ m t (.enter (.removed h name)) as →
      ∃ c x, (d.instant σ m).contexts[c]? = some x ∧ x.handle = h ∧ x.name = name ∧
        d.Withdraws σ m c ∧ ∀ c', d.Withdraws σ m c' → c' = c) ∧
    ∀ n, ((d.instant σ n).registeredContexts.map (·.handle)).Pairwise (· < ·) ∧
      ∀ x, x ∈ (d.instant σ n).registeredContexts ↔ ∃ c, (d.instant σ n).contexts[c]? = some x ∧
        (∃ k < n, ∃ t h name rest, d.Registers σ k c t h name rest) ∧
        ¬ ∃ k < n, ∃ t h rest, d.Removes σ k c t h rest := by
  refine ⟨fun t h name rest k r hs => ?_, fun m m' c => Introduces.unique,
    fun m m' c => Withdraws.unique hd, fun t h rest k r c hs hl => hs.withdrawn hd hl,
    fun m t h name as => hd.introduced, fun m t h name as => hd.withdrawn,
    fun n => ⟨?_, fun x => ?_⟩⟩
  · cases hl : (d.instant σ k).lookup h with
    | none => exact .inl (hs.started hl)
    | some c =>
      obtain ⟨hans, hr, hreg, hctx⟩ := hs.not_started hl
      refine .inr ⟨hans, ⟨c, rfl⟩, hr, hreg, hctx, fun m call as hkm hmr hdoes => ?_⟩
      obtain rfl : m = k := by omega
      have hag := hdoes.agenda.symm.trans hs.begins
      cases hag
  · rw [(hd.orderly.instant σ n).map_handle]
    exact hd.ascends σ n
  · rw [mem_registeredContexts]
    refine exists_congr fun c => ?_
    rw [registered_iff hd, and_comm]

end Debugger

/-! ## A run -/

namespace Rehearsal

/-- The client logic is told of the first context, and of its removal, before the calls return; and
the listing after them has one context for each handle. -/
theorem replacement_announced :
    (∃ c m, 1 < m ∧ m < 10 ∧ restarter.Introduces inTurns m c) ∧
      (∃ m, 23 < m ∧ m < 41 ∧ restarter.Withdraws inTurns m 0) ∧
      ((restarter.instant inTurns 41).registeredContexts.map (·.handle)).Pairwise (· < ·) := by
  obtain ⟨hstart, -, -, hstop, -, -, hlist⟩ := Debugger.announced_once restarter_initial inTurns
  refine ⟨?_, ?_, (hlist 41).1⟩
  · rcases hstart _ _ _ _ _ _ registration_completes with ⟨-, c, m, -, h1, h2, hm⟩ | ⟨-, ⟨c, hl⟩, -⟩
    · exact ⟨c, m, h1, h2, hm⟩
    · have hfree : (restarter.instant inTurns 1).lookup ⟨1⟩ = none := by decide +kernel
      rw [hfree] at hl
      cases hl
  · exact hstop _ _ _ _ _ 0 removal_completes (by decide +kernel)

end Rehearsal

end ScriptDebug
