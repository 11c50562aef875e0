import ScriptDebug.Proofs.Access
import ScriptDebug.Script.Host

/-!
# Who parks with the dispatch lock

A hook gives back what it took of the lock before it parks. What its thread holds beyond that
belongs to calls of the client logic that are under way below the hook; so a parked thread holds the
lock exactly if there is such a call (`holds_parked_iff`).

A hook comes above a call of the JSON protocol only by host code that raises it while an expression
is evaluated or a file is loaded. If the host raises nothing there, nobody parks with the lock
(`parked_free`); a host that raises a hook event of another execution makes its thread park
with it, and nobody is able to resume that execution any more (`Rehearsal.parked_for_good`).
-/

namespace ScriptDebug

variable {S : Setup}

/-- Whether an action stands where its thread holds no more of the lock than what belongs to calls
of the client logic below it. -/
def Action.isOpen : Action S → Bool
  | .begin _ | .install _ | .uninstall _ | .locate .. | .decide .. | .wait _ | .parked _
  | .inspect .. | .host _ => true
  | _ => false

/-- **Clear.** There is a call of the client logic on an agenda, or the agenda owes nothing. -/
def Clear (as : List (Action S)) : Prop :=
  (∃ p, .logic p ∈ as) ∨ ∃ m, owes as = some m ∧ m.holds = 0

/-- **Open agenda.** Below the open actions of an agenda it is clear. -/
def OpenAbove : List (Action S) → Prop
  | [] => True
  | a :: rest => (a.isOpen = true → Clear rest) ∧ OpenAbove rest

variable {a : Action S} {rest todo : List (Action S)} {c : ContextId}

theorem clear_nil : Clear ([] : List (Action S)) := .inr ⟨{}, rfl, rfl⟩

theorem Clear.cons (h : Clear rest) (ha : ∀ m, a.debt m = some m) : Clear (a :: rest) := by
  rcases h with ⟨p, hp⟩ | ⟨m, hm, hzero⟩
  · exact .inl ⟨p, List.mem_cons_of_mem _ hp⟩
  · exact .inr ⟨m, owes_cons.2 ⟨m, hm, ha m⟩, hzero⟩

theorem OpenAbove.cons (h : OpenAbove rest) (ha : a.isOpen = false) : OpenAbove (a :: rest) := by
  refine ⟨fun hopen => ?_, h⟩
  rw [ha] at hopen
  cases hopen

theorem OpenAbove.clear (h : OpenAbove rest) (hc : Clear rest) : OpenAbove (a :: rest) :=
  ⟨fun _ => hc, h⟩

theorem OpenAbove.append (h : OpenAbove rest) (ht : todo.all (fun b => !b.isOpen) = true) :
    OpenAbove (todo ++ rest) := by
  induction todo with
  | nil => exact h
  | cons b todo ih =>
    rw [List.all_cons, Bool.and_eq_true, Bool.not_eq_true'] at ht
    exact (ih ht.2).cons ht.1

namespace Debugger

variable {d e : Debugger S} {σ : Schedule} {t : ThreadId} {n : Nat}

theorem OperationLeads.openAbove {op : Operation} (h : d.OperationLeads op todo)
    (hrest : OpenAbove rest) (hclear : Clear rest) : OpenAbove (todo ++ rest) := by
  cases op with
  | attach x name =>
    obtain rfl : todo = [.begin (.start x name), .install x] := h
    exact (hrest.clear hclear).clear (hclear.cons fun _ => rfl)
  | detach | hook =>
    obtain rfl | rfl := h
    · exact hrest
    · exact hrest.clear hclear
  | run =>
    obtain rfl | ⟨code, rfl⟩ := h
    · exact hrest
    · exact (hrest.cons rfl).clear (hclear.cons fun _ => rfl)
  | load | evaluate | listVariables | fetchVariable =>
    obtain rfl | ⟨c, -, rfl⟩ := h
    · exact hrest
    · exact hrest.clear hclear
  | resumeAll | message | request | contexts =>
    cases h
    exact hrest.append rfl
  | setListening | setVariable | reload | send =>
    obtain rfl : todo = [] := h
    exact hrest
  | start => obtain rfl | rfl := h <;> exact hrest.append rfl
  | stop => obtain rfl | ⟨c, name, -, rfl⟩ := h <;> exact hrest.append rfl
  | pause | breakpoint => obtain rfl | ⟨x, rfl⟩ := h <;> exact hrest.append rfl
  | resume => obtain rfl | ⟨c, -, rfl⟩ := h <;> exact hrest.append rfl

theorem Leads.openAbove (h : d.Leads a todo) (hag : OpenAbove (a :: rest)) :
    OpenAbove (todo ++ rest) := by
  obtain ⟨hclear, hrest⟩ := hag
  cases a with
  | begin op => exact OperationLeads.openAbove h hrest (hclear rfl)
  | logic p =>
    obtain rfl | ⟨s, last, op, next, -, rfl⟩ := h
    · exact hrest
    · have hlogic : OpenAbove (.logic next :: rest) := hrest.cons rfl
      exact hlogic.clear (.inl ⟨next, List.mem_cons_self⟩)
  | install =>
    obtain rfl | ⟨f, rfl⟩ := h
    · exact hrest
    · exact (hrest.cons rfl).clear ((hclear rfl).cons fun _ => rfl)
  | uninstall =>
    obtain ⟨r, rfl⟩ := h
    exact (hrest.cons rfl).clear ((hclear rfl).cons fun _ => rfl)
  | locate x report =>
    obtain rfl | ⟨c, name, -, rfl⟩ := h
    · exact hrest
    · exact ((((hrest.clear (hclear rfl)).cons rfl).cons rfl).cons rfl).cons rfl
  | decide =>
    obtain rfl | rfl := h
    · exact (hrest.clear (hclear rfl)).cons rfl
    · exact hrest.cons rfl
  | wait | parked =>
    obtain rfl | rfl := h
    · exact hrest
    · exact hrest.clear (hclear rfl)
  | inspect c op =>
    obtain rfl | rfl := h
    · exact hrest
    · cases op with
      | evaluate | load => exact (hrest.cons rfl).clear ((hclear rfl).cons fun _ => rfl)
      | _ => exact hrest.append rfl
  | host code =>
    obtain rfl | ⟨code, rfl⟩ | ⟨x, report, next, rfl⟩ := h
    · exact hrest
    · exact hrest.clear (hclear rfl)
    · exact (hrest.clear (hclear rfl)).clear ((hclear rfl).cons fun _ => rfl)
  | give | lock | unlock | reportHandled | sendFailure | close | pauseAt | resumeOne | showValue
  | reportLoaded | fetch =>
    obtain rfl : todo = [] := h
    exact hrest
  | enter | reloaded | reportNotice | reportText =>
    obtain rfl | rfl := h <;> exact hrest.append rfl
  | enumerate => obtain rfl | ⟨slots, rfl⟩ := h <;> exact hrest.append rfl
  | describeLocation =>
    obtain ⟨done, rfl⟩ := h
    exact hrest.append rfl
  | sweep =>
    obtain rfl : todo = [.resumeEach d.registered 0] := h
    exact hrest.append rfl
  | resumeEach cs k =>
    cases cs with
    | nil =>
      obtain rfl : todo = [.unlock] := h
      exact hrest.append rfl
    | cons c cs =>
      obtain ⟨k, rfl⟩ := h
      exact hrest.append rfl
  | describe cs done =>
    cases cs with
    | nil =>
      obtain rfl : todo = [] := h
      exact hrest
    | cons c cs => obtain rfl | ⟨state, rfl⟩ := h <;> exact hrest.append rfl

theorem Initial.openAbove (hd : d.Initial) (σ : Schedule) (n : Nat) (t : ThreadId) :
    OpenAbove ((d.instant σ n).thread t).agenda :=
  agenda_invariant (P := fun _ as => OpenAbove as) hd (fun _ => trivial)
    (fun _ _ _ _ => ⟨fun _ => clear_nil, trivial⟩)
    (fun _ _ _ _ _ _ _ _ hact hp => (act_leads hact).openAbove hp) n t

/-- **Who parks with the lock.** A parked thread holds the dispatch lock exactly if it has parked in
a call of the client logic. -/
theorem holds_parked_iff (hd : d.Initial)
    (hag : ((d.instant σ n).thread t).agenda = .parked c :: rest) :
    (d.instant σ n).Holds t ↔ ∃ p, .logic p ∈ rest := by
  obtain ⟨m, hm, hheld⟩ := hd.disciplined.instant σ n t
  have hopen := hd.openAbove σ n t
  rw [hag] at hm hopen
  obtain ⟨m', hrest, hdebt⟩ := owes_cons.1 hm
  cases hdebt
  unfold Holds
  rw [← hheld]
  constructor
  · intro hpos
    rcases hopen.1 rfl with hlogic | ⟨m', hm', hzero⟩
    · exact hlogic
    · obtain rfl := Option.some.inj (hrest.symm.trans hm')
      omega
  · rintro ⟨p, hp⟩
    exact Nat.lt_of_lt_of_le (floor_pos_of_logic hrest hp) (sound_of_owes hrest)

/-! ## Parked for good -/

/-- **Stuck.** A thread that holds the dispatch lock waits in a context that is paused. -/
structure Stuck (d : Debugger S) (t : ThreadId) (c : ContextId) : Prop where
  holds : d.Holds t
  waits : ∃ rest, (d.thread t).agenda = .wait c :: rest ∨ (d.thread t).agenda = .parked c :: rest
  paused : ∃ x, d.contexts[c]? = some x ∧ x.isPaused = true

theorem Stuck.step {d' : Debugger S} (hs : d.Stuck t c) (h : d.step t = some d') :
    d'.Stuck t c := by
  obtain ⟨hholds, ⟨rest, hag⟩, x, hx, hpaused⟩ := hs
  obtain ⟨a, rest', e, todo, ans, hag', hact, rfl, hself, -⟩ := step_cases h
  have hwaits : a = .wait c ∨ a = .parked c := by
    rcases hag with hag | hag
    · exact .inl (List.cons_eq_cons.1 (hag'.symm.trans hag)).1
    · exact .inr (List.cons_eq_cons.1 (hag'.symm.trans hag)).1
  have hlock : e.dispatch = d.dispatch :=
    act_dispatch hact (by rintro rfl; simp at hwaits) (by rintro rfl; simp at hwaits)
  have hheld : (e.setThread t ⟨todo ++ rest', ans⟩).Holds t := by
    unfold Holds held at hholds ⊢
    rw [setThread_dispatch, hlock]
    exact hholds
  rcases hwaits with rfl | rfl
  · simp only [act, hx, Context.wait, hpaused, if_true] at hact
    cases hact
    refine ⟨hheld, ⟨rest', .inr (by rw [hself]; rfl)⟩,
      { x with waiters := t :: x.waiters }, ?_, hpaused⟩
    rw [setThread_contexts, getElem?_setContext, if_pos rfl, hx]
    rfl
  · simp only [act, hx] at hact
    split at hact
    · cases hact
    · cases hact
      exact ⟨hheld, ⟨rest', .inl (by rw [hself]; rfl)⟩, x, hx, hpaused⟩

theorem Stuck.take_ne {turn : Turn} (hs : d.Stuck t c) (hd : d.Disciplined)
    (hturn : turn ≠ .step t) :
    (d.take turn).Holds t ∧ (d.take turn).thread t = d.thread t := by
  have hbusy : (d.thread t).agenda ≠ [] := by
    obtain ⟨rest, h | h⟩ := hs.waits <;> rw [h] <;> exact List.cons_ne_nil _ _
  refine ⟨?_, (thread_take_ne d hturn).resolve_right fun ⟨_, _, hid, _⟩ => hbusy hid⟩
  rcases take_cases d turn with
    h | ⟨u, d', rfl, hst, h⟩ | ⟨u, op, -, -, -, h⟩ | ⟨u, k, x, -, -, h⟩ <;>
    rw [h]
  · exact hs.holds
  · obtain ⟨a, rest, e, todo, ans, hag, hact, rfl, -⟩ := step_cases hst
    obtain ⟨m, hm, hu⟩ := hd u
    rw [hag] at hm
    have htu : t ≠ u := by
      rintro rfl
      exact hturn rfl
    have hsame : e.held t = d.held t := (act_owes hact hm hu).2 t htu
    have hpos : 0 < d.held t := hs.holds
    rw [← hsame] at hpos
    exact hpos
  · exact hs.holds
  · exact hs.holds

/-- **Parked for good.** Who waits with the lock in a registered context waits for ever: no command
gets through to resume it. -/
theorem stuck_for_good {m : Nat} (hd : d.Initial) (ho : HandsOff S σ)
    (hs : (d.instant σ n).Stuck t c) (hc : c ∈ (d.instant σ n).registered) (hnm : n ≤ m) :
    (d.instant σ m).Stuck t c := by
  suffices hall : ∀ k, n ≤ k → k ≤ m → (d.instant σ k).Stuck t c from hall m hnm (Nat.le_refl m)
  induction hnm with
  | refl =>
    intro k hnk hkn
    obtain rfl := Nat.le_antisymm hnk hkn
    exact hs
  | @step m hnm ih =>
    intro k hnk hkm
    rcases Nat.lt_or_eq_of_le hkm with hlt | rfl
    · exact ih k hnk (Nat.le_of_lt_succ hlt)
    have hm := ih m hnm (Nat.le_refl m)
    by_cases hturn : σ m = .step t
    · cases hst : (d.instant σ m).step t with
      | none =>
        rw [instant_of_stuck hturn hst]
        exact hm
      | some d' =>
        rw [instant_of_step hturn hst]
        exact hm.step hst
    obtain ⟨hholds, hthread⟩ := hm.take_ne (hd.disciplined.instant σ m) hturn
    rw [← instant_succ] at hholds hthread
    obtain ⟨x, hx, hpaused⟩ := hm.paused
    obtain ⟨y, hy, hst⟩ := hd.stance_frozen ho (i := n) (j := m + 1) (fun k hnk hkm => by
        rcases Nat.lt_or_eq_of_le hkm with hlt | rfl
        · exact (ih k hnk (Nat.le_of_lt_succ hlt)).holds
        · exact hholds) (Nat.le_refl n) hc hnm (Nat.lt_succ_self m) hturn hx
    exact ⟨hholds, by rw [hthread]; exact hm.waits, y, hy, Context.isPaused_of_stance hst hpaused⟩

end Debugger

/-! ## Hosts that raise nothing on the way -/

/-- **Discreet.** Code of expressions and files raises no hook event,
and leads to no code that does. -/
structure Host.Discreet (host : Host) (Q : host.Code → Prop) : Prop where
  evaluate : ∀ h text, Q (host.evaluate h text)
  load : ∀ h path, Q (host.load h path)
  next : ∀ s code code', Q code → (host.step s code).2 = .next code' → Q code'
  silent : ∀ s code h r code', Q code → (host.step s code).2 ≠ .raise h r code'

/-- The script machine raises hook events in runs only. -/
theorem Script.discreet : Script.host.Discreet fun code => ∀ h todo, code ≠ .agenda h todo where
  evaluate h text := nofun
  load h path := nofun
  next s code code' hq hmove := by
    cases code with
    | expression h text => cases hmove
    | file h path => cases hmove
    | agenda h todo => exact absurd rfl (hq h todo)
  silent s code h r code' hq hmove := by
    cases code with
    | expression h text => cases hmove
    | file h path => cases hmove
    | agenda h todo => exact absurd rfl (hq h todo)

section Discreet

variable {host : Host} {sink : Sink} {Q : host.Code → Prop}

/-- What stands above a call of the protocol if the host is discreet. -/
def Action.Subdued (Q : host.Code → Prop) : Action (Protocol.setup host sink) → Prop
  | .begin op => op.isAsked = true ∨ ∃ text, op = .send text
  | .host code => Q code
  | .lock | .unlock | .give _ | .resumeOne _ | .inspect .. | .showValue | .reportLoaded
  | .enumerate .. | .fetch .. | .describe .. | .describeLocation .. => True
  | _ => False

namespace Debugger

variable {d e : Debugger (Protocol.setup host sink)} {σ : Schedule} {n : Nat} {t : ThreadId}
  {c : ContextId} {a : Action (Protocol.setup host sink)}
  {rest todo : List (Action (Protocol.setup host sink))} {last ans : Answer}

theorem act_subdued (hq : host.Discreet Q) (ha : a.Subdued Q)
    (hact : d.act t last a = some (e, todo, ans)) : ∀ b ∈ todo, b.Subdued Q := by
  have hl := act_leads hact
  cases a with
  | begin op =>
    rcases ha with ha | ⟨text, rfl⟩
    · cases op with
      | contexts =>
        obtain rfl : todo = [.describe d.registered []] := hl
        simp [Action.Subdued]
      | setVariable | reload =>
        obtain rfl : todo = [] := hl
        exact List.forall_mem_nil _
      | resume | load | evaluate | listVariables | fetchVariable =>
        obtain rfl | ⟨k, -, rfl⟩ := hl <;> simp [Action.Subdued]
      | _ => cases ha
    · obtain rfl : todo = [] := hl
      exact List.forall_mem_nil _
  | host code =>
    simp only [act] at hact
    split at hact
    · rename_i hmove
      exact absurd hmove (hq.silent _ _ _ _ _ ha)
    · rename_i code' hmove
      cases hact
      intro b hb
      obtain rfl := List.mem_singleton.1 hb
      exact hq.next _ _ _ ha hmove
    · cases hact
      exact List.forall_mem_nil _
  | inspect k op =>
    obtain rfl | rfl := hl
    · exact List.forall_mem_nil _
    · cases op with
      | evaluate x text =>
        intro b hb
        rcases List.mem_cons.1 hb with rfl | hb
        · exact hq.evaluate x text
        · obtain rfl := List.mem_singleton.1 hb
          trivial
      | load x path =>
        intro b hb
        rcases List.mem_cons.1 hb with rfl | hb
        · exact hq.load x path
        · obtain rfl := List.mem_singleton.1 hb
          trivial
      | _ => simp [Operation.look, Action.Subdued]
  | lock | unlock | give | resumeOne | showValue | reportLoaded | fetch =>
    obtain rfl : todo = [] := hl
    exact List.forall_mem_nil _
  | enumerate =>
    obtain rfl | ⟨slots, rfl⟩ := hl <;> simp [Action.Subdued]
  | describe cs done =>
    cases cs with
    | nil =>
      obtain rfl : todo = [] := hl
      exact List.forall_mem_nil _
    | cons k cs => obtain rfl | ⟨state, rfl⟩ := hl <;> simp [Action.Subdued]
  | describeLocation =>
    obtain ⟨done, rfl⟩ := hl
    simp [Action.Subdued]
  | _ => exact ha.elim

/-- Only an operation that the protocol uses is put above a call of it. -/
theorem Leads.subdued_pairwise (h : d.Leads a todo) :
    todo.Pairwise fun a b => (∃ p, b = .logic p) → a.Subdued Q := by
  cases todo with
  | nil => exact .nil
  | cons b more =>
    by_cases hlogic : ∃ p, .logic p ∈ more
    · obtain ⟨p, hp⟩ := hlogic
      obtain ⟨q, s, last, op, next, rfl, hu, rfl, rfl⟩ := h.use_of_logic hp
      have hop : (Action.begin op : Action (Protocol.setup host sink)).Subdued Q := by
        rcases Protocol.step_use hu with ⟨text, v, rfl, -⟩ | ⟨ho, -⟩
        · exact .inr ⟨text, rfl⟩
        · exact .inl ho
      simp [hop]
    · refine List.pairwise_cons.2 ⟨fun x hx ⟨p, hp⟩ => ?_,
        List.pairwise_of_forall_mem_list fun _ _ x hx ⟨p, hp⟩ => ?_⟩ <;>
        exact absurd ⟨p, hp ▸ hx⟩ hlogic

theorem Initial.subdued (hq : host.Discreet Q) (hd : d.Initial) (σ : Schedule) (n : Nat)
    (t : ThreadId) : ((d.instant σ n).thread t).agenda.Pairwise fun a b =>
      (∃ p, b = .logic p) → a.Subdued Q := by
  refine agenda_invariant (P := fun _ as => as.Pairwise fun a b =>
      (∃ p, b = .logic p) → Action.Subdued Q a) hd
    (fun _ => .nil) (fun _ _ _ _ => by simp) (fun n t a rest e todo ans _ hact hp => ?_) n t
  obtain ⟨ha, hrest⟩ := List.pairwise_cons.1 hp
  rw [List.pairwise_append]
  exact ⟨(act_leads hact).subdued_pairwise, hrest,
    fun x hx b hb hlogic => act_subdued hq (ha b hb hlogic) hact x hx⟩

/-- **Nobody parks with the lock** if the host is discreet, as the script machine is
(`Script.discreet`). -/
theorem parked_free (hq : host.Discreet Q) (hd : d.Initial)
    (hag : ((d.instant σ n).thread t).agenda = .parked c :: rest) : ¬ (d.instant σ n).Holds t := by
  rw [holds_parked_iff hd hag]
  rintro ⟨p, hp⟩
  have hpair := hd.subdued hq σ n t
  rw [hag] at hpair
  exact (List.pairwise_cons.1 hpair).1 _ hp ⟨p, rfl⟩

end Debugger

end Discreet

/-! ## A run -/

namespace Rehearsal

open Debugger (Turn Schedule)

/-- A host whose expressions and files raise a hook event of the second execution. -/
def alarm : Host where
  State := Unit
  Value := Unit
  Code := Bool
  look _ _ := .nil
  installHook s _ := (s, .ok ())
  removeHook s _ := (s, .ok ())
  probe _ _ _ _ _ := {}
  evaluate _ _ := true
  load _ _ := true
  run _ h := .error (.unknownExecution h)
  step s raises := if raises then (s, .raise ⟨2⟩ callOfF false) else (s, .done (.ok []))

/-- A debugger with two threads over that host, with a breakpoint at the function `f`. -/
def alarmed : Debugger (Protocol.setup alarm sink) where
  host := ()
  logic := { functions := ["f"] }
  sink := ({} : SinkState)
  threads := [{}, {}]

/-- Two executions are registered, the first one pauses at `f`, and `x` is evaluated there. -/
def alarming : Schedule := .ofTurns <|
  .call 0 (.start ⟨1⟩ "a") :: .replicate 11 (.step 0) ++
  .call 0 (.start ⟨2⟩ "b") :: .replicate 9 (.step 0) ++
  .call 1 (.hook ⟨1⟩ callOfF) :: .replicate 13 (.step 1) ++
  .call 0 (.request evaluateX) :: .replicate 25 (.step 0)

/-- Whether a thread is parked in a context. -/
def parkedIn {S : Setup} (c : ContextId) (x : Thread S) : Bool :=
  match x.agenda with
  | .parked k :: _ => k == c
  | _ => false

theorem parkedIn_eq {S : Setup} {c : ContextId} {x : Thread S} (h : parkedIn c x = true) :
    ∃ rest, x.agenda = .parked c :: rest := by
  unfold parkedIn at h
  split at h
  · rename_i k rest hag
    obtain rfl := beq_iff_eq.1 h
    exact ⟨rest, hag⟩
  · cases h

theorem alarmed_initial : alarmed.Initial where
  registry := rfl
  contexts := rfl
  dispatch := rfl
  idle
    | 0 | 1 => rfl
    | t + 2 => by simp [alarmed, Debugger.thread]

theorem alarming_stuck : (alarmed.instant alarming 57).Stuck 0 1 where
  holds := by decide +kernel
  waits := by
    obtain ⟨rest, hag⟩ := parkedIn_eq (c := 1) (x := (alarmed.instant alarming 57).thread 0)
      (by decide +kernel)
    exact ⟨rest, .inr hag⟩
  paused := by
    have h : ((alarmed.instant alarming 57).contexts[1]?).any Context.isPaused = true := by
      decide +kernel
    obtain ⟨x, hx, hp⟩ := (Option.any_eq_true _ _).1 h
    exact ⟨x, hx, hp⟩

/-- A thread may park with the dispatch lock. -/
theorem parks_with_lock : ¬ ∀ (host : Host) (sink : Sink) (d : Debugger (Protocol.setup host sink))
    (σ : Schedule) (n : Nat) (t : ThreadId) (c : ContextId)
    (rest : List (Action (Protocol.setup host sink))), d.Initial →
    ((d.instant σ n).thread t).agenda = .parked c :: rest → ¬ (d.instant σ n).Holds t := by
  intro hall
  obtain ⟨rest, hag⟩ := parkedIn_eq (c := 1) (x := (alarmed.instant alarming 57).thread 0)
    (by decide +kernel)
  exact hall alarm sink alarmed alarming 57 0 1 rest alarmed_initial hag alarming_stuck.holds

/-- Whatever comes then, the thread of the evaluation waits for ever,
and the second execution stays paused. -/
theorem parked_for_good {σ : Schedule} (hσ : ∀ n < 57, σ n = alarming n)
    (hp : ∀ n t x r, σ n ≠ .call t (.pause x r)) {n : Nat} (hn : 57 ≤ n) :
    (alarmed.instant σ n).Stuck 0 1 := by
  have hsame : alarmed.instant σ 57 = alarmed.instant alarming 57 := by
    unfold Debugger.instant
    rw [List.map_congr_left fun k hk => hσ k (List.mem_range.1 hk)]
  refine Debugger.stuck_for_good alarmed_initial (Protocol.handsOff hp) ?_ ?_ hn <;> rw [hsame]
  · exact alarming_stuck
  · decide +kernel

end Rehearsal

end ScriptDebug
