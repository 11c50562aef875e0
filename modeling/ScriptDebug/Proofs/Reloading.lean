import ScriptDebug.Proofs.Calls
import ScriptDebug.Proofs.Handler
import ScriptDebug.Proofs.Lock
import ScriptDebug.Rehearsal.Host
import ScriptDebug.Rehearsal.Sink

/-!
# Reloading after a failure

A call of the client logic that fails is reported by its caller, who then has the logic loaded anew
before its next call. The report comes behind the call's release of the dispatch lock. So a thread
that holds the lock beyond the call is never too late (`reloaded_after_hit`), nor is a thread for
itself; but another thread may enter the logic before a failure is reported
(`Rehearsal.entered_before_reload`). That is the only gap (`reloaded_between`).
-/

namespace ScriptDebug

variable {S : Setup}

/-- Whether an action reports how a call of the client logic has ended. -/
def Action.isReport : Action S → Bool
  | .reportNotice | .reportText | .reportHandled => true
  | _ => false

/-- What stands below an action. A call of the client logic gives back the lock, or goes on to the
call that it was loaded for, and is reported then; and nothing else stands above what waits for a
load. -/
def Action.Followed : Action S → List (Action S) → Prop
  | .enter _, rest | .reloaded _, rest => ∃ rep after, rep.isReport = true ∧ rest = rep :: after
  | .logic _, rest => ∃ b rep after, (b = .unlock ∨ ∃ call, b = .reloaded call) ∧
      rep.isReport = true ∧ rest = b :: rep :: after
  | _, rest => ∀ call post, rest ≠ .reloaded call :: post

/-- **Reported agenda.** Every call of the client logic on an agenda is reported. -/
def Reported : List (Action S) → Prop
  | [] => True
  | a :: rest => a.Followed rest ∧ Reported rest

variable {a : Action S} {rest todo pre post : List (Action S)} {call : LogicCall}

/-- Whether an action is not part of a call of the client logic. -/
def Action.isPlain : Action S → Bool
  | .enter _ | .reloaded _ | .logic _ => false
  | _ => true

theorem isPlain_of_isReport (ha : a.isReport = true) : a.isPlain = true := by
  cases a with
  | reportNotice | reportText | reportHandled => rfl
  | _ => cases ha

theorem Action.followed_of_isPlain (ha : a.isPlain = true) :
    a.Followed rest ↔ ∀ call post, rest ≠ .reloaded call :: post := by
  cases a with
  | enter | reloaded | logic => cases ha
  | _ => exact Iff.rfl

theorem Reported.cons {b : Action S} (h : Reported (b :: rest)) (ha : a.isPlain = true)
    (hb : ∀ call, b ≠ .reloaded call) : Reported (a :: b :: rest) := by
  refine ⟨(Action.followed_of_isPlain ha).2 fun call post heq => ?_, h⟩
  exact hb call (List.cons_eq_cons.1 heq).1

theorem ne_reloaded_of_isPlain (ha : a.isPlain = true) (call : LogicCall) : a ≠ .reloaded call := by
  rintro rfl
  cases ha

theorem Reported.append (h : Reported rest) (hrest : ∀ call post, rest ≠ .reloaded call :: post)
    (ht : todo.all Action.isPlain = true) : Reported (todo ++ rest) := by
  induction todo with
  | nil => exact h
  | cons b todo ih =>
    rw [List.all_cons, Bool.and_eq_true] at ht
    have hmore := ih ht.2
    cases todo with
    | nil => exact ⟨(Action.followed_of_isPlain ht.1).2 hrest, h⟩
    | cons b' todo =>
      rw [List.all_cons, Bool.and_eq_true] at ht
      exact hmore.cons ht.1 (ne_reloaded_of_isPlain ht.2.1)

theorem Reported.dispatch {rep : Action S} (h : Reported rest)
    (hrest : ∀ call post, rest ≠ .reloaded call :: post) (hrep : rep.isReport = true)
    (ht : todo.all Action.isPlain = true) :
    Reported ((Action.dispatch call ++ rep :: todo) ++ rest) := by
  have hbelow : Reported ((rep :: todo) ++ rest) := by
    refine h.append hrest ?_
    rw [List.all_cons, isPlain_of_isReport hrep, ht]
    rfl
  have henter : Reported (.enter call :: rep :: todo ++ rest) :=
    ⟨⟨rep, todo ++ rest, hrep, rfl⟩, hbelow⟩
  exact henter.cons rfl fun call heq => by cases heq

theorem Reported.unlock {rep : Action S} (h : Reported (rep :: rest)) (hrep : rep.isReport = true) :
    Reported (.unlock :: rep :: rest) :=
  h.cons rfl (ne_reloaded_of_isPlain (isPlain_of_isReport hrep))

/-- Above what waits for a load stands the load. -/
theorem Reported.split (pre : List (Action S)) (h : Reported (pre ++ .reloaded call :: post))
    (hpre : pre ≠ []) : ∃ p, .logic p ∈ pre := by
  induction pre with
  | nil => exact absurd rfl hpre
  | cons a pre ih =>
    cases pre with
    | nil =>
      cases a with
      | logic p => exact ⟨p, List.mem_cons_self⟩
      | enter | reloaded =>
        obtain ⟨rep, after, hrep, heq⟩ := h.1
        obtain ⟨rfl, -⟩ := List.cons_eq_cons.1 heq
        cases hrep
      | _ => exact absurd rfl (h.1 call post)
    | cons b pre =>
      obtain ⟨p, hp⟩ := ih h.2 (List.cons_ne_nil b pre)
      exact ⟨p, List.mem_cons_of_mem _ hp⟩

namespace Debugger

variable {d e : Debugger S} {σ : Schedule} {t u v : ThreadId} {last ans : Answer} {k m n : Nat}

theorem OperationLeads.reported {op : Operation} (h : d.OperationLeads op todo)
    (hrest : Reported rest) (hne : ∀ call post, rest ≠ .reloaded call :: post) :
    Reported (todo ++ rest) := by
  cases op with
  | start =>
    obtain rfl | rfl := h
    · exact hrest
    · exact hrest.dispatch hne rfl rfl
  | stop =>
    obtain rfl | ⟨c, name, -, rfl⟩ := h
    · exact hrest
    · exact hrest.dispatch hne rfl rfl
  | message | request =>
    cases h
    exact hrest.dispatch hne rfl rfl
  | breakpoint =>
    obtain rfl | ⟨name, rfl⟩ := h
    · exact hrest
    · exact hrest.dispatch hne rfl rfl
  | attach | resumeAll | contexts =>
    cases h
    exact hrest.append hne rfl
  | setListening | setVariable | reload | send =>
    obtain rfl : todo = [] := h
    exact hrest
  | detach | hook => obtain rfl | rfl := h <;> exact hrest.append hne rfl
  | run | pause => obtain rfl | ⟨x, rfl⟩ := h <;> exact hrest.append hne rfl
  | resume | load | evaluate | listVariables | fetchVariable =>
    obtain rfl | ⟨c, -, rfl⟩ := h <;> exact hrest.append hne rfl

theorem Leads.reported (h : d.Leads a todo) (hag : Reported (a :: rest)) :
    Reported (todo ++ rest) := by
  obtain ⟨hf, hrest⟩ := hag
  cases a with
  | begin op => exact OperationLeads.reported h hrest hf
  | enter call =>
    obtain ⟨rep, after, hrep, rfl⟩ := hf
    obtain rfl | rfl := h
    · exact ⟨⟨_, rep, after, .inr ⟨call, rfl⟩, hrep, rfl⟩, ⟨rep, after, hrep, rfl⟩, hrest⟩
    · exact ⟨⟨_, rep, after, .inl rfl, hrep, rfl⟩, hrest.unlock hrep⟩
  | reloaded call =>
    obtain ⟨rep, after, hrep, rfl⟩ := hf
    obtain rfl | rfl := h
    · exact hrest.unlock hrep
    · exact ⟨⟨_, rep, after, .inl rfl, hrep, rfl⟩, hrest.unlock hrep⟩
  | logic p =>
    obtain rfl | ⟨s, last, op, next, -, rfl⟩ := h
    · exact hrest
    · have hlogic : Reported (.logic next :: rest) := ⟨hf, hrest⟩
      exact hlogic.cons rfl fun call heq => by cases heq
  | locate x report =>
    obtain rfl | ⟨c, name, -, rfl⟩ := h
    · exact hrest
    · have hcall : Reported (Action.dispatch (.breakpoint x name (.ofReport report)) ++
          .reportHandled :: [.decide c (.ofReport report)] ++ rest) :=
        hrest.dispatch hf rfl rfl
      exact hcall.cons rfl fun call heq => by cases heq
  | give | lock | unlock | reportHandled | sendFailure | close | pauseAt | resumeOne | showValue
  | reportLoaded | fetch =>
    obtain rfl : todo = [] := h
    exact hrest
  | reportNotice | reportText | decide | wait | parked =>
    obtain rfl | rfl := h <;> exact hrest.append hf rfl
  | install | enumerate => obtain rfl | ⟨x, rfl⟩ := h <;> exact hrest.append hf rfl
  | uninstall | describeLocation =>
    obtain ⟨r, rfl⟩ := h
    exact hrest.append hf rfl
  | sweep =>
    obtain rfl : todo = [.resumeEach d.registered 0] := h
    exact hrest.append hf rfl
  | resumeEach cs k =>
    cases cs with
    | nil =>
      obtain rfl : todo = [.unlock] := h
      exact hrest.append hf rfl
    | cons c cs =>
      obtain ⟨k, rfl⟩ := h
      exact hrest.append hf rfl
  | inspect c op =>
    obtain rfl | rfl := h
    · exact hrest
    · cases op <;> exact hrest.append hf rfl
  | host =>
    obtain rfl | ⟨code, rfl⟩ | ⟨x, report, next, rfl⟩ := h <;> exact hrest.append hf rfl
  | describe cs done =>
    cases cs with
    | nil =>
      obtain rfl : todo = [] := h
      exact hrest
    | cons c cs => obtain rfl | ⟨state, rfl⟩ := h <;> exact hrest.append hf rfl

theorem Initial.reported (hd : d.Initial) (σ : Schedule) (n : Nat) (t : ThreadId) :
    Reported ((d.instant σ n).thread t).agenda :=
  agenda_invariant (P := fun _ as => Reported as) hd (fun _ => trivial)
    (fun _ _ _ _ => ⟨(Action.followed_of_isPlain rfl).2 (by simp), trivial⟩)
    (fun _ _ _ _ _ _ _ _ hact hp => (act_leads hact).reported hp) n t

theorem Leads.load_of_reloaded (h : d.Leads a todo) (hmem : .reloaded call ∈ todo) :
    todo = [.logic (S.logic.enter .reload), .reloaded call] := by
  cases a with
  | enter call' =>
    obtain rfl | rfl := h
    · obtain rfl : call = call' := by simpa using hmem
      rfl
    · simp at hmem
  | begin op => cases op <;> exfalso <;> grind [Leads, OperationLeads, Action.dispatch]
  | resumeEach cs n => cases cs <;> exfalso <;> grind [Leads]
  | describe cs done => cases cs <;> exfalso <;> grind [Leads]
  | inspect k op => cases op <;> exfalso <;> grind [Leads, Operation.look]
  | _ => exfalso; grind [Leads, Action.dispatch]

/-! ## The reload flag -/

theorem act_reload (h : d.act t last a = some (e, todo, ans)) (hd : d.reload = true) :
    e.reload = true ∨
      ∃ call, a = .enter call ∧ todo = [.logic (S.logic.enter .reload), .reloaded call] := by
  cases act_yields h with
  | due => exact .inl rfl
  | reload call =>
    simp only [act, hd, if_true] at h
    cases h
    exact .inr ⟨call, rfl, rfl⟩
  | _ => exact .inl hd

theorem act_report {f : LogicFailure} (ha : a.isReport = true)
    (h : d.act t (.verdict (.error f)) a = some (e, todo, ans)) : e.reload = true := by
  cases a with
  | reportNotice | reportText | reportHandled =>
    cases h
    rfl
  | _ => cases ha

/-! ## Failures, loads and calls -/

/-- **Failure.** At turn `n` a call of the client logic fails. -/
def Fails (d : Debugger S) (σ : Schedule) (n : Nat) (t : ThreadId)
    (rest : List (Action S)) : Prop :=
  ∃ p f, d.Does σ n t (.logic p) rest ∧
    (d.instant σ (n + 1)).thread t = ⟨rest, .verdict (.error f)⟩

/-- **Reload.** At turn `k` the client logic has been loaded anew. -/
def Reloads (d : Debugger S) (σ : Schedule) (k : Nat) : Prop :=
  ∃ t p call rest v, d.Does σ k t (.logic p) (.reloaded call :: rest) ∧
    (d.instant σ (k + 1)).thread t = ⟨.reloaded call :: rest, .verdict (.ok v)⟩

/-- **Entry.** At turn `m` a call of the client logic begins, other than to load it: right away, or
after a load that did not fail. -/
def Enters (d : Debugger S) (σ : Schedule) (m : Nat) (u : ThreadId)
    (rest : List (Action S)) : Prop :=
  ∃ call, (d.Does σ m u (.enter call) rest ∧ (d.instant σ m).reload = false) ∨
    (d.Does σ m u (.reloaded call) rest ∧
      ∀ f, ((d.instant σ m).thread u).answer ≠ .verdict (.error f))

/-- **Unreported.** A thread has let go of the lock after a failure, and is about to report it. -/
def Unreported (rest : List (Action S)) (x : Thread S) : Prop :=
  ∃ rep after f, rest = .unlock :: rep :: after ∧ rep.isReport = true ∧
    x = ⟨rep :: after, .verdict (.error f)⟩

/-- **Loading.** A call waits for the client logic to be loaded. -/
def Loading (d : Debugger S) : Prop :=
  ∃ v pre call post, (d.thread v).agenda = pre ++ .reloaded call :: post

theorem Initial.holds_of_reloaded (hd : d.Initial) (pre : List (Action S))
    (hag : ((d.instant σ n).thread t).agenda = pre ++ .reloaded call :: post) :
    (d.instant σ n).Holds t := by
  have hdisc := hd.disciplined.instant σ n
  by_cases hpre : pre = []
  · subst hpre
    exact hdisc.holds_of_give hag fun _ => rfl
  · have hrep := hd.reported σ n t
    rw [hag] at hrep
    obtain ⟨p, hp⟩ := hrep.split pre hpre
    refine hdisc.holds_of_logic (p := p) ?_
    rw [hag]
    exact List.mem_append_left _ hp

theorem Enters.holds (he : d.Enters σ m u rest) (hd : d.Initial) : (d.instant σ m).Holds u := by
  obtain ⟨call, ⟨hdoes, -⟩ | ⟨hdoes, -⟩⟩ := he
  · exact (hd.disciplined.instant σ m).holds_of_give hdoes.agenda fun _ => rfl
  · exact hd.holds_of_reloaded [] hdoes.agenda

theorem Fails.holds (hf : d.Fails σ n t rest) (hd : d.Initial) : (d.instant σ n).Holds t := by
  obtain ⟨p, f, hdoes, -⟩ := hf
  refine (hd.disciplined.instant σ n).holds_of_logic (p := p) ?_
  rw [hdoes.agenda]
  exact List.mem_cons_self

/-- What stands below a call that fails. -/
theorem Fails.below (hf : d.Fails σ n t rest) (hd : d.Initial) :
    ∃ b rep after, (b = .unlock ∨ ∃ call, b = .reloaded call) ∧ rep.isReport = true ∧
      rest = b :: rep :: after := by
  obtain ⟨p, f, hdoes, -⟩ := hf
  have hrep := hd.reported σ n t
  rw [hdoes.agenda] at hrep
  exact hrep.1

theorem Initial.logic_of_reloaded (hd : d.Initial) (hdoes : d.Does σ m u a rest)
    (hag : ((d.instant σ (m + 1)).thread u).agenda = .reloaded call :: post) :
    ∃ p r, a = .logic p ∧ rest = .reloaded call :: post ∧
      (d.instant σ (m + 1)).thread u = ⟨rest, .verdict r⟩ := by
  obtain ⟨e, todo, ans, hact, -, hself⟩ := hdoes.next
  have hsplit : todo ++ rest = .reloaded call :: post := by
    rw [← hag, hself]
  cases todo with
  | cons b more =>
    obtain ⟨rfl, -⟩ := List.cons_eq_cons.1 hsplit
    exact absurd ((act_leads hact).load_of_reloaded List.mem_cons_self) (by simp)
  | nil =>
    have hrest : rest = .reloaded call :: post := hsplit
    have hrep := hd.reported σ m u
    rw [hdoes.agenda, hrest] at hrep
    obtain ⟨p, hp⟩ := Reported.split [a] hrep (List.cons_ne_nil a [])
    obtain rfl := List.mem_singleton.1 hp
    simp only [act] at hact
    split at hact <;> cases hact
    exact ⟨p, _, rfl, hrest, hself⟩

/-- **A load after a failure.** A call that goes on after a load, when another call has failed, was
loaded after the failure. -/
theorem Fails.reloads (hf : d.Fails σ n t rest) (hd : d.Initial) (hnm : n < m)
    (hag : ((d.instant σ m).thread u).agenda = .reloaded call :: post)
    (hans : ∀ f, ((d.instant σ m).thread u).answer ≠ .verdict (.error f)) :
    ∃ k, n < k ∧ k < m ∧ d.Reloads σ k := by
  induction hnm with
  | refl =>
    have ht := hf.holds hd
    obtain ⟨p, f, hdoes, hself⟩ := hf
    have hne : u ≠ t := by
      rintro rfl
      exact hans f (by rw [hself])
    -- another thread has been waiting for a load, with the lock
    have hn : ((d.instant σ n).thread u).agenda = .reloaded call :: post := by
      rcases thread_succ d σ n u with h | ⟨-, op, -, h⟩ | ⟨a, rest', hdoes'⟩
      · rw [← h]
        exact hag
      · rw [h] at hag
        cases hag
      · exact absurd (thread_eq_of_turn hdoes'.turn hdoes.turn) hne
    exact absurd ((hd.holds_of_reloaded [] hn).unique ht) hne
  | @step m hnm ih =>
    rcases thread_succ d σ m u with h | ⟨-, op, -, h⟩ | ⟨a, rest', hdoes⟩
    · rw [h] at hag hans
      obtain ⟨k, hnk, hkm, hk⟩ := ih hag hans
      exact ⟨k, hnk, Nat.lt_succ_of_lt hkm, hk⟩
    · rw [h] at hag
      cases hag
    · obtain ⟨p, r, rfl, rfl, hself⟩ := hd.logic_of_reloaded hdoes hag
      cases r with
      | error f => exact absurd (by rw [hself]) (hans f)
      | ok v => exact ⟨m, hnm, Nat.lt_succ_self m, u, p, call, post, v, hdoes, hself⟩

theorem reload_succ (hr : (d.instant σ m).reload = true) :
    (d.instant σ (m + 1)).reload = true ∨ (d.instant σ (m + 1)).Loading := by
  rw [instant_succ]
  rcases take_cases (d.instant σ m) (σ m) with
    h | ⟨u, d', -, hs, h⟩ | ⟨u, op, -, -, -, h⟩ | ⟨u, c, x, -, -, h⟩ <;> rw [h]
  · exact .inl hr
  · obtain ⟨a, rest, e, todo, ans, -, hact, rfl, hself, -⟩ := step_cases hs
    rcases act_reload hact hr with he | ⟨call, -, rfl⟩
    · exact .inl he
    · exact .inr ⟨u, [.logic (S.logic.enter .reload)], call, rest, by rw [hself]; rfl⟩
  · exact .inl hr
  · exact .inl hr

theorem Fails.loading_succ (hf : d.Fails σ n t rest) (hd : d.Initial) (hnm : n < m)
    (hl : (d.instant σ m).Loading) :
    (∃ k, n < k ∧ k < m ∧ d.Reloads σ k) ∨ (d.instant σ (m + 1)).reload = true ∨
      (d.instant σ (m + 1)).Loading := by
  obtain ⟨v, pre, call, post, hag⟩ := hl
  rcases keeps_or_does hag (Nat.le_succ m) with hk | ⟨j, hmj, hjm, -, hdoes⟩
  · obtain ⟨pre', hn⟩ := hk (m + 1) (Nat.le_succ m) (Nat.le_refl _)
    exact .inr (.inr ⟨v, pre', call, post, hn⟩)
  · obtain rfl : j = m := Nat.le_antisymm (Nat.le_of_lt_succ hjm) hmj
    by_cases hans : ∃ f, ((d.instant σ j).thread v).answer = .verdict (.error f)
    · obtain ⟨f, hans⟩ := hans
      obtain ⟨e, todo, ans, hact, hnext, -⟩ := hdoes.next
      rw [hans] at hact
      cases hact
      exact .inr (.inl (by rw [hnext]; rfl))
    · exact .inl (hf.reloads hd hnm hdoes.agenda fun f h => hans ⟨f, h⟩)

theorem Fails.unreported_succ (hf : d.Fails σ n t rest) (hd : d.Initial)
    (hu : (∃ f, (d.instant σ m).thread t = ⟨rest, .verdict (.error f)⟩) ∨
      Unreported rest ((d.instant σ m).thread t)) :
    (d.instant σ (m + 1)).reload = true ∨
      (∃ f, (d.instant σ (m + 1)).thread t = ⟨rest, .verdict (.error f)⟩) ∨
      Unreported rest ((d.instant σ (m + 1)).thread t) := by
  rcases thread_succ d σ m t with h | ⟨hid, -⟩ | ⟨a, rest', hdoes⟩
  · exact .inr (by rw [h]; exact hu)
  · obtain ⟨b, rep, after, -, -, rfl⟩ := hf.below hd
    rcases hu with ⟨f, hth⟩ | ⟨rep, after, f, -, -, hth⟩ <;> rw [hth] at hid <;> cases hid
  · obtain ⟨e, todo, ans, hact, hnext, hself⟩ := hdoes.next
    have hag := hdoes.agenda
    rcases hu with ⟨f, hth⟩ | ⟨rep, after, f, -, hrep, hth⟩
    · obtain ⟨b, rep, after, hb, hrep, rfl⟩ := hf.below hd
      rw [hth] at hag hact
      obtain ⟨rfl, rfl⟩ := List.cons_eq_cons.1 hag
      rcases hb with rfl | ⟨call, rfl⟩
      · refine .inr (.inr ⟨rep, after, f, rfl, hrep, ?_⟩)
        rw [hself]
        simp only [act] at hact
        split at hact <;> cases hact <;> rfl
      · cases hact
        exact .inl (by rw [hnext]; rfl)
    · rw [hth] at hag hact
      obtain ⟨rfl, rfl⟩ := List.cons_eq_cons.1 hag
      have he := act_report hrep hact
      exact .inl (by rw [hnext]; exact he)

/-- Before it gives back the lock, a thread that failed is the only one to hold it. -/
theorem Fails.holds_of_hand (hf : d.Fails σ n t rest) (hd : d.Initial)
    (hag : ((d.instant σ m).thread t).agenda = rest) : (d.instant σ m).Holds t := by
  obtain ⟨b, rep, after, hb, -, rfl⟩ := hf.below hd
  rcases hb with rfl | ⟨call, rfl⟩
  · exact (hd.disciplined.instant σ m).holds_of_give hag fun _ => rfl
  · exact hd.holds_of_reloaded [] hag

/-- **After a failure,** until the client logic has been loaded anew, the flag is up, or a load is
under way, or the failure is still in the hand of the thread. -/
theorem Fails.due (hf : d.Fails σ n t rest) (hd : d.Initial) (hnm : n < m) :
    (∃ k, n < k ∧ k < m ∧ d.Reloads σ k) ∨ (d.instant σ m).reload = true ∨
      (d.instant σ m).Loading ∨ (∃ f, (d.instant σ m).thread t = ⟨rest, .verdict (.error f)⟩) ∨
      Unreported rest ((d.instant σ m).thread t) := by
  induction hnm with
  | refl =>
    obtain ⟨p, f, -, hself⟩ := hf
    exact .inr (.inr (.inr (.inl ⟨f, hself⟩)))
  | @step m hnm ih =>
    have hlater : (∃ k, n < k ∧ k < m ∧ d.Reloads σ k) → ∃ k, n < k ∧ k < m + 1 ∧ d.Reloads σ k :=
      fun ⟨k, hnk, hkm, hk⟩ => ⟨k, hnk, Nat.lt_succ_of_lt hkm, hk⟩
    rcases ih with hr | hflag | hload | hu
    · exact .inl (hlater hr)
    · rcases reload_succ hflag with hflag | hload
      · exact .inr (.inl hflag)
      · exact .inr (.inr (.inl hload))
    · rcases hf.loading_succ hd hnm hload with hr | hflag | hload
      · exact .inl (hlater hr)
      · exact .inr (.inl hflag)
      · exact .inr (.inr (.inl hload))
    · rcases hf.unreported_succ hd hu with hflag | hu
      · exact .inr (.inl hflag)
      · exact .inr (.inr (.inr hu))

/-- **Reloading.** Between a call of the client logic that failed and a later one, the logic has
been loaded anew; unless the later one is part of a load, or comes from another thread, while the
failure is still unreported and the thread that failed does not hold the lock. -/
theorem reloaded_between (hd : d.Initial) (hf : d.Fails σ n t rest) (he : d.Enters σ m u post)
    (hnm : n < m) :
    (∃ k, n < k ∧ k < m ∧ d.Reloads σ k) ∨ (∃ call, .reloaded call ∈ post) ∨
      t ≠ u ∧ ¬ (d.instant σ m).Holds t ∧ Unreported rest ((d.instant σ m).thread t) := by
  have hu := he.holds hd
  obtain ⟨call, ⟨hdoes, hflag⟩ | ⟨hdoes, hans⟩⟩ := he
  · rcases hf.due hd hnm with hr | hup | ⟨v, pre, call', post', hag⟩ | hopen | hopen
    · exact .inl hr
    · exact absurd (hflag.symm.trans hup) Bool.false_ne_true
    · -- the load and the entry are of one thread, as both need the lock
      obtain rfl := (hd.holds_of_reloaded pre hag).unique hu
      have hsplit := hdoes.agenda.symm.trans hag
      cases pre with
      | nil => cases hsplit
      | cons b pre =>
        obtain ⟨-, rfl⟩ := List.cons_eq_cons.1 hsplit
        exact .inr (.inl ⟨call', List.mem_append_right _ List.mem_cons_self⟩)
    · obtain ⟨f, hth⟩ := hopen
      have hag : ((d.instant σ m).thread t).agenda = rest := by rw [hth]
      obtain ⟨b, rep, after, hb, -, rfl⟩ := hf.below hd
      obtain rfl := (hf.holds_of_hand hd hag).unique hu
      obtain ⟨rfl, -⟩ := List.cons_eq_cons.1 (hag.symm.trans hdoes.agenda)
      simp at hb
    · have hne : t ≠ u := by
        rintro rfl
        obtain ⟨rep, after, f, -, hrep, hth⟩ := hopen
        have hag : ((d.instant σ m).thread t).agenda = rep :: after := by rw [hth]
        obtain ⟨rfl, -⟩ := List.cons_eq_cons.1 (hag.symm.trans hdoes.agenda)
        cases hrep
      exact .inr (.inr ⟨hne, fun ht => hne (ht.unique hu), hopen⟩)
  · exact .inl (hf.reloads hd hnm hdoes.agenda hans)

/-- A hit holds the lock beyond its call of the client logic;
so no other call comes in between when the call fails. -/
theorem reloaded_after_hit {c : ContextId} {ev : Hook.Event} (hd : d.Initial)
    (hf : d.Fails σ n t (.unlock :: .reportHandled :: .decide c ev :: rest))
    (he : d.Enters σ m u post) (hnm : n < m) :
    (∃ k, n < k ∧ k < m ∧ d.Reloads σ k) ∨ ∃ call, .reloaded call ∈ post := by
  rcases reloaded_between hd hf he hnm with hr | hnested | ⟨-, hfree, rep, after, f, heq, -, hth⟩
  · exact .inl hr
  · exact .inr hnested
  · refine absurd ?_ hfree
    obtain ⟨rfl, rfl⟩ : rep = .reportHandled ∧ after = .decide c ev :: rest := by
      simpa [eq_comm] using heq
    obtain ⟨o, ho, hheld⟩ := hd.disciplined.instant σ m t
    rw [hth] at ho
    obtain ⟨o', ho', hreport⟩ := owes_cons.1 ho
    obtain ⟨o'', -, hdecide⟩ := owes_cons.1 ho'
    cases hreport
    cases hdecide
    unfold Holds
    rw [← hheld]
    exact Nat.succ_pos _

end Debugger

/-! ## Loads of one step -/

/-- **Loading at once.** The client logic uses no operation while it is loaded. -/
def Logic.LoadsAtOnce (l : Logic) : Prop :=
  ∀ s last op next, (l.step s (l.enter .reload) last).2 ≠ .use op next

theorem Protocol.loadsAtOnce : Protocol.logic.LoadsAtOnce := by
  intro s last op next h
  have hdone : (Protocol.logic.step s (Protocol.logic.enter .reload) last).2 = .done (.ok {}) := rfl
  rw [hdone] at h
  cases h

namespace Debugger

variable {d e : Debugger S} {σ : Schedule} {t u v : ThreadId} {last ans : Answer} {k m n : Nat}

/-- A load of one step is at the head of an agenda. -/
theorem Initial.loading (hd : d.Initial) (hl : S.logic.LoadsAtOnce) (σ : Schedule) (n : Nat)
    (t : ThreadId) (pre : List (Action S))
    (hag : ((d.instant σ n).thread t).agenda = pre ++ .reloaded call :: post) :
    pre = [] ∨ pre = [.logic (S.logic.enter .reload)] := by
  refine agenda_invariant (σ := σ) (P := fun _ as => ∀ pre call post,
      as = pre ++ .reloaded call :: post → pre = [] ∨ pre = [.logic (S.logic.enter .reload)]) hd
    (fun t pre call post h => absurd h (by simp)) (fun n t op _ pre call post h => ?_)
    (fun n t a rest e todo ans _ hact hp pre call post h => ?_) n t pre call post hag
  · have hmem : .reloaded call ∈ ([.begin op] : List (Action S)) := by
      rw [h]
      exact List.mem_append_right _ List.mem_cons_self
    simp at hmem
  · have hl' := act_leads hact
    -- a call that has been waiting waits for nothing but the end of this action
    have hbelow : ∀ as, rest = as ++ .reloaded call :: post → todo = [] ∧ as = [] := by
      rintro as rfl
      obtain hnil | hload := hp (a :: as) call post rfl
      · cases hnil
      · obtain ⟨rfl, rfl⟩ := List.cons_eq_cons.1 hload
        obtain rfl | ⟨s, last, op, next, huse, -⟩ := hl'
        · exact ⟨rfl, rfl⟩
        · exact absurd huse (hl s last op next)
    rcases List.append_eq_append_iff.1 h with ⟨as, rfl, hrest⟩ | ⟨as, htodo, hpost⟩
    · obtain ⟨rfl, rfl⟩ := hbelow as hrest
      exact .inl rfl
    cases as with
    | nil =>
      obtain ⟨rfl, -⟩ := hbelow [] hpost.symm
      exact .inl (List.append_eq_nil_iff.1 htodo.symm).1
    | cons b as =>
      obtain ⟨rfl, rfl⟩ := List.cons_eq_cons.1 hpost
      have hload := hl'.load_of_reloaded
        (by rw [htodo]; exact List.mem_append_right _ List.mem_cons_self)
      rw [htodo, List.append_eq_cons_iff] at hload
      obtain ⟨rfl, hload⟩ | ⟨pre', rfl, hload⟩ := hload
      · cases hload
      · obtain ⟨rfl, -⟩ | ⟨_, -, hnil⟩ := List.append_eq_cons_iff.1 hload.symm
        · exact .inr rfl
        · simp at hnil

theorem Enters.not_mem (he : d.Enters σ m u rest) (hd : d.Initial) (hl : S.logic.LoadsAtOnce)
    (call : LogicCall) : .reloaded call ∉ rest := by
  intro hmem
  obtain ⟨pre, post, rfl⟩ := List.append_of_mem hmem
  obtain ⟨call', ⟨hdoes, -⟩ | ⟨hdoes, -⟩⟩ := he
  · obtain hnil | hload := hd.loading hl σ m u (.enter call' :: pre) hdoes.agenda
    · cases hnil
    · cases hload
  · obtain hnil | hload := hd.loading hl σ m u (.reloaded call' :: pre) hdoes.agenda
    · cases hnil
    · cases hload

/-- **Reloading of the JSON protocol.** -/
theorem protocol_reloaded_between {host : Host} {sink : Sink}
    {d : Debugger (Protocol.setup host sink)} {rest post : List (Action (Protocol.setup host sink))}
    (hd : d.Initial) (hf : d.Fails σ n t rest) (he : d.Enters σ m u post) (hnm : n < m) :
    (∃ k, n < k ∧ k < m ∧ d.Reloads σ k) ∨
      t ≠ u ∧ ¬ (d.instant σ m).Holds t ∧ Unreported rest ((d.instant σ m).thread t) := by
  rcases reloaded_between hd hf he hnm with hr | ⟨call, hnested⟩ | hopen
  · exact .inl hr
  · exact absurd hnested (he.not_mem hd Protocol.loadsAtOnce call)
  · exact .inr hopen

end Debugger

/-! ## A run -/

namespace Rehearsal

open Debugger (Turn Schedule)

/-- Client logic that fails when a context comes, and does nothing else. -/
def frail : Logic where
  State := Unit
  Point := LogicCall
  enter := id
  step s call _ := (s, .done <| match call with
    | .added .. => .error (.failed "added")
    | _ => .ok {})

theorem frail_uses_nothing (s : frail.State) (p : frail.Point) (last : Answer) (op : Operation)
    (next : frail.Point) : (frail.step s p last).2 ≠ .use op next := by
  intro h
  have hdone : ∃ r, (frail.step s p last).2 = .done r := ⟨_, rfl⟩
  obtain ⟨r, hr⟩ := hdone
  rw [hr] at h
  cases h

/-- A debugger with two threads over that logic. -/
def frailDebugger : Debugger ⟨host, frail, sink⟩ where
  host := ({} : PlannedHost)
  logic := ()
  sink := ({} : SinkState)
  threads := [{}, {}]

/-- An execution is registered, of which the client logic is told, but fails; before the failure is
reported, another thread gives a message to the logic. -/
def unreported : Schedule := .ofTurns <|
  .call 0 (.start ⟨1⟩ "a") :: .call 1 (.message "hello") :: .step 1 :: .replicate 7 (.step 0) ++
  [.step 1, .step 1]

/-- Whether a thread is in a call of the client logic. -/
def inLogic (x : Thread ⟨host, frail, sink⟩) : Bool :=
  match x.agenda with
  | .logic _ :: _ => true
  | _ => false

/-- Whether a thread is about to enter the client logic. -/
def entering (x : Thread ⟨host, frail, sink⟩) : Bool :=
  match x.agenda with
  | .enter _ :: _ => true
  | _ => false

/-- Whether a call has just failed. -/
def failed (x : Thread ⟨host, frail, sink⟩) : Bool :=
  match x.answer with
  | .verdict (.error _) => true
  | _ => false

theorem frailDebugger_initial : frailDebugger.Initial where
  registry := rfl
  contexts := rfl
  dispatch := rfl
  idle
    | 0 | 1 => rfl
    | t + 2 => by simp [frailDebugger, Debugger.thread]

theorem inLogic_eq {x : Thread ⟨host, frail, sink⟩} (hx : inLogic x = true) :
    ∃ p rest, x.agenda = .logic p :: rest := by
  unfold inLogic at hx
  split at hx
  · rename_i p rest hag
    exact ⟨p, rest, hag⟩
  · cases hx

theorem entering_eq {x : Thread ⟨host, frail, sink⟩} (hx : entering x = true) :
    ∃ call rest, x.agenda = .enter call :: rest := by
  unfold entering at hx
  split at hx
  · rename_i call rest hag
    exact ⟨call, rest, hag⟩
  · cases hx

theorem failed_eq {x : Thread ⟨host, frail, sink⟩} (hx : failed x = true) :
    ∃ f, x.answer = .verdict (.error f) := by
  unfold failed at hx
  split at hx
  · rename_i f hans
    exact ⟨f, hans⟩
  · cases hx

theorem unreported_fails : ∃ rest, frailDebugger.Fails unreported 8 0 rest := by
  obtain ⟨p, rest, hag⟩ := inLogic_eq
    (x := (frailDebugger.instant unreported 8).thread 0) (by decide +kernel)
  obtain ⟨f, hans⟩ := failed_eq (x := (frailDebugger.instant unreported 9).thread 0)
    (by decide +kernel)
  have hdoes : frailDebugger.Does unreported 8 0 (.logic p) rest :=
    ⟨rfl, hag, by decide +kernel⟩
  obtain ⟨e, todo, ans, hact, -, hself⟩ := hdoes.next
  cases hact
  refine ⟨rest, p, f, hdoes, ?_⟩
  rw [hself] at hans ⊢
  exact congrArg (Thread.mk rest) hans

theorem unreported_enters : ∃ rest, frailDebugger.Enters unreported 11 1 rest := by
  obtain ⟨call, rest, hag⟩ := entering_eq
    (x := (frailDebugger.instant unreported 11).thread 1) (by decide +kernel)
  exact ⟨rest, call, .inl ⟨⟨rfl, hag, by decide +kernel⟩, by decide +kernel⟩⟩

/-- **An entry before the reload.** Even when no call of the client logic uses an operation, so that
none is made from inside another, one may begin after a failure with no load between. -/
theorem entered_before_reload : ¬ ∀ (S : Setup) (d : Debugger S) (σ : Schedule), d.Initial →
    (∀ s p last op next, (S.logic.step s p last).2 ≠ .use op next) →
    ∀ n m t u rest post, d.Fails σ n t rest → d.Enters σ m u post → n < m →
      ∃ k, n < k ∧ k < m ∧ d.Reloads σ k := by
  intro hall
  obtain ⟨rest, hf⟩ := unreported_fails
  obtain ⟨post, he⟩ := unreported_enters
  obtain ⟨k, hnk, hkm, t, p, call, rest', v, hdoes, -⟩ := hall _ frailDebugger unreported
    frailDebugger_initial frail_uses_nothing 8 11 0 1 rest post hf he (by decide)
  -- at the two turns between, one thread gives back the lock and the other one takes it
  have hturn : ∀ u, unreported k = .step u →
      inLogic ((frailDebugger.instant unreported k).thread u) =
      false := by
    obtain rfl | rfl : k = 9 ∨ k = 10 := by omega
    · rintro u hu
      cases hu
      decide +kernel
    · rintro u hu
      cases hu
      decide +kernel
  have hlogic := hturn t hdoes.turn
  unfold inLogic at hlogic
  rw [hdoes.agenda] at hlogic
  cases hlogic

end Rehearsal

end ScriptDebug
