import ScriptDebug.Proofs.Access
import ScriptDebug.Proofs.Calls
import ScriptDebug.Rehearsal.Logic

/-!
# Removed contexts

A removal takes a context out of the registry, tells the client logic, and closes the context. Once
it has returned, the context is closed, runs and has no waiters, for ever (`closed_of_later`); and a
hook that holds it still, at whatever stage, is out after two more turns of its thread (`Leaving`).
On its own turns the removal has an effect on no other context, as on one that was registered under
the same handle in the meantime (`Removing`).
-/

namespace ScriptDebug

namespace Debugger

variable {S : Setup} {d e : Debugger S} {σ : Schedule} {t u : ThreadId} {h : Handle}
  {c k : ContextId} {x : Context} {a : Action S} {as pre rest todo : List (Action S)}
  {last ans : Answer} {turn : Turn} {i m n r : Nat}

/-! ## Closed contexts -/

theorem closed_take (turn : Turn) (hx : d.contexts[c]? = some x) (hcl : x.closed = true) :
    ∃ y, (d.take turn).contexts[c]? = some y ∧ y.closed = true := by
  rcases take_cases d turn with
    h | ⟨u, d', -, hst, h⟩ | ⟨u, op, -, -, -, h⟩ | ⟨u, k, z, -, hz, h⟩ <;>
    rw [h]
  · exact ⟨x, hx, hcl⟩
  · obtain ⟨a, rest, e, todo, ans, -, hact, rfl, -⟩ := step_cases hst
    obtain ⟨y, hy, -, -, -, hkeep⟩ := act_context hact hx
    by_cases ha : a = .close c
    · subst ha
      simp only [act, hx] at hact
      cases hact
      exact ⟨x.close.1, by rw [setThread_contexts, getElem?_setContext, if_pos rfl, hx]; rfl, rfl⟩
    · exact ⟨y, hy, (hkeep ha).trans hcl⟩
  · exact ⟨x, hx, hcl⟩
  · obtain ⟨y, hy, rfl | rfl⟩ := context_wake u hz hx <;> exact ⟨_, hy, hcl⟩

theorem closed_of_later (hmn : m ≤ n) (hx : (d.instant σ m).contexts[c]? = some x)
    (hcl : x.closed = true) : ∃ y, (d.instant σ n).contexts[c]? = some y ∧ y.closed = true := by
  induction hmn with
  | refl => exact ⟨x, hx, hcl⟩
  | @step n hmn ih =>
    obtain ⟨y, hy, hycl⟩ := ih
    rw [instant_succ]
    exact closed_take (σ n) hy hycl

/-- **Released.** The context is closed, it runs, and no thread waits for it. -/
def Released (d : Debugger S) (c : ContextId) : Prop :=
  ∃ x, d.contexts[c]? = some x ∧ x.closed = true ∧ x.state = .running ∧ x.waiters = []

theorem Orderly.released (hd : d.Orderly) (hx : d.contexts[c]? = some x) (hcl : x.closed = true) :
    d.Released c := by
  obtain ⟨-, hrun, hwait⟩ := hd.consistent x (List.mem_of_getElem? hx)
  refine ⟨x, hx, hcl, hrun hcl, Classical.byContradiction fun hne => ?_⟩
  have hpaused := hwait hne
  rw [hrun hcl] at hpaused
  cases hpaused

/-! ## The removal -/

theorem act_stop {name : String} (hl : d.lookup h = some c) (hx : d.contexts[c]? = some x)
    (hname : x.name = name) :
    d.act t last (.begin (.stop h)) =
      some ({ d with registry := Ascending.remove h d.registry },
        Action.dispatch (.removed h name) ++ [.reportNotice, .close c,
          .give (.flag true)], .none) := by
  simp only [act, beginOperation, hl, hx]
  rw [← hname]
  rfl

theorem agenda_of_stop (hturn : σ k = .step t)
    (hag : ((d.instant σ k).thread t).agenda = .begin (.stop h) :: rest)
    (hl : (d.instant σ k).lookup h = some c) (hx : (d.instant σ k).contexts[c]? = some x) :
    ((d.instant σ (k + 1)).thread t).agenda = .lock :: .enter (.removed h x.name) ::
      .reportNotice :: .close c :: .give (.flag true) :: rest := by
  obtain ⟨e, todo, ans, hact, -, hself⟩ := (Does.of_act hturn hag (act_stop hl hx rfl)).next
  rw [act_stop hl hx rfl] at hact
  cases hact
  rw [hself]
  rfl

theorem Completes.closes (hs : d.Completes σ t (.stop h) rest k r)
    (hl : (d.instant σ k).lookup h = some c) (hx : (d.instant σ k).contexts[c]? = some x) :
    ∃ j, k < j ∧ j < r ∧ d.Does σ j t (.close c) (.give (.flag true) :: rest) := by
  have hag : ((d.instant σ (k + 1)).thread t).agenda =
      [.lock, .enter (.removed h x.name), .reportNotice] ++
        .close c :: ([.give (.flag true)] ++ rest) :=
    agenda_of_stop hs.turn hs.begins hl hx
  obtain ⟨j, hkj, hjr, -, hj⟩ := hs.does hag hs.before
  exact ⟨j, hkj, hjr, hj⟩

/-! ## Hooks that hold the context -/

/-- **Leaving.** What a hook has left to do about a context from its decision on, and in how many
turns that is done when the context is closed. -/
inductive Leaving (c : ContextId) : Nat → List (Action S) → Prop
  | decide (ev : Hook.Event) : Leaving c 2 [.decide c ev]
  | unlock : Leaving c 2 [.unlock, .wait c]
  | refused : Leaving c 1 [.unlock]
  | wait : Leaving c 1 [.wait c]
  | parked : Leaving c 2 [.parked c]
  | out : Leaving c 0 []

theorem Leaving.ne_nil (hl : Leaving c (n + 1) as) : as ≠ [] := by
  cases hl <;> exact List.cons_ne_nil _ _

theorem Leaving.act (hl : Leaving c (n + 1) (a :: as)) (hr : d.Released c) :
    ∃ e todo ans, d.act t last a = some (e, todo, ans) ∧ Leaving c n (todo ++ as) := by
  obtain ⟨x, hx, hcl, hrun, hwait⟩ := hr
  have hfree : x.isPaused = false := by simp [Context.isPaused, hrun]
  cases hl with
  | decide ev =>
    have hrefused : x.pause ev = .error .closed := by simp [Context.pause, hcl]
    refine ⟨d, [.unlock], .none, ?_, .refused⟩
    simp only [Debugger.act, hx]
    split
    · rename_i heq
      cases heq
      rw [hrefused]
    · rfl
  | unlock =>
    cases hu : d.act t last .unlock with
    | none =>
      simp only [Debugger.act] at hu
      split at hu <;> cases hu
    | some o =>
      obtain ⟨e, todo, ans⟩ := o
      obtain rfl : todo = [] := act_leads hu
      exact ⟨e, [], ans, rfl, .wait⟩
  | refused =>
    cases hu : d.act t last .unlock with
    | none =>
      simp only [Debugger.act] at hu
      split at hu <;> cases hu
    | some o =>
      obtain ⟨e, todo, ans⟩ := o
      obtain rfl : todo = [] := act_leads hu
      exact ⟨e, [], ans, rfl, .out⟩
  | wait =>
    refine ⟨d, [], .none, ?_, .out⟩
    simp [Debugger.act, hx, Context.wait, hfree]
  | parked =>
    refine ⟨d, [.wait c], .none, ?_, .wait⟩
    simp [Debugger.act, hx, hwait]

/-- A thread that is leaving gets out, if it gets turns. -/
theorem Leaving.out_of_fair (hl : Leaving c i as) (hr : ∀ m, n ≤ m → (d.instant σ m).Released c)
    (hfair : ∀ m, ∃ j, m ≤ j ∧ σ j = .step u)
    (hag : ((d.instant σ n).thread u).agenda = as ++ rest) :
    ∃ m, n ≤ m ∧ ((d.instant σ m).thread u).agenda = rest := by
  induction i generalizing n as with
  | zero =>
    cases hl
    exact ⟨n, Nat.le_refl n, hag⟩
  | succ i ih =>
    obtain ⟨a, as, rfl⟩ := List.exists_cons_of_ne_nil hl.ne_nil
    obtain ⟨m, hnm, hm, hth⟩ := exists_turn (by rw [hag]; exact List.cons_ne_nil _ _) hfair
    rw [← hth] at hag
    obtain ⟨e, todo, ans, hact, hl'⟩ : ∃ e todo ans,
        (d.instant σ m).act u ((d.instant σ m).thread u).answer a = some (e, todo, ans) ∧
          Leaving c i (todo ++ as) := hl.act (hr m hnm)
    have hdoes : d.Does σ m u a (as ++ rest) := .of_act hm hag hact
    obtain ⟨e', todo', ans', hact', -, hself⟩ := hdoes.next
    rw [hact] at hact'
    cases hact'
    obtain ⟨j, hmj, hj⟩ := ih hl' (n := m + 1) (fun j hj => hr j (by omega))
      (by rw [hself]; exact (List.append_assoc ..).symm)
    exact ⟨j, by omega, hj⟩

/-- A hook that holds the context at a stage to come gets out,
unless what is before that stage never ends. -/
theorem Leaving.out_or_above (hl : Leaving c (i + 1) as)
    (hr : ∀ m, n ≤ m → (d.instant σ m).Released c) (hfair : ∀ m, ∃ j, m ≤ j ∧ σ j = .step u)
    (hag : ((d.instant σ n).thread u).agenda = pre ++ (as ++ rest)) :
    (∃ m, n ≤ m ∧ ((d.instant σ m).thread u).agenda = rest) ∨
      ∀ m, n ≤ m → ∃ pre', pre' ≠ [] ∧ ((d.instant σ m).thread u).agenda = pre' ++
        (as ++ rest) := by
  have hstage : ∀ m, n ≤ m → ((d.instant σ m).thread u).agenda = as ++ rest →
      ∃ j, n ≤ j ∧ ((d.instant σ j).thread u).agenda = rest := fun m hnm hm => by
    obtain ⟨j, hmj, hj⟩ := hl.out_of_fair (fun j hj => hr j (Nat.le_trans hnm hj)) hfair hm
    exact ⟨j, Nat.le_trans hnm hmj, hj⟩
  refine Classical.or_iff_not_imp_right.2 fun hnot => ?_
  obtain ⟨m, hm⟩ := Classical.not_forall.1 hnot
  obtain ⟨hnm, hm⟩ := Classical.not_imp.1 hm
  obtain ⟨b, bs, rfl⟩ := List.exists_cons_of_ne_nil hl.ne_nil
  rcases keeps_or_does hag hnm with hk | ⟨j, hnj, -, -, hj⟩
  · obtain ⟨pre', hpre⟩ := hk m hnm (Nat.le_refl m)
    obtain rfl : pre' = [] := Classical.byContradiction fun hne => hm ⟨pre', hne, hpre⟩
    exact hstage m hnm hpre
  · exact hstage j hnj hj.agenda

/-! ## The turns of the removal itself -/

/-- Whether an action belongs to a removal that closes a context. -/
def belongs (c : ContextId) : Action S → Prop
  | .lock | .unlock | .enter _ | .reloaded _ | .logic _ | .reportNotice | .sendFailure | .give _ =>
    True
  | .close k => k = c
  | _ => False

/-- **Removing.** All on the agenda belongs to the removal,
but for what the client logic asks for. -/
def Removing (c : ContextId) : List (Action S) → Prop
  | [] => True
  | a :: as => ((∃ p, .logic p ∈ as) ∨ belongs c a) ∧ Removing c as

theorem Removing.append (hp : ∃ p, .logic p ∈ as) (has : Removing c as) (todo : List (Action S)) :
    Removing c (todo ++ as) := by
  induction todo with
  | nil => exact has
  | cons a todo ih =>
    obtain ⟨p, hp⟩ := hp
    exact ⟨.inl ⟨p, List.mem_append_right _ hp⟩, ih⟩

theorem Leads.removing (hl : d.Leads a todo) (ha : belongs c a) (has : Removing c as) :
    Removing c (todo ++ as) := by
  cases a with
  | logic p =>
    obtain rfl | ⟨s, last, op, next, -, rfl⟩ := hl
    · exact has
    · exact ⟨.inl ⟨next, List.mem_cons_self⟩, .inr trivial, has⟩
  | enter call =>
    obtain rfl | rfl := hl <;> exact ⟨.inr trivial, .inr trivial, has⟩
  | reloaded call =>
    obtain rfl | rfl := hl
    · exact ⟨.inr trivial, has⟩
    · exact ⟨.inr trivial, .inr trivial, has⟩
  | reportNotice =>
    obtain rfl | rfl := hl
    · exact has
    · exact ⟨.inr trivial, has⟩
  | lock | unlock | sendFailure | give | close =>
    obtain rfl : todo = [] := hl
    exact has
  | _ => exact absurd ha id

theorem contexts_of_belongs (hact : d.act t last a = some (e, todo, ans)) (ha : belongs c a)
    (hk : k ≠ c) : e.contexts[k]? = d.contexts[k]? := by
  cases a with
  | close c' =>
    obtain rfl : c' = c := ha
    simp only [act] at hact
    split at hact <;> cases hact
    · rw [getElem?_setContext, if_neg (Ne.symm hk)]
    · rfl
  | lock | unlock | enter | reloaded | logic | reportNotice | sendFailure | give =>
    simp only [act] at hact
    grind
  | _ => exact absurd ha id

/-- Along a removal, all that stands above the rest of the agenda belongs to it, or is asked for. -/
theorem Completes.removing (hs : d.Completes σ t (.stop h) rest k r)
    (hl : (d.instant σ k).lookup h = some c) (hx : (d.instant σ k).contexts[c]? = some x)
    (hkn : k < n) (hnr : n ≤ r) :
    ∃ pre, ((d.instant σ n).thread t).agenda = pre ++ rest ∧ Removing c pre := by
  induction hkn with
  | refl =>
    refine ⟨[.lock, .enter (.removed h x.name), .reportNotice, .close c, .give (.flag true)],
      agenda_of_stop hs.turn hs.begins hl hx, ?_⟩
    exact ⟨.inr trivial, .inr trivial, .inr trivial, .inr rfl, .inr trivial, trivial⟩
  | @step n hkn ih =>
    obtain ⟨pre, hag, hpre⟩ := ih (Nat.le_of_succ_le hnr)
    rcases thread_succ d σ n t with hth | ⟨hid, -⟩ | ⟨a, rest', hdoes⟩
    · exact ⟨pre, by rw [hth]; exact hag, hpre⟩
    · have hlt : n = r := hs.eq_of_agenda hkn (Nat.le_of_succ_le hnr) (by
        rw [hid] at hag ⊢
        exact (List.append_eq_nil_iff.1 hag.symm).2.symm)
      omega
    · have hcons := hdoes.agenda
      rw [hag] at hcons
      cases pre with
      | nil =>
        have hlt : n = r := hs.eq_of_agenda hkn (Nat.le_of_succ_le hnr) hag
        omega
      | cons b pre =>
        obtain ⟨rfl, rfl⟩ := List.cons_eq_cons.1 hcons
        obtain ⟨e, todo, ans, hact, -, hself⟩ := hdoes.next
        obtain ⟨hb, hpre⟩ := hpre
        refine ⟨todo ++ pre, by rw [hself]; exact (List.append_assoc ..).symm, ?_⟩
        rcases hb with hp | hb
        · exact hpre.append hp todo
        · exact (act_leads hact).removing hb hpre

/-- **A removal releases the execution thread for good.** Once the removal that took a context out
of the registry has returned, the context is closed, runs and has no waiters, for ever. A hook that
holds it still, at its decision or behind it, gets out if its thread gets turns, unless what it has
to do before that, with the lock or in the client logic, never ends. And on its own turns the
removal leaves every other context as it is, as the one that was registered under the same handle in
the meantime. -/
theorem removal_releases (hd : d.Initial) (hs : d.Completes σ t (.stop h) rest k r)
    (hl : (d.instant σ k).lookup h = some c) :
    (∀ n, r ≤ n → (d.instant σ n).Released c) ∧
      (∀ n u i as pre post, r ≤ n → (∀ m, ∃ j, m ≤ j ∧ σ j = .step u) → Leaving c (i + 1) as →
        ((d.instant σ n).thread u).agenda = pre ++ (as ++ post) →
        (∃ m, n ≤ m ∧ ((d.instant σ m).thread u).agenda = post) ∨
          ∀ m, n ≤ m → ∃ pre', pre' ≠ [] ∧
            ((d.instant σ m).thread u).agenda = pre' ++ (as ++ post)) ∧
      ∀ m a above, k ≤ m → m < r → σ m = .step t →
        ((d.instant σ m).thread t).agenda = a :: (above ++ rest) → (∀ p, .logic p ∉ above) →
        ∀ c', c' ≠ c → (d.instant σ (m + 1)).contexts[c']? = (d.instant σ m).contexts[c']? := by
  obtain ⟨x, hx, -⟩ := (hd.orderly.instant σ k).entry h c (Ascending.mem_of_get? hl)
  have hreleased : ∀ n, r ≤ n → (d.instant σ n).Released c := by
    intro n hrn
    obtain ⟨j, hkj, hjr, hclose⟩ := hs.closes hl hx
    obtain ⟨y, hy, -⟩ := context_of_later (Nat.le_of_lt hkj) hx
    have hclosed : (d.instant σ (j + 1)).contexts[c]? = some y.close.1 := by
      obtain ⟨e, todo, ans, hact, hnext, -⟩ := hclose.next
      simp only [act, hy] at hact
      cases hact
      rw [hnext, setThread_contexts, getElem?_setContext, if_pos rfl, hy]
      rfl
    obtain ⟨z, hz, hzcl⟩ := closed_of_later (Nat.le_trans hjr hrn) hclosed rfl
    exact (hd.orderly.instant σ n).released hz hzcl
  refine ⟨hreleased, fun n u i as pre post hrn hfair hleave hag => ?_,
    fun m a above hkm hmr hturn hag hlogic c' hc' => ?_⟩
  · exact hleave.out_or_above (fun m hnm => hreleased m (Nat.le_trans hrn hnm)) hfair hag
  · obtain hsame | ⟨a', rest', hdoes⟩ := does_of_turn d hturn
    · rw [hsame]
    obtain ⟨rfl, -⟩ := List.cons_eq_cons.1 (hdoes.agenda.symm.trans hag)
    obtain ⟨e, todo, ans, hact, hnext, -⟩ := hdoes.next
    rw [hnext, setThread_contexts]
    rcases Nat.lt_or_eq_of_le hkm with hlt | rfl
    · obtain ⟨above', hag', hrem⟩ := hs.removing hl hx hlt (Nat.le_of_lt hmr)
      obtain rfl : above' = a' :: above := List.append_cancel_right (hag'.symm.trans hag)
      exact contexts_of_belongs hact (hrem.1.resolve_left (not_exists.2 hlogic)) hc'
    · -- the turn that takes the context out
      obtain ⟨rfl, -⟩ := List.cons_eq_cons.1 (hag.symm.trans hs.begins)
      rw [act_stop hl hx rfl] at hact
      cases hact
      rfl

end Debugger

/-! ## A run -/

namespace Rehearsal

open Debugger (Turn Schedule)

/-- A debugger with two threads. Its client logic pauses at calls in line 3, and registers an
execution again as it is told of the removal. -/
def restarter : Debugger ⟨host, logic, sink⟩ where
  host := ({} : PlannedHost)
  logic := ({ plan := { calls := [3], restart := some "second" } } : LogicState)
  sink := ({} : SinkState)
  threads := [{}, {}]

/-- An execution is registered, and parks at a call. It is taken out of the registry, and comes back
as another context before its first one is closed. -/
def replacement : List Turn :=
  .call 0 (.start ⟨1⟩ "first") :: .replicate 9 (.step 0) ++
  .call 1 (.hook ⟨1⟩ callOfF) :: .replicate 11 (.step 1) ++
  .call 0 (.stop ⟨1⟩) :: .replicate 18 (.step 0)

/-- After the replacement the threads go on in turns. -/
def inTurns : Schedule := fun n => (replacement[n]?).getD (.step (n % 2))

theorem inTurns_fair (m : Nat) : ∃ j, m ≤ j ∧ inTurns j = .step 1 := by
  refine ⟨2 * m + 41, by omega, ?_⟩
  have hlen : replacement.length ≤ 2 * m + 41 := Nat.le_add_left 41 (2 * m)
  simp only [inTurns, List.getElem?_eq_none hlen, Option.getD_none]
  rw [show (2 * m + 41) % 2 = 1 by omega]

theorem restarter_initial : restarter.Initial where
  registry := rfl
  contexts := rfl
  dispatch := rfl
  idle
    | 0 | 1 => rfl
    | t + 2 => by simp [restarter, Debugger.thread]

/-- **Scene.** Some agendas of the replacement. -/
inductive Scene where
  | starts (h : Handle) (name : String)
  | stops (h : Handle)
  | closes (c : ContextId)
  | parked (c : ContextId)
  | other
  deriving DecidableEq

/-- The agenda of a scene. -/
def Scene.agenda {S : Setup} : Scene → List (Action S)
  | .starts h name => [.begin (.start h name)]
  | .stops h => [.begin (.stop h)]
  | .closes c => [.close c, .give (.flag true)]
  | .parked c => [.parked c]
  | .other => []

/-- The scene of an agenda. -/
def scene {S : Setup} : List (Action S) → Scene
  | [.begin (.start h name)] => .starts h name
  | [.begin (.stop h)] => .stops h
  | [.close c, .give (.flag true)] => .closes c
  | [.parked c] => .parked c
  | _ => .other

theorem agenda_of_scene {S : Setup} {as : List (Action S)} {s : Scene} (h : scene as = s)
    (hs : s ≠ .other) : as = s.agenda := by
  subst h
  unfold scene at hs ⊢
  split at hs <;> first | rfl | exact absurd rfl hs

theorem completes_of_busy {op : Operation} {k r : Nat} (hturn : inTurns k = .step 0)
    (hbegins : ((restarter.instant inTurns k).thread 0).agenda = [.begin op]) (hkr : k < r)
    (hbusy : ∀ n < r, k < n → ((restarter.instant inTurns n).thread 0).agenda.isEmpty = false)
    (hidle : ((restarter.instant inTurns r).thread 0).agenda.isEmpty = true) :
    restarter.Completes inTurns 0 op [] k r where
  turn := hturn
  begins := hbegins
  before := hkr
  inside n hkn hnr := by
    refine ⟨_, fun hnil => ?_, (List.append_nil _).symm⟩
    have hn := hbusy n hnr hkn
    rw [hnil] at hn
    cases hn
  returned := List.isEmpty_iff.1 hidle

theorem registration_completes :
    restarter.Completes inTurns 0 (.start ⟨1⟩ "first") [] 1 10 :=
  completes_of_busy rfl (agenda_of_scene (s := .starts ⟨1⟩ "first") (by decide +kernel) nofun)
    (by decide) (by decide +kernel) (by decide +kernel)

theorem removal_completes : restarter.Completes inTurns 0 (.stop ⟨1⟩) [] 23 41 :=
  completes_of_busy rfl (agenda_of_scene (s := .stops ⟨1⟩) (by decide +kernel) nofun)
    (by decide) (by decide +kernel) (by decide +kernel)

/-- The first context is released, its thread gets out,
and the closing leaves the second one as it is. -/
theorem replacement_released :
    (∀ n, 41 ≤ n → (restarter.instant inTurns n).Released 0) ∧
      (∃ m, 41 ≤ m ∧ ((restarter.instant inTurns m).thread 1).agenda = []) ∧
      (restarter.instant inTurns 40).contexts[1]? =
      (restarter.instant inTurns 39).contexts[1]? := by
  obtain ⟨hreleased, hout, hother⟩ :=
    Debugger.removal_releases restarter_initial removal_completes (c := 0) (by decide +kernel)
  refine ⟨hreleased, ?_, ?_⟩
  · have hparked : ((restarter.instant inTurns 41).thread 1).agenda = [.parked 0] :=
      agenda_of_scene (s := .parked 0) (by decide +kernel) nofun
    rcases hout 41 1 1 [.parked 0] [] [] (Nat.le_refl 41) inTurns_fair .parked hparked with h | h
    · exact h
    · obtain ⟨above, habove, hag⟩ := h 41 (Nat.le_refl 41)
      rw [hparked] at hag
      exact absurd (List.append_left_eq_self.1 hag.symm) habove
  · have hclose : ((restarter.instant inTurns 39).thread 0).agenda =
        [.close 0, .give (.flag true)] :=
      agenda_of_scene (s := .closes 0) (by decide +kernel) nofun
    exact hother 39 (.close 0) [.give (.flag true)] (by decide) (by decide) rfl hclose (by simp) 1
      (by decide)

end Rehearsal

end ScriptDebug
