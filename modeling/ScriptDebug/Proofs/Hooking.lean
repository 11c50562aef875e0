import ScriptDebug.Proofs.Handler
import ScriptDebug.Proofs.Registration
import ScriptDebug.Proofs.Tracing

/-!
# Hooks and registrations

An attach registers an execution, and then installs its hook; a detach removes the hook, and then
takes the execution out of the registry.

1. A registered execution has its hook, or a thread that sees to it (`SeesTo`): it is about to
   install the hook, or to take the execution out of the registry. So with nothing under way a
   registered execution has its hook (`hooked_of_registered`).
2. The other way round, a hook is left behind only where it is installed after its registration is
   gone, or while that is about to go (`InstallsLate`, `hooked_iff_registered`). This happens where
   a detach falls between the two halves of an attach (`Rehearsal.hook_outlives_registration`).
-/

namespace ScriptDebug

/-- Whether an operation changes the registry, and no hook. -/
def Operation.isBare : Operation → Bool
  | .start .. | .stop _ => true
  | _ => false

/-! ## The hooks of the machine -/

namespace Script.Machine

variable {m : Machine} {h x : Handle}

theorem hooked_onFrames (m : Machine) (x : Handle) (f : List Frame → List Frame) :
    (m.onFrames x f).hooked = m.hooked := by
  unfold onFrames
  split <;> rfl

theorem hooked_obey (m : Machine) (x : Handle) (i : Instruction) :
    (m.obey x i).1.hooked = m.hooked := by
  cases i with
  | enter | reach | leave => exact hooked_onFrames ..
  | tell | callNative | returnNative => rfl
  | execute s budget =>
    cases s with
    | declare => exact hooked_onFrames ..
    | assign => rfl
    | call line target =>
      show (m.execute x budget (.call line target)).1.hooked = m.hooked
      simp only [execute]
      split <;> rfl

theorem hooked_step (m : Machine) (code : Code) : (m.step code).1.hooked = m.hooked := by
  cases code with
  | expression => rfl
  | file x path =>
    show (m.load x path).1.hooked = m.hooked
    rw [m.load_eq]
  | agenda x todo =>
    cases todo with
    | nil => rfl
    | cons i todo =>
      rw [step_agenda]
      exact m.hooked_obey x i

theorem isHooked_step (m : Machine) (code : Code) : (m.step code).1.isHooked h = m.isHooked h :=
  congrArg (·.contains h) (m.hooked_step code)

theorem isHooked_installHook :
    (m.installHook x).1.isHooked h = true ↔ h = x ∧ m.knows x = true ∨ m.isHooked h = true := by
  unfold installHook
  split
  · rename_i hk
    simp only [isHooked, List.contains_iff_mem, hk, and_true]
    exact Ascending.mem_insert
  · rename_i hk
    simp only [hk, Bool.false_eq_true, and_false, false_or]

theorem isHooked_removeHook :
    (m.removeHook x).1.isHooked h = true ↔ h ≠ x ∧ m.isHooked h = true := by
  unfold removeHook
  split
  · simp only [isHooked, List.contains_iff_mem]
    exact Ascending.mem_erase
  · rename_i hx
    refine ⟨fun hh => ⟨?_, hh⟩, And.right⟩
    rintro rfl
    exact hx hh

end Script.Machine

namespace Debugger

variable {logic : Logic} {sink : Sink} {d e : Debugger ⟨Script.host, logic, sink⟩} {σ : Schedule}
  {t u : ThreadId} {h : Handle} {last ans : Answer} {a : Action ⟨Script.host, logic, sink⟩}
  {as rest todo : List (Action ⟨Script.host, logic, sink⟩)} {m n : Nat}

/-! ## What an action does to a hook -/

/-- An install behind a registration installs the hook, or takes the registration back. -/
theorem act_install (hact : d.act t (.flag true) (.install h) = some (e, todo, ans)) :
    todo = [] ∧ Script.Machine.isHooked e.host h = true ∨
      .begin (.stop h) ∈ todo ∧ Script.Machine.knows d.host h = false := by
  cases hk : Script.Machine.knows d.host h with
  | true =>
    have hinstall : Script.host.installHook d.host h = (_, .ok ()) := if_pos hk
    simp only [act, hinstall] at hact
    cases hact
    exact .inl ⟨rfl, List.contains_iff_mem.2 (Ascending.mem_insert.2 (.inl rfl))⟩
  | false =>
    have hinstall : Script.host.installHook d.host h = (_, .error _) :=
      if_neg (Bool.eq_false_iff.1 hk)
    simp only [act, hinstall] at hact
    cases hact
    exact .inr ⟨List.mem_cons_self, rfl⟩

theorem isHooked_act (hact : d.act t last a = some (e, todo, ans)) (ha : a ≠ .uninstall h)
    (hh : Script.Machine.isHooked d.host h = true) : Script.Machine.isHooked e.host h = true := by
  rcases act_host hact with heq | ⟨x, rfl, heq⟩ | ⟨x, rfl, heq⟩ | ⟨code, rfl, heq⟩ <;> rw [heq]
  · exact hh
  · exact Script.Machine.isHooked_installHook.2 (.inr hh)
  · exact Script.Machine.isHooked_removeHook.2 ⟨fun hx => ha (by rw [hx]), hh⟩
  · exact (Script.Machine.isHooked_step d.host code).trans hh

/-- A hook was there before and is not removed, or it is installed behind a registration. -/
theorem isHooked_of_act (hact : d.act t last a = some (e, todo, ans))
    (hh : Script.Machine.isHooked e.host h = true) :
    a ≠ .uninstall h ∧ Script.Machine.isHooked d.host h = true ∨
      a = .install h ∧ last = .flag true ∧ Script.Machine.knows d.host h = true := by
  by_cases ha : a = .uninstall h
  · subst ha
    cases hact
    exact absurd rfl (Script.Machine.isHooked_removeHook.1 hh).1
  rcases act_host hact with heq | ⟨x, rfl, heq⟩ | ⟨x, rfl, heq⟩ | ⟨code, rfl, heq⟩
  · exact .inl ⟨ha, heq ▸ hh⟩
  · by_cases hlast : last = .flag true
    · rw [heq] at hh
      rcases Script.Machine.isHooked_installHook.1 hh with ⟨rfl, hk⟩ | hh
      · exact .inr ⟨rfl, hlast, hk⟩
      · exact .inl ⟨ha, hh⟩
    · simp only [act] at hact
      cases hact
      exact .inl ⟨ha, hh⟩
  · rw [heq] at hh
    exact .inl ⟨ha, (Script.Machine.isHooked_removeHook.1 hh).2⟩
  · rw [heq] at hh
    exact .inl ⟨ha, (Script.Machine.isHooked_step d.host code).symm.trans hh⟩

section Registry

variable {S : Setup} {d e : Debugger S} {a : Action S} {todo : List (Action S)}

theorem lookup_of_stop (hact : d.act t last (.begin (.stop h)) = some (e, todo, ans)) :
    e.lookup h = none := by
  cases hl : d.lookup h with
  | none =>
    simp only [act, beginOperation, hl] at hact
    cases hact
    exact hl
  | some c =>
    simp only [act, beginOperation, hl] at hact
    cases hact
    exact Ascending.get?_remove_self ..

theorem lookup_act (hact : d.act t last a = some (e, todo, ans)) (ha : a ≠ .begin (.stop h))
    (hreg : (d.lookup h).isSome) : (e.lookup h).isSome := by
  unfold lookup at hreg ⊢
  rcases act_registry hact with hr | ⟨x, name, rfl, hl, hr, -⟩ | ⟨x, c, rfl, -, hr, -⟩ <;> rw [hr]
  · exact hreg
  · by_cases hx : h = x
    · subst hx
      rw [Ascending.get?_put_self]
      rfl
    · rw [Ascending.get?_put_ne hx]
      exact hreg
  · rw [Ascending.get?_remove_ne fun hx => ha (by rw [hx])]
    exact hreg

theorem lookup_of_act (hact : d.act t last a = some (e, todo, ans)) (hreg : (e.lookup h).isSome) :
    (d.lookup h).isSome ∨ ∃ name, a = .begin (.start h name) ∧ d.lookup h = none := by
  unfold lookup at hreg
  rcases act_registry hact with hr | ⟨x, name, rfl, hl, hr, -⟩ | ⟨x, c, rfl, -, hr, -⟩
  · rw [hr] at hreg
    exact .inl hreg
  · by_cases hx : h = x
    · subst hx
      exact .inr ⟨name, rfl, hl⟩
    · rw [hr, Ascending.get?_put_ne hx] at hreg
      exact .inl hreg
  · by_cases hx : h = x
    · subst hx
      rw [hr, Ascending.get?_remove_self] at hreg
      cases hreg
    · rw [hr, Ascending.get?_remove_ne hx] at hreg
      exact .inl hreg

end Registry

/-! ## Registered executions have their hooks -/

/-- **Only attached.** Executions are registered with their hooks, and taken out of the registry
with them: neither the embedder nor the client logic does the one without the other. -/
structure OnlyAttached (S : Setup) (σ : Schedule) : Prop where
  calls : ∀ n t op, σ n = .call t op → op.isBare = false
  uses : ∀ s p last op next, (S.logic.step s p last).2 = .use op next → op.isBare = false

/-- **Paired.** Every registration on an agenda is followed by the install of its hook. -/
def Paired {S : Setup} (as : List (Action S)) : Prop :=
  ∀ (i : Nat) h name, as[i]? = some (.begin (.start h name)) → as[i + 1]? = some (.install h)

theorem Paired.tail {S : Setup} {a : Action S} {as : List (Action S)} (hp : Paired (a :: as)) :
    Paired as :=
  fun i h name hi => hp (i + 1) h name hi

theorem Paired.append {S : Setup} {as bs : List (Action S)} (ha : Paired as) (hb : Paired bs) :
    Paired (as ++ bs) := by
  intro i h name hi
  rcases Nat.lt_or_ge i as.length with hlt | hge
  · rw [List.getElem?_append_left hlt] at hi
    have hnext := ha i h name hi
    rw [List.getElem?_append_left (List.getElem?_eq_some_iff.1 hnext).1]
    exact hnext
  · rw [List.getElem?_append_right hge] at hi
    rw [List.getElem?_append_right (Nat.le_succ_of_le hge), Nat.succ_sub hge]
    exact hb _ h name hi

theorem Leads.paired {S : Setup} {d : Debugger S} {a : Action S} {todo : List (Action S)}
    {σ : Schedule} (ho : OnlyAttached S σ) (hl : d.Leads a todo) : Paired todo := by
  intro i h name hi
  rcases hl.begin (List.mem_of_getElem? hi) with
    ⟨x, name', rfl, hop⟩ | ⟨x, -, hop⟩ | ⟨code, x, report, -, hop⟩ | ⟨p, s, last, next, -, hu⟩
  · obtain rfl : todo = [.begin (.start x name'), .install x] := hl
    cases hop
    match i with
    | 0 => rfl
    | 1 => cases hi
    | i + 2 => cases hi
  · cases hop
  · cases hop
  · cases ho.uses s p last _ next hu

theorem OnlyAttached.paired {S : Setup} {d : Debugger S} {σ : Schedule} (ho : OnlyAttached S σ)
    (hd : d.Initial) (n : Nat) (t : ThreadId) : Paired ((d.instant σ n).thread t).agenda := by
  refine agenda_invariant (P := fun _ => Paired) hd (fun _ i h name hi => ?_)
    (fun n t op hcall i h name hi => ?_)
    (fun n t a rest e todo ans _ hact hp => ((act_leads hact).paired ho).append hp.tail) n t
  · cases hi
  · have hop := ho.calls n t op hcall
    obtain rfl : .start h name = op := by simpa using List.mem_of_getElem? hi
    cases hop

/-- **SeesTo.** A thread is about to install a hook behind a registration,
or to take the registration back. -/
def SeesTo {S : Setup} (h : Handle) (x : Thread S) : Prop :=
  [.give (.flag true), .install h] <:+: x.agenda ∨
    (∃ post, x.agenda = .install h :: post ∧ x.answer = .flag true) ∨ .begin (.stop h) ∈ x.agenda

theorem SeesTo.ne_nil {S : Setup} {x : Thread S} (hs : SeesTo h x) : x.agenda ≠ [] := by
  intro hnil
  rcases hs with hpiece | ⟨post, hag, -⟩ | hmem
  · rw [hnil] at hpiece
    cases List.infix_nil.1 hpiece
  · cases hnil.symm.trans hag
  · rw [hnil] at hmem
    cases hmem

/-- What was to be done for an execution is still to be done, or done. -/
theorem SeesTo.act (hs : SeesTo h ⟨a :: rest, last⟩) (hact : d.act t last a = some (e, todo, ans)) :
    SeesTo h ⟨todo ++ rest, ans⟩ ∨ Script.Machine.isHooked e.host h = true ∨ e.lookup h = none := by
  rcases hs with hpiece | ⟨post, hag, hlast⟩ | hmem
  · rcases List.infix_cons_iff.1 hpiece with ⟨post, hag⟩ | hpiece
    · obtain ⟨rfl, rfl⟩ := List.cons_eq_cons.1 hag
      cases hact
      exact .inl (.inr (.inl ⟨post, rfl, rfl⟩))
    · exact .inl (.inl (hpiece.trans (List.suffix_append todo rest).isInfix))
  · obtain ⟨rfl, rfl⟩ := List.cons_eq_cons.1 hag
    obtain rfl : last = .flag true := hlast
    rcases act_install hact with ⟨-, hhook⟩ | ⟨hstop, -⟩
    · exact .inr (.inl hhook)
    · exact .inl (.inr (.inr (List.mem_append_left _ hstop)))
  · rcases List.mem_cons.1 hmem with rfl | hmem
    · exact .inr (.inr (lookup_of_stop hact))
    · exact .inl (.inr (.inr (List.mem_append_right _ hmem)))

/-- **Covered.** Every registered execution has its hook, or a thread that sees to it. -/
def Covered (d : Debugger ⟨Script.host, logic, sink⟩) : Prop :=
  ∀ h, (d.lookup h).isSome → Script.Machine.isHooked d.host h = true ∨ ∃ t, SeesTo h (d.thread t)

theorem Covered.step (hc : d.Covered) {d' : Debugger ⟨Script.host, logic, sink⟩}
    (hp : ∀ t, Paired (d.thread t).agenda) (hs : d.step t = some d') : d'.Covered := by
  obtain ⟨a, rest, e, todo, ans, hag, hact, rfl, hself, hne⟩ := step_cases hs
  intro h hreg
  replace hreg : (e.lookup h).isSome := hreg
  show Script.Machine.isHooked e.host h = true ∨ _
  have hsees : SeesTo h ⟨todo ++ rest, ans⟩ →
      ∃ u, SeesTo h ((e.setThread t ⟨todo ++ rest, ans⟩).thread u) :=
    fun hs => ⟨t, by rw [hself]; exact hs⟩
  rcases lookup_of_act hact hreg with hbefore | ⟨name, rfl, hfree⟩
  · rcases hc h hbefore with hhook | ⟨u, hu⟩
    · by_cases ha : a = .uninstall h
      · subst ha
        cases hact
        exact .inr (hsees (.inr (.inr List.mem_cons_self)))
      · exact .inl (isHooked_act hact ha hhook)
    · by_cases hut : u = t
      · subst hut
        have hthread : d.thread u = ⟨a :: rest, (d.thread u).answer⟩ := by rw [← hag]
        rw [hthread] at hu
        rcases hu.act hact with hs | hhook | hgone
        · exact .inr (hsees hs)
        · exact .inl hhook
        · rw [hgone] at hreg
          cases hreg
      · exact .inr ⟨u, by rw [hne u hut]; exact hu⟩
  · -- the install of the hook stands behind the registration
    obtain ⟨post, rfl⟩ : ∃ post, rest = .install h :: post := by
      have hnext := hp t 0 h name (by rw [hag]; rfl)
      rw [hag] at hnext
      exact List.head?_eq_some_iff.1 (by simpa [List.head?_eq_getElem?] using hnext)
    rw [act_start hfree] at hact
    cases hact
    exact .inr (hsees (.inl ⟨Action.dispatch (.added h name) ++ [.reportNotice], post, by simp⟩))

theorem OnlyAttached.covered (ho : OnlyAttached ⟨Script.host, logic, sink⟩ σ)
    (hd : d.Initial) (n : Nat) :
    (d.instant σ n).Covered := by
  refine instant_invariant (P := Covered) (fun h hreg => ?_)
    (fun n t d' hn hs => hn.step (ho.paired hd n) hs)
    (fun n t op _ hn hid _ h hreg => ?_) (fun _ _ _ _ hn _ => hn) n
  · rw [lookup, hd.registry] at hreg
    cases hreg
  · rcases hn h hreg with hhook | ⟨u, hu⟩
    · exact .inl hhook
    · have hut : u ≠ t := by
        rintro rfl
        exact hu.ne_nil hid
      exact .inr ⟨u, by rw [thread_call_ne hut]; exact hu⟩

/-- **A registered execution has its hook** whenever nothing is under way. -/
theorem hooked_of_registered (hd : d.Initial) (ho : OnlyAttached ⟨Script.host, logic, sink⟩ σ)
    (hidle : ∀ t, ((d.instant σ n).thread t).agenda = [])
    (hreg : ((d.instant σ n).lookup h).isSome) :
    Script.Machine.isHooked (d.instant σ n).host h = true := by
  rcases ho.covered hd n h hreg with hhook | ⟨t, ht⟩
  · exact hhook
  · exact absurd (hidle t) ht.ne_nil

/-! ## Hooks that are left behind -/

/-- **Installs late.** At a turn a thread installs a hook behind a registration that is gone, or
about to be taken back. -/
def InstallsLate (d : Debugger ⟨Script.host, logic, sink⟩) (σ : Schedule) (m : Nat)
    (h : Handle) : Prop :=
  ∃ t rest, d.Does σ m t (.install h) rest ∧ ((d.instant σ m).thread t).answer = .flag true ∧
    ((d.instant σ m).lookup h = none ∨ ∃ u, .begin (.stop h) ∈ ((d.instant σ m).thread u).agenda)

/-- **Grounded.** An execution with a hook is there, and registered to stay. -/
structure Grounded (d : Debugger ⟨Script.host, logic, sink⟩) (h : Handle) : Prop where
  knows : Script.Machine.knows d.host h = true
  registered : (d.lookup h).isSome
  stays : ∀ t, .begin (.stop h) ∉ (d.thread t).agenda

theorem knows_of_stop (ho : OnlyAttached ⟨Script.host, logic, sink⟩ σ)
    (hact : d.act t last a = some (e, todo, ans)) (hmem : .begin (.stop h) ∈ todo) :
    a = .uninstall h ∨ Script.Machine.knows d.host h = false := by
  rcases (act_leads hact).begin hmem with
    ⟨x, name, -, hop⟩ | ⟨x, ha | ha, hop⟩ | ⟨code, x, report, -, hop⟩ | ⟨p, s, last, next, -, hu⟩
  · cases hop
  · cases hop
    subst ha
    by_cases hlast : last = .flag true
    · subst hlast
      rcases act_install hact with ⟨rfl, -⟩ | ⟨-, hk⟩
      · cases hmem
      · exact .inr hk
    · simp only [act] at hact
      cases hact
      cases hmem
  · cases hop
    exact .inl ha
  · cases hop
  · cases ho.uses s p last _ next hu

theorem Grounded.succ (ho : OnlyAttached ⟨Script.host, logic, sink⟩ σ)
    (hlate : ¬ d.InstallsLate σ n h)
    (hb : Script.Machine.isHooked (d.instant σ n).host h = true → (d.instant σ n).Grounded h)
    (hh : Script.Machine.isHooked (d.instant σ (n + 1)).host h = true) :
    (d.instant σ (n + 1)).Grounded h := by
  rcases take_cases (d.instant σ n) (σ n) with
    heq | ⟨t, d', hturn, hs, -⟩ | ⟨t, op, hcall, -, -, heq⟩ | ⟨t, c, x, -, -, heq⟩
  · rw [instant_succ, heq] at hh ⊢
    exact hb hh
  · obtain ⟨a, rest, e, todo, ans, hag, hact, rfl, hself, hne⟩ := step_cases hs
    have hdoes : d.Does σ n t a rest := .of_act hturn hag hact
    have hnext := instant_of_act hturn hag hact
    rw [hnext] at hh ⊢
    replace hh : Script.Machine.isHooked e.host h = true := hh
    obtain ⟨ha, hg⟩ : a ≠ .uninstall h ∧ (d.instant σ n).Grounded h := by
      rcases isHooked_of_act hact hh with ⟨ha, hbefore⟩ | ⟨rfl, hlast, hk⟩
      · exact ⟨ha, hb hbefore⟩
      -- the hook is installed in time
      · refine ⟨by simp, hk, ?_, fun u hu => hlate ⟨t, rest, hdoes, hlast, .inr ⟨u, hu⟩⟩⟩
        exact Option.isSome_iff_ne_none.2 fun hgone => hlate ⟨t, rest, hdoes, hlast, .inl hgone⟩
    have hkeep : (e.lookup h).isSome := by
      refine lookup_act hact ?_ hg.registered
      rintro rfl
      exact hg.stays t (by rw [hag]; exact List.mem_cons_self)
    have hknows : Script.Machine.knows e.host h = true := act_knows hact hg.knows
    refine ⟨hknows, hkeep, fun u hu => ?_⟩
    by_cases hut : u = t
    · subst hut
      rw [hself] at hu
      rcases List.mem_append.1 hu with hu | hu
      · rcases knows_of_stop ho hact hu with hun | hk
        · exact ha hun
        · exact Bool.false_ne_true (hk.symm.trans hg.knows)
      · exact hg.stays u (by rw [hag]; exact List.mem_cons_of_mem _ hu)
    · rw [hne u hut] at hu
      exact hg.stays u hu
  · rw [instant_succ, heq] at hh ⊢
    obtain ⟨hk, hreg, hstays⟩ := hb hh
    refine ⟨hk, hreg, fun u hu => ?_⟩
    rcases (d.instant σ n).agenda_call t u op with hth | ⟨-, hth⟩ <;> rw [hth] at hu
    · exact hstays u hu
    · have hop := ho.calls n t op hcall
      obtain rfl : .stop h = op := by simpa using hu
      cases hop
  · rw [instant_succ, heq] at hh ⊢
    obtain ⟨hk, hreg, hstays⟩ := hb hh
    exact ⟨hk, hreg, hstays⟩

/-- **A hook is installed exactly when its execution is registered**, whenever nothing is under way,
if no hook was installed late. -/
theorem hooked_iff_registered (hd : d.Initial)
    (hbare : ∀ h, Script.Machine.isHooked d.host h = false)
    (ho : OnlyAttached ⟨Script.host, logic, sink⟩ σ) (hlate : ∀ m < n, ¬ d.InstallsLate σ m h)
    (hidle : ∀ t, ((d.instant σ n).thread t).agenda = []) :
    Script.Machine.isHooked (d.instant σ n).host h = true ↔ ((d.instant σ n).lookup h).isSome := by
  have hgrounded : ∀ m ≤ n, Script.Machine.isHooked (d.instant σ m).host h = true →
      (d.instant σ m).Grounded h := by
    intro m
    induction m with
    | zero =>
      intro _ hh
      cases (hbare h).symm.trans hh
    | succ m ih => exact fun hmn => Grounded.succ ho (hlate m hmn) (ih (Nat.le_of_succ_le hmn))
  exact ⟨fun hh => (hgrounded n (Nat.le_refl n) hh).registered, hooked_of_registered hd ho hidle⟩

end Debugger

theorem Protocol.onlyAttached {host : Host} {sink : Sink} {σ : Debugger.Schedule}
    (h : ∀ n t op, σ n = .call t op → op.isBare = false) :
    Debugger.OnlyAttached (Protocol.setup host sink) σ where
  calls := h
  uses s p last op next hu := by
    rcases Protocol.step_use hu with ⟨text, v, rfl, -⟩ | ⟨hasked, -⟩
    · rfl
    · cases op with
      | start | stop => cases hasked
      | _ => rfl

/-! ## An attach, and one that is interrupted -/

namespace Rehearsal

open Debugger (Schedule)

/-- A debugger that speaks the protocol, with a machine that has one execution and no hook,
and two threads. -/
def attachingDebugger : Debugger (Protocol.setup Script.host sink) where
  host := { gameMachine with hooked := [] }
  logic := ({} : BreakpointTable)
  sink := ({} : SinkState)
  threads := [{}, {}]

theorem attachingDebugger_initial : attachingDebugger.Initial where
  registry := rfl
  contexts := rfl
  dispatch := rfl
  idle
    | 0 | 1 => rfl
    | _ + 2 => rfl

/-- One attach. -/
def attaching : Schedule := .ofTurns <| .call 0 (.attach ⟨1⟩ "game") :: .replicate 13 (.step 0)

theorem attaching_onlyAttached :
    Debugger.OnlyAttached (Protocol.setup Script.host sink) attaching := by
  refine Protocol.onlyAttached fun n t op hcall => ?_
  rcases Schedule.ofTurns_mem _ n with hmem | hmem
  · have hn : attaching n ∈ _ := hmem
    rw [hcall] at hn
    simp only [List.mem_cons, List.mem_replicate] at hn
    grind [Operation.isBare]
  · have hn : attaching n = .step 0 := hmem
    rw [hcall] at hn
    cases hn

theorem attached_hooked :
    Script.Machine.isHooked (attachingDebugger.instant attaching 14).host ⟨1⟩ = true := by
  have hidle : ∀ t, ((attachingDebugger.instant attaching 14).thread t).agenda = [] :=
    Debugger.idle_of_all (by decide +kernel)
  exact Debugger.hooked_of_registered attachingDebugger_initial attaching_onlyAttached hidle
    (by decide +kernel)

/-- An execution is registered; before its hook is installed, another thread detaches it. -/
def interrupted : Schedule := .ofTurns <|
  .call 0 (.attach ⟨1⟩ "game") :: .replicate 2 (.step 0) ++
  .call 1 (.detach ⟨1⟩) :: .replicate 15 (.step 1) ++
    .replicate 9 (.step 0)

theorem interrupted_call {n : Nat} {t : ThreadId} {op : Operation}
    (h : interrupted n = .call t op) :
    op = .attach ⟨1⟩ "game" ∨ op = .detach ⟨1⟩ := by
  rcases Schedule.ofTurns_mem _ n with hmem | hmem
  · have hn : interrupted n ∈ _ := hmem
    rw [h] at hn
    simp only [List.mem_cons, List.mem_append, List.mem_replicate] at hn
    grind
  · have hn : interrupted n = .step 0 := hmem
    rw [h] at hn
    cases hn

theorem interrupted_idle (t : ThreadId) :
    ((attachingDebugger.instant interrupted 29).thread t).agenda = [] :=
  Debugger.idle_of_all (by decide +kernel) t

/-- **A hook may outlive its registration.** When all attaches and detaches are over, an execution
may have a hook and not be registered. -/
theorem hook_outlives_registration : ¬ ∀ σ : Schedule,
    (∀ n t op, σ n = .call t op → (∃ h name, op = .attach h name) ∨ ∃ h, op = .detach h) →
    ∀ n, (∀ t, ((attachingDebugger.instant σ n).thread t).agenda = []) → ∀ h,
      Script.Machine.isHooked (attachingDebugger.instant σ n).host h = true ↔
        ((attachingDebugger.instant σ n).lookup h).isSome := by
  intro hall
  have hagree := hall interrupted
    (fun n t op hcall => (interrupted_call hcall).imp (fun hop => ⟨_, _, hop⟩) fun hop => ⟨_, hop⟩)
    29 interrupted_idle ⟨1⟩
  have hgone : ((attachingDebugger.instant interrupted 29).lookup ⟨1⟩).isSome = false := by
    decide +kernel
  rw [hgone] at hagree
  exact absurd (hagree.1 (by decide +kernel)) Bool.false_ne_true

end Rehearsal

end ScriptDebug
