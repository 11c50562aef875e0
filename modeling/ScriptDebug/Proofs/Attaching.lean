import ScriptDebug.Proofs.Abiding

/-!
# Attaching and detaching

One thread attaches executions and detaches them again, while everybody else keeps to other ones.

1. `Changed` says which executions are registered since the first state, and which have got their
   hooks since; for all others nothing has changed.
2. `Attaching` and `Detaching` are the ways through an attach and a detach, and what stands at each
   point of them. An attach that is refused has changed nothing, and one that is not has registered
   the execution and installed its hook (`Attaching.act`); a detach undoes both (`Detaching.act`).
3. The contexts that were made since are closed, or registered, or about to be closed (`Tidy`).
-/

namespace ScriptDebug.Debugger

variable {logic : Logic} {sink : Sink} {F : Handle → Prop}
  {d₀ d e : Debugger (Demo.setup logic sink)} {t : ThreadId} {last ans : Answer}
  {a : Action (Demo.setup logic sink)} {as rest todo : List (Action (Demo.setup logic sink))}
  {N : Nat} {c : ContextId} {h : Handle} {hs regs hooks : List Handle} {name : String}

/-! ## What stands -/

/-- **Since.** A context of an execution is not one of the first `N`. -/
def Since (d : Debugger (Demo.setup logic sink)) (N : Nat) (h : Handle) (c : ContextId) : Prop :=
  N ≤ c ∧ ∃ x, d.contexts[c]? = some x ∧ x.handle = h

theorem Since.mono (hc : d.Since N h c) (hp : d.Preserves e) : e.Since N h c := by
  obtain ⟨hN, x, hx, rfl⟩ := hc
  obtain ⟨y, hy, hh, -⟩ := hp.context hx
  exact ⟨hN, y, hy, hh⟩

/-- **Untouched.** An execution is not registered, and has no hook. -/
def Untouched (d : Debugger (Demo.setup logic sink)) (h : Handle) : Prop :=
  d.lookup h = none ∧ Script.Machine.isHooked d.host h = false

/-- **Changed.** Since the first state some executions were registered, and some have got their
hooks; but for these, and for what others may do, nothing has changed. -/
structure Changed (F : Handle → Prop) (d₀ d : Debugger (Demo.setup logic sink))
    (regs hooks : List Handle) : Prop where
  free : ∀ h ∈ regs, ¬ F h ∧ d₀.Untouched h
  registered : ∀ h ∈ regs, ∃ c, d.lookup h = some c ∧ d.Since d₀.contexts.length h c
  others : ∀ h, ¬ F h → h ∉ regs → d.lookup h = d₀.lookup h
  hooked : ∀ h, ¬ F h →
    (Script.Machine.isHooked d.host h = true ↔ Script.Machine.isHooked d₀.host h = true ∨ h ∈ hooks)

theorem unchanged (F : Handle → Prop) (d : Debugger (Demo.setup logic sink)) :
    Changed F d d [] [] where
  free h hh := absurd hh List.not_mem_nil
  registered h hh := absurd hh List.not_mem_nil
  others _ _ _ := rfl
  hooked h _ := by simp

theorem Changed.respects (hch : Changed F d₀ d regs hooks) (hr : d.Respects F e) :
    Changed F d₀ e regs hooks where
  free := hch.free
  registered h hh := by
    obtain ⟨c, hc, hsince⟩ := hch.registered h hh
    exact ⟨c, (hr.lookup (hch.free h hh).1).trans hc, hsince.mono hr.toPreserves⟩
  others h hF hh := (hr.lookup hF).trans (hch.others h hF hh)
  hooked h hF := by rw [hr.isHooked hF]; exact hch.hooked h hF

theorem Changed.congr {hs' : List Handle} (hch : Changed F d₀ d hs hs) (h : ∀ x, x ∈ hs ↔ x ∈ hs') :
    Changed F d₀ d hs' hs' where
  free x hx := hch.free x ((h x).2 hx)
  registered x hx := hch.registered x ((h x).2 hx)
  others x hF hx := hch.others x hF fun hmem => hx ((h x).1 hmem)
  hooked x hF := (hch.hooked x hF).trans (or_congr_right (h x))

/-- An execution that was not registered at first has no context but one that was made since. -/
theorem Changed.since (hch : Changed F d₀ d regs hooks) (hF : ¬ F h) (hfree : d₀.lookup h = none)
    (hc : d.lookup h = some c) : d.Since d₀.contexts.length h c := by
  by_cases hh : h ∈ regs
  · obtain ⟨k, hk, hsince⟩ := hch.registered h hh
    cases hk.symm.trans hc
    exact hsince
  · rw [hch.others h hF hh, hfree] at hc
    cases hc

theorem Changed.lookup_eq_none (hch : Changed F d₀ d regs hooks) (hF : ¬ F h) (hun : d₀.Untouched h)
    (hh : h ∉ regs) :
    d.lookup h = none :=
  (hch.others h hF hh).trans hun.1

theorem Changed.isHooked_eq_false (hch : Changed F d₀ d regs hooks) (hF : ¬ F h)
    (hun : d₀.Untouched h) (hh : h ∉ hooks) : Script.Machine.isHooked d.host h = false := by
  rw [Bool.eq_false_iff]
  intro hhook
  rcases (hch.hooked h hF).1 hhook with hhook | hmem
  · exact Bool.false_ne_true (hun.2.symm.trans hhook)
  · exact hh hmem

theorem Changed.start (hch : Changed F d₀ d hs hs) (hF : ¬ F h)
    (hun : d₀.lookup h = none → Script.Machine.isHooked d₀.host h = false)
    (hlen : d₀.contexts.length ≤ d.contexts.length) (hfree : d.lookup h = none)
    (hact : d.act t last (.begin (.start h name)) = some (e, todo, ans)) :
    h ∉ hs ∧ d₀.Untouched h ∧ Changed F d₀ e (h :: hs) hs := by
  have hnew : h ∉ hs := by
    intro hh
    obtain ⟨c, hc, -⟩ := hch.registered h hh
    cases hfree.symm.trans hc
  have hfree₀ : d₀.lookup h = none := (hch.others h hF hnew).symm.trans hfree
  have hpres := act_preserves hact
  rw [act_start hfree] at hact
  cases hact
  refine ⟨hnew, ⟨hfree₀, hun hfree₀⟩, ?_, fun x hx => ?_, fun x hx hne => ?_, hch.hooked⟩
  · rintro x (_ | ⟨_, hx⟩)
    · exact ⟨hF, hfree₀, hun hfree₀⟩
    · exact hch.free x hx
  · by_cases hxh : x = h
    · subst hxh
      exact ⟨_, Ascending.get?_put_self .., hlen, _, List.getElem?_concat_length, rfl⟩
    · obtain ⟨c, hc, hsince⟩ := hch.registered x ((List.mem_cons.1 hx).resolve_left hxh)
      exact ⟨c, (Ascending.get?_put_ne hxh ..).trans hc, hsince.mono hpres⟩
  · rw [List.mem_cons, not_or] at hne
    exact (Ascending.get?_put_ne hne.1 ..).trans (hch.others x hx hne.2)

theorem Changed.install (hch : Changed F d₀ d (h :: hs) hs)
    (hknows : Script.Machine.knows d.host h = true)
    (hact : d.act t (.flag true) (.install h) = some (e, todo, ans)) :
    todo = [] ∧ ans = .registered (.ok ()) ∧ Changed F d₀ e (h :: hs) (h :: hs) := by
  have hhooked : ∀ x, Script.Machine.isHooked e.host x = true ↔ x = h ∨
      Script.Machine.isHooked d.host x = true := by
    refine fun x => ⟨fun hx => ?_, ?_⟩
    · rcases isHooked_of_act hact hx with ⟨-, hd⟩ | ⟨heq, -⟩
      · exact .inr hd
      · cases heq
        exact .inl rfl
    · rintro (rfl | hd)
      · rcases act_install hact with ⟨-, hx⟩ | ⟨-, hno⟩
        · exact hx
        · exact absurd hknows (Bool.eq_false_iff.1 hno)
      · exact isHooked_act hact nofun hd
  have hinstall : Script.host.installHook d.host h = (_, .ok ()) := if_pos hknows
  simp only [Debugger.act, hinstall] at hact
  cases hact
  refine ⟨rfl, rfl, hch.free, hch.registered, hch.others, fun x hF => ?_⟩
  rw [hhooked x, List.mem_cons, or_left_comm, ← hch.hooked x hF]

theorem Changed.uninstall (hch : Changed F d₀ d (h :: hs) (h :: hs)) (hnew : h ∉ hs)
    (hact : d.act t last (.uninstall h) = some (e, todo, ans)) :
    ∃ r, todo = [.begin (.stop h), .give (.registered r)] ∧ Changed F d₀ e (h :: hs) hs := by
  have hhooked : ∀ x, Script.Machine.isHooked e.host x = true ↔
      x ≠ h ∧ Script.Machine.isHooked d.host x = true := by
    refine fun x => ⟨fun hx => ?_, fun ⟨hne, hd⟩ => isHooked_act hact (fun heq => hne ?_) hd⟩
    · rcases isHooked_of_act hact hx with ⟨hne, hd⟩ | ⟨heq, -⟩
      · exact ⟨fun hxh => hne (by rw [hxh]), hd⟩
      · cases heq
    · cases heq
      rfl
  have hgone : ∀ x, ¬ F x → (x ≠ h ∧ Script.Machine.isHooked d.host x = true ↔
      Script.Machine.isHooked d₀.host x = true ∨ x ∈ hs) := by
    refine fun x hF =>
      ⟨fun ⟨hne, hd⟩ => ?_, fun hx => ⟨?_, (hch.hooked x hF).2 (hx.imp_right (.tail h))⟩⟩
    · exact ((hch.hooked x hF).1 hd).imp_right fun hmem => (List.mem_cons.1 hmem).resolve_left hne
    · rintro rfl
      rcases hx with hhook | hmem
      · exact Bool.false_ne_true ((hch.free x List.mem_cons_self).2.2.symm.trans hhook)
      · exact hnew hmem
  cases hact
  exact ⟨_, rfl, hch.free, hch.registered, hch.others, fun x hF => (hhooked x).trans (hgone x hF)⟩

/-- What is taken out of the registry is as it was at first. -/
theorem Changed.stop (hch : Changed F d₀ d (h :: hs) hs) (hnew : h ∉ hs)
    (hact : d.act t last (.begin (.stop h)) = some (e, todo, ans)) :
    (∃ c x, todo = Action.dispatch (.removed h x) ++ [.reportNotice, .close c,
      .give (.flag true)]) ∧ Changed F d₀ e hs hs := by
  have hpres := act_preserves hact
  obtain ⟨hF, hfree₀, -⟩ := hch.free h List.mem_cons_self
  obtain ⟨c, hc, -, x, hx, -⟩ := hch.registered h List.mem_cons_self
  rw [act_stop hc hx rfl] at hact
  cases hact
  refine ⟨⟨c, x.name, rfl⟩, fun y hy => hch.free y (List.mem_cons_of_mem h hy), fun y hy => ?_,
    fun y hF hy => ?_, hch.hooked⟩
  · obtain ⟨k, hk, hsince⟩ := hch.registered y (List.mem_cons_of_mem h hy)
    have hyh : y ≠ h := by
      rintro rfl
      exact hnew hy
    exact ⟨k, (Ascending.get?_remove_ne hyh _).trans hk, hsince.mono hpres⟩
  · by_cases hyh : y = h
    · subst hyh
      exact (Ascending.get?_remove_self ..).trans hfree₀.symm
    · refine (Ascending.get?_remove_ne hyh _).trans (hch.others y hF ?_)
      rw [List.mem_cons, not_or]
      exact ⟨hyh, hy⟩

/-! ## The way through an attach -/

/-- **Attaching.** Where a thread is on its way through an attach, and what stands there. -/
inductive Attaching (F : Handle → Prop) (d₀ : Debugger (Demo.setup logic sink))
    (hs : List Handle) (h : Handle) (name : String) (d : Debugger (Demo.setup logic sink)) :
    List (Action (Demo.setup logic sink)) → Answer → Prop
  | begin {last : Answer} (hch : Changed F d₀ d hs hs) :
      Attaching F d₀ hs h name d [.begin (.attach h name)] last
  | start {last : Answer} (hch : Changed F d₀ d hs hs) :
      Attaching F d₀ hs h name d [.begin (.start h name), .install h] last
  /-- The execution is registered already. -/
  | refused (hch : Changed F d₀ d hs hs) : Attaching F d₀ hs h name d [.install h] (.flag false)
  | failed {f : RegistryFailure} (hch : Changed F d₀ d hs hs) :
      Attaching F d₀ hs h name d [] (.registered (.error f))
  /-- The client logic is told. -/
  | told {inner : List (Action (Demo.setup logic sink))} {last : Answer} (hnew : h ∉ hs)
      (hinner : ∀ a ∈ inner, a.Abides F) (hch : Changed F d₀ d (h :: hs) hs) :
      Attaching F d₀ hs h name d (inner ++ [.give (.flag true), .install h]) last
  | install (hnew : h ∉ hs) (hch : Changed F d₀ d (h :: hs) hs) :
      Attaching F d₀ hs h name d [.install h] (.flag true)
  | done (hnew : h ∉ hs) (hch : Changed F d₀ d (h :: hs) (h :: hs)) :
      Attaching F d₀ hs h name d [] (.registered (.ok ()))

theorem Attaching.respects (hat : Attaching F d₀ hs h name d as last) (hr : d.Respects F e) :
    Attaching F d₀ hs h name e as last := by
  cases hat with
  | begin hch => exact .begin (hch.respects hr)
  | start hch => exact .start (hch.respects hr)
  | refused hch => exact .refused (hch.respects hr)
  | failed hch => exact .failed (hch.respects hr)
  | told hnew hinner hch => exact .told hnew hinner (hch.respects hr)
  | install hnew hch => exact .install hnew (hch.respects hr)
  | done hnew hch => exact .done hnew (hch.respects hr)

/-- At every point it is said which executions are registered and hooked. -/
theorem Attaching.changed (hat : Attaching F d₀ hs h name d as last) :
    ∃ regs hooks, Changed F d₀ d regs hooks := by
  cases hat <;> exact ⟨_, _, ‹_›⟩

/-- **A step of an attach.** -/
theorem Attaching.act (hat : Attaching F d₀ hs h name d (a :: rest) last)
    (hlogic : logic.Abides F) (hF : ¬ F h)
    (hun : d₀.lookup h = none → Script.Machine.isHooked d₀.host h = false)
    (hlen : d₀.contexts.length ≤ d.contexts.length) (hknows : Script.Machine.knows d.host h = true)
    (hact : d.act t last a = some (e, todo, ans)) :
    Attaching F d₀ hs h name e (todo ++ rest) ans := by
  generalize has : a :: rest = as at hat
  cases hat with
  | begin hch =>
    cases has
    cases hact
    exact .start hch
  | start hch =>
    cases has
    cases hl : d.lookup h with
    | some c =>
      rw [act_start_taken hl] at hact
      cases hact
      exact .refused hch
    | none =>
      obtain ⟨hnew, -, hch'⟩ := hch.start hF hun hlen hl hact
      rw [act_start hl] at hact
      cases hact
      have hinner : ∀ b ∈ ([.lock, .enter (.added h name), .reportNotice] :
          List (Action (Demo.setup logic sink))), b.Abides F := by
        rintro b (_ | ⟨_, _ | ⟨_, _ | ⟨_, ⟨⟩⟩⟩⟩) <;> trivial
      exact .told hnew hinner hch'
  | refused hch =>
    cases has
    cases hact
    exact .failed hch
  | failed hch => cases has
  | @told inner last hnew hinner hch =>
    cases inner with
    | nil =>
      cases has
      cases hact
      exact .install hnew hch
    | cons b inner =>
      -- what comes of the call stands in front of the rest of the attach, and keeps to the
      -- executions of others
      obtain ⟨rfl, rfl⟩ := List.cons_eq_cons.1 has
      have hb := hinner a List.mem_cons_self
      show Attaching F d₀ hs h name e (todo ++ (inner ++ _)) ans
      rw [← List.append_assoc]
      refine .told hnew (fun b hmem => ?_) (hch.respects (act_respects hact hb))
      rcases List.mem_append.1 hmem with hmem | hmem
      · exact (act_leads hact).abides hlogic hb b hmem
      · exact hinner b (List.mem_cons_of_mem _ hmem)
  | install hnew hch =>
    cases has
    obtain ⟨rfl, rfl, hch'⟩ := hch.install hknows hact
    exact .done hnew hch'
  | done hnew hch => cases has

/-! ## The way through a detach -/

/-- **Detaching.** Where a thread is on its way through a detach, and what stands there. -/
inductive Detaching (F : Handle → Prop) (d₀ : Debugger (Demo.setup logic sink))
    (hs : List Handle) (h : Handle) (d : Debugger (Demo.setup logic sink)) :
    List (Action (Demo.setup logic sink)) → Prop
  | begin (hch : Changed F d₀ d (h :: hs) (h :: hs)) : Detaching F d₀ hs h d [.begin (.detach h)]
  | uninstall (hch : Changed F d₀ d (h :: hs) (h :: hs)) : Detaching F d₀ hs h d [.uninstall h]
  | stop {r : Except RegistryFailure Unit} (hch : Changed F d₀ d (h :: hs) hs) :
      Detaching F d₀ hs h d [.begin (.stop h), .give (.registered r)]
  /-- The client logic is told, and the context closed. -/
  | told {as : List (Action (Demo.setup logic sink))} (has : ∀ a ∈ as, a.Abides F)
      (hch : Changed F d₀ d hs hs) :
      Detaching F d₀ hs h d as

theorem Detaching.respects (hdt : Detaching F d₀ hs h d as) (hr : d.Respects F e) :
    Detaching F d₀ hs h e as := by
  cases hdt with
  | begin hch => exact .begin (hch.respects hr)
  | uninstall hch => exact .uninstall (hch.respects hr)
  | stop hch => exact .stop (hch.respects hr)
  | told has hch => exact .told has (hch.respects hr)

theorem Detaching.changed (hdt : Detaching F d₀ hs h d as) :
    ∃ regs hooks, Changed F d₀ d regs hooks := by
  cases hdt <;> exact ⟨_, _, ‹_›⟩

theorem Detaching.over (hdt : Detaching F d₀ hs h d []) : Changed F d₀ d hs hs := by
  cases hdt with
  | told _ hch => exact hch

/-- **A step of a detach.** -/
theorem Detaching.act (hdt : Detaching F d₀ hs h d (a :: rest)) (hlogic : logic.Abides F)
    (hnew : h ∉ hs) (hact : d.act t last a = some (e, todo, ans)) :
    Detaching F d₀ hs h e (todo ++ rest) := by
  generalize has : a :: rest = as at hdt
  cases hdt with
  | begin hch =>
    cases has
    obtain ⟨c, hc, -⟩ := hch.registered h List.mem_cons_self
    simp only [Debugger.act, beginOperation, hc] at hact
    cases hact
    exact .uninstall hch
  | uninstall hch =>
    cases has
    obtain ⟨r, rfl, hch'⟩ := hch.uninstall hnew hact
    exact .stop hch'
  | stop hch =>
    cases has
    obtain ⟨⟨c, x, rfl⟩, hch'⟩ := hch.stop hnew hact
    refine .told (fun b hb => ?_) hch'
    simp only [Action.dispatch, List.mem_append, List.mem_cons, List.not_mem_nil, or_false] at hb
    rcases hb with ((rfl | rfl) | rfl | rfl | rfl) | rfl <;> trivial
  | told has' hch =>
    obtain rfl := has
    have ha := has' a List.mem_cons_self
    refine .told (fun b hmem => ?_) (hch.respects (act_respects hact ha))
    rcases List.mem_append.1 hmem with hmem | hmem
    · exact (act_leads hact).abides hlogic ha b hmem
    · exact has' b (List.mem_cons_of_mem _ hmem)

/-! ## Contexts that are left behind -/

/-- **Tidy.** Whatever context of an execution was made since, and none of the others' business, is
closed, or registered, or about to be closed. -/
def Tidy (F : Handle → Prop) (N : Nat) (d : Debugger (Demo.setup logic sink))
    (as : List (Action (Demo.setup logic sink))) : Prop :=
  ∀ c x, N ≤ c → d.contexts[c]? = some x → ¬ F x.handle →
    x.closed = true ∨ d.lookup x.handle = some c ∨ .close c ∈ as

theorem Tidy.mono {bs : List (Action (Demo.setup logic sink))} (ht : Tidy F N d as)
    (h : ∀ c, .close c ∈ as → .close c ∈ bs) : Tidy F N d bs :=
  fun c x hN hx hF => (ht c x hN hx hF).imp_right (Or.imp_right (h c))

theorem Tidy.respects (ht : Tidy F N d as) (hr : d.Respects F e) : Tidy F N e as := by
  intro c y hN hy hF
  obtain ⟨x, hx⟩ := hr.old hy hF
  obtain ⟨z, hz, hh, hclosed⟩ := hr.context hx
  cases hz.symm.trans hy
  rw [hr.lookup hF, hh]
  exact (ht c x hN hx (hh ▸ hF)).imp_left hclosed

/-- Whoever takes a context out of the registry is about to close it. -/
theorem Tidy.act (ht : Tidy F N d (a :: rest)) (hact : d.act t last a = some (e, todo, ans)) :
    Tidy F N e (todo ++ rest) := by
  intro c y hN hy hF
  cases hx : d.contexts[c]? with
  | none =>
    -- the context is made by this very registration
    obtain ⟨x, name, rfl, rfl, -⟩ := started_of_new hact hx hy
    right; left
    cases hl : d.lookup x with
    | some k =>
      rw [act_start_taken hl] at hact
      cases hact
      cases hx.symm.trans hy
    | none =>
      rw [act_start hl] at hact
      cases hact
      obtain rfl : c = d.contexts.length := by
        have hlt : c < (d.contexts ++ [_]).length := (List.getElem?_eq_some_iff.1 hy).1
        have hge := List.getElem?_eq_none_iff.1 hx
        rw [List.length_append, List.length_singleton] at hlt
        omega
      exact Ascending.get?_put_self ..
  | some x =>
    obtain ⟨z, hz, hh, hclosed⟩ := (act_preserves hact).context hx
    cases hz.symm.trans hy
    rcases ht c x hN hx (hh ▸ hF) with hcl | hl | hmem
    · exact .inl (hclosed hcl)
    · -- a registered context stays so, unless this action takes it out: then its close is behind
      -- the action
      rw [hh]
      unfold Debugger.lookup at hl ⊢
      rcases act_registry hact with hr | ⟨w, name, -, hfree, hr, -⟩ | ⟨w, k, rfl, hk, hr, -⟩ <;>
        rw [hr]
      · exact .inr (.inl hl)
      · have hne : x.handle ≠ w := by
          rintro rfl
          cases hl.symm.trans hfree
        exact .inr (.inl ((Ascending.get?_put_ne hne ..).trans hl))
      · by_cases hw : x.handle = w
        · subst hw
          cases hl.symm.trans hk
          rw [act_stop hl hx rfl] at hact
          cases hact
          exact .inr (.inr (by simp))
        · exact .inr (.inl ((Ascending.get?_remove_ne hw _).trans hl))
    · rcases List.mem_cons.1 hmem with rfl | hmem
      · obtain ⟨w, hw, -, hcl⟩ := closed_of_act hact hx
        cases hw.symm.trans hy
        exact .inl hcl
      · exact .inr (.inr (List.mem_append_right _ hmem))

end ScriptDebug.Debugger
