import ScriptDebug.Proofs.Lock

/-!
# Registered contexts

An entry of the registry leads to an open context of its own handle. A context is taken out of the
registry before the closing of it is put on an agenda, and never comes back; so what is registered
later was registered before, if it was there at all (`registered_of_act`), and nothing that is about
to be closed is registered (`Orderly.closing`). Nothing else than the registered contexts can be
paused, but for those that are about to be closed (`Enrolled.closing`).
-/

namespace ScriptDebug.Debugger

variable {S : Setup} {d e d' : Debugger S} {t : ThreadId} {c : ContextId} {a : Action S}
  {rest todo : List (Action S)} {last ans : Answer}

theorem mem_registered : c ∈ d.registered ↔ ∃ h, (h, c) ∈ d.registry := by
  simp [registered]

/-- **Orderly.** What holds between the registry, the contexts and the agendas. -/
structure Orderly (d : Debugger S) : Prop where
  /-- A handle is looked up as it was entered. -/
  found : ∀ h c, (h, c) ∈ d.registry → d.lookup h = some c
  /-- A registered context is open, under the handle of its entry. -/
  entry : ∀ h c, (h, c) ∈ d.registry →
    ∃ x, d.contexts[c]? = some x ∧ x.handle = h ∧ x.closed = false
  /-- What is about to be closed is a context, and registered no more. -/
  closing : ∀ t c, .close c ∈ (d.thread t).agenda → c < d.contexts.length ∧ c ∉ d.registered
  consistent : ∀ x ∈ d.contexts, x.Consistent

theorem Initial.orderly (h : d.Initial) : d.Orderly where
  found x c hc := by rw [h.registry] at hc; exact absurd hc List.not_mem_nil
  entry x c hc := by rw [h.registry] at hc; exact absurd hc List.not_mem_nil
  closing t c hc := by rw [h.idle t] at hc; exact absurd hc List.not_mem_nil
  consistent x hx := by rw [h.contexts] at hx; exact absurd hx List.not_mem_nil

/-- Only the removal of a context puts its closing on an agenda,
behind a call of the client logic. -/
theorem Leads.close (h : d.Leads a todo) (hc : .close c ∈ todo) :
    ∃ x name, a = .begin (.stop x) ∧ d.lookup x = some c ∧
      todo = Action.dispatch (.removed x name) ++
      [.reportNotice, .close c, .give (.flag true)] := by
  cases a with
  | begin op =>
    cases op with
    | stop x =>
      obtain rfl | ⟨k, name, hk, rfl⟩ := h
      · exact absurd hc List.not_mem_nil
      · obtain rfl : c = k := by simpa [Action.dispatch] using hc
        exact ⟨x, name, rfl, hk, rfl⟩
    | _ => exfalso; grind [Leads, OperationLeads, Action.dispatch]
  | resumeEach cs n => cases cs <;> exfalso <;> grind [Leads]
  | describe cs done => cases cs <;> exfalso <;> grind [Leads]
  | inspect k op => cases op <;> exfalso <;> grind [Leads, Operation.look]
  | _ => exfalso; grind [Leads, Action.dispatch]

/-! ## One action -/

theorem contexts_length_le (h : d.act t last a = some (e, todo, ans)) :
    d.contexts.length ≤ e.contexts.length := by
  rcases Nat.lt_or_ge e.contexts.length d.contexts.length with hlt | hge
  · obtain ⟨y, hy, -⟩ := act_context h (List.getElem?_eq_getElem hlt)
    exact absurd (List.getElem?_eq_some_iff.1 hy).1 (Nat.lt_irrefl _)
  · exact hge

theorem mem_registry_of_act (h : d.act t last a = some (e, todo, ans)) {x : Handle}
    (hc : (x, c) ∈ e.registry) :
    (x, c) ∈ d.registry ∨ ∃ name, a = .begin (.start x name) ∧ d.lookup x = none ∧
      c = d.contexts.length ∧ e.contexts = d.contexts ++ [{ handle := x, name }] := by
  rcases act_registry h with hr | ⟨y, name, rfl, hl, hr, hcs⟩ | ⟨y, k, -, -, hr, -⟩ <;>
    rw [hr] at hc
  · exact .inl hc
  · rcases Ascending.mem_put hc with ⟨rfl, rfl⟩ | hc
    · exact .inr ⟨name, rfl, hl, rfl, hcs⟩
    · exact .inl hc
  · exact .inl (Ascending.mem_remove.1 hc).2

theorem registered_of_act (h : d.act t last a = some (e, todo, ans)) (hlt : c < d.contexts.length)
    (hc : c ∈ e.registered) : c ∈ d.registered := by
  obtain ⟨x, hx⟩ := mem_registered.1 hc
  rcases mem_registry_of_act h hx with hx | ⟨name, -, -, rfl, -⟩
  · exact mem_registered.2 ⟨x, hx⟩
  · exact absurd hlt (Nat.lt_irrefl _)

theorem Orderly.found_act (hd : d.Orderly) (h : d.act t last a = some (e, todo, ans)) {x : Handle}
    (hc : (x, c) ∈ e.registry) : e.lookup x = some c := by
  unfold lookup
  rcases act_registry h with hr | ⟨y, name, -, hl, hr, -⟩ | ⟨y, k, -, -, hr, -⟩ <;>
    rw [hr] at hc ⊢
  · exact hd.found x c hc
  · rcases Ascending.mem_put hc with ⟨rfl, rfl⟩ | hmem
    · exact Ascending.get?_put_self ..
    · have hx : x ≠ y := by
        rintro rfl
        rw [hd.found x c hmem] at hl
        exact absurd hl (by simp)
      rw [Ascending.get?_put_ne hx]
      exact hd.found x c hmem
  · obtain ⟨hx, hc⟩ := Ascending.mem_remove.1 hc
    rw [Ascending.get?_remove_ne hx]
    exact hd.found x c hc

theorem Orderly.entry_act (hd : d.Orderly) (h : d.act t last a = some (e, todo, ans))
    (hag : (d.thread t).agenda = a :: rest) {x : Handle} (hc : (x, c) ∈ e.registry) :
    ∃ y, e.contexts[c]? = some y ∧ y.handle = x ∧ y.closed = false := by
  rcases mem_registry_of_act h hc with hc | ⟨name, -, -, rfl, hcs⟩
  · obtain ⟨y, hy, hh, ho⟩ := hd.entry x c hc
    obtain ⟨z, hz, hzh, -, -, hzo⟩ := act_context h hy
    -- it is not this context that is being closed
    have ha : a ≠ .close c := by
      rintro rfl
      have hmem : Action.close c ∈ (d.thread t).agenda := by
        rw [hag]
        exact List.mem_cons_self
      exact (hd.closing t c hmem).2 (mem_registered.2 ⟨x, hc⟩)
    exact ⟨z, hz, hzh.trans hh, (hzo ha).trans ho⟩
  · exact ⟨{ handle := x, name }, by rw [hcs]; exact List.getElem?_concat_length, rfl, rfl⟩

theorem Orderly.not_registered_of_stop (hd : d.Orderly) {x : Handle}
    (h : d.act t last (.begin (.stop x)) = some (e, todo, ans)) (hl : d.lookup x = some c) :
    c ∉ e.registered := by
  rw [mem_registered]
  rintro ⟨y, hy⟩
  simp only [act, beginOperation, hl] at h
  cases h
  obtain ⟨hne, hy⟩ := Ascending.mem_remove.1 hy
  obtain ⟨u, hu, huh, -⟩ := hd.entry y c hy
  obtain ⟨v, hv, hvh, -⟩ := hd.entry x c (Ascending.mem_of_get? hl)
  obtain rfl : u = v := Option.some.inj (hu.symm.trans hv)
  exact hne (huh.symm.trans hvh)

/-! ## Along a schedule -/

theorem Orderly.step (hd : d.Orderly) (h : d.step t = some d') : d'.Orderly := by
  obtain ⟨a, rest, e, todo, ans, hag, hact, rfl, hself, hne⟩ := step_cases h
  refine ⟨fun x c hc => hd.found_act hact hc, fun x c hc => hd.entry_act hact hag hc,
    fun u c hc => ?_, fun x hx => act_consistent hact hd.consistent x hx⟩
  have hle : d.contexts.length ≤ e.contexts.length := contexts_length_le hact
  -- a closing that was on an agenda before
  have hkeep : c < d.contexts.length ∧ c ∉ d.registered →
      c < e.contexts.length ∧ c ∉ e.registered := fun ⟨hlt, hn⟩ =>
    ⟨Nat.lt_of_lt_of_le hlt hle, fun hr => hn (registered_of_act hact hlt hr)⟩
  by_cases hu : u = t
  · subst hu
    rw [hself] at hc
    rcases List.mem_append.1 hc with hc | hc
    · obtain ⟨x, name, rfl, hl, -⟩ := (act_leads hact).close hc
      obtain ⟨y, hy, -⟩ := hd.entry x c (Ascending.mem_of_get? hl)
      have hn : c ∉ e.registered := hd.not_registered_of_stop hact hl
      exact ⟨Nat.lt_of_lt_of_le (List.getElem?_eq_some_iff.1 hy).1 hle, hn⟩
    · exact hkeep (hd.closing u c (by rw [hag]; exact List.mem_cons_of_mem _ hc))
  · rw [hne u hu] at hc
    exact hkeep (hd.closing u c hc)

theorem Orderly.congr (hd : d.Orderly) (hreg : e.registry = d.registry)
    (hctx : e.contexts = d.contexts)
    (hclose : ∀ t c, .close c ∈ (e.thread t).agenda → .close c ∈ (d.thread t).agenda) :
    e.Orderly := by
  refine ⟨fun x c hc => ?_, fun x c hc => ?_, fun t c hc => ?_, fun x hx => ?_⟩
  · unfold lookup
    rw [hreg] at hc ⊢
    exact hd.found x c hc
  · rw [hreg] at hc
    rw [hctx]
    exact hd.entry x c hc
  · unfold registered
    rw [hctx, hreg]
    exact hd.closing t c (hclose t c hc)
  · exact hd.consistent x (hctx ▸ hx)

theorem Orderly.call (hd : d.Orderly) (t : ThreadId) (op : Operation) : (d.call t op).Orderly := by
  refine hd.congr rfl rfl fun u c hc => ?_
  rcases d.agenda_call t u op with hth | ⟨-, hth⟩ <;> rw [hth] at hc
  · exact hc
  · simp at hc

theorem Orderly.wake (hd : d.Orderly) {x : Context} (hx : d.contexts[c]? = some x) :
    (d.setContext c (x.wake t)).Orderly := by
  refine ⟨hd.found, fun h k hk => ?_, fun u k hk => ?_, fun y hy => ?_⟩
  · obtain ⟨y, hy, hyh, hyo⟩ := hd.entry h k hk
    obtain ⟨z, hz, rfl | rfl⟩ := context_wake t hx hy <;> exact ⟨_, hz, hyh, hyo⟩
  · have := hd.closing u k hk
    exact ⟨by simpa [setContext] using this.1, this.2⟩
  · rcases List.mem_or_eq_of_mem_set hy with hy | rfl
    · exact hd.consistent y hy
    · exact (hd.consistent x (List.mem_of_getElem? hx)).wake t

theorem Orderly.take (hd : d.Orderly) (turn : Turn) : (d.take turn).Orderly := by
  rcases take_cases d turn with
    h | ⟨t, d', -, hs, h⟩ | ⟨t, op, -, -, -, h⟩ | ⟨t, c, x, -, hx, h⟩ <;>
    rw [h]
  · exact hd
  · exact hd.step hs
  · exact hd.call t op
  · exact hd.wake hx

theorem Orderly.instant (hd : d.Orderly) (σ : Schedule) (n : Nat) : (d.instant σ n).Orderly := by
  induction n with
  | zero => exact hd
  | succ n ih =>
    rw [instant_succ]
    exact ih.take (σ n)

/-! ## Contexts out of the registry -/

/-- **Enrolled.** Every context is registered, or closed, or about to be closed. -/
def Enrolled (d : Debugger S) : Prop :=
  ∀ (c : ContextId) (x : Context), d.contexts[c]? = some x →
    c ∈ d.registered ∨ x.closed = true ∨ ∃ t, .close c ∈ (d.thread t).agenda

theorem Initial.enrolled (h : d.Initial) : d.Enrolled := by
  intro c x hx
  rw [h.contexts] at hx
  cases hx

theorem started_of_new (h : d.act t last a = some (e, todo, ans)) (hc : d.contexts[c]? = none)
    {y : Context} (hy : e.contexts[c]? = some y) :
    ∃ x name, a = .begin (.start x name) ∧ y = { handle := x, name } ∧ c ∈ e.registered := by
  have hset : ∀ k w, (d.setContext k w).contexts[c]? ≠ some y := by
    intro k w
    rw [getElem?_setContext, hc]
    split <;> simp
  cases act_yields h with
  | @start x name hfree =>
    have hge : d.contexts.length ≤ c := List.getElem?_eq_none_iff.1 hc
    have hlt : c < (d.contexts ++ [({ handle := x, name } : Context)]).length :=
      (List.getElem?_eq_some_iff.1 hy).1
    obtain rfl : c = d.contexts.length := by
      rw [List.length_append, List.length_singleton] at hlt
      exact Nat.le_antisymm (Nat.le_of_lt_succ hlt) hge
    have hy : (d.contexts ++ [({ handle := x, name } : Context)])[d.contexts.length]? = some y := hy
    rw [List.getElem?_concat_length] at hy
    exact ⟨x, name, rfl, (Option.some.inj hy).symm,
      mem_registered.2 ⟨x, Ascending.mem_of_get? (Ascending.get?_put_self ..)⟩⟩
  | context => exact absurd hy (hset _ _)
  | _ => cases hc.symm.trans hy

/-- A context is taken out of the registry to be closed. -/
theorem Orderly.close_of_act (hd : d.Orderly) (h : d.act t last a = some (e, todo, ans))
    (hc : c ∈ d.registered) (hn : c ∉ e.registered) : .close c ∈ todo := by
  obtain ⟨y, hy⟩ := mem_registered.1 hc
  rcases act_registry h with hr | ⟨x, name, -, hl, hr, -⟩ | ⟨x, k, rfl, hl, hr, -⟩
  · exact absurd (mem_registered.2 ⟨y, by rw [hr]; exact hy⟩) hn
  · have hyx : y ≠ x := by
      rintro rfl
      rw [hd.found y c hy] at hl
      cases hl
    refine absurd (mem_registered.2 ⟨y, ?_⟩) hn
    rw [hr]
    exact Ascending.mem_of_get? ((Ascending.get?_put_ne hyx ..).trans (hd.found y c hy))
  · by_cases hyx : y = x
    · subst hyx
      obtain rfl : c = k := Option.some.inj ((hd.found y c hy).symm.trans hl)
      simp only [act, beginOperation, hl] at h
      cases h
      simp [Action.dispatch]
    · refine absurd (mem_registered.2 ⟨y, ?_⟩) hn
      rw [hr]
      exact Ascending.mem_remove.2 ⟨hyx, hy⟩

theorem Enrolled.step (he : d.Enrolled) (hd : d.Orderly)
    (h : d.step t = some d') : d'.Enrolled := by
  obtain ⟨a, rest, e, todo, ans, hag, hact, rfl, hself, hne⟩ := step_cases h
  intro c y hy
  have hy : e.contexts[c]? = some y := hy
  have hclosing : .close c ∈ todo ++ rest →
      c ∈ e.registered ∨ y.closed = true ∨
      ∃ u, .close c ∈ ((e.setThread t ⟨todo ++ rest, ans⟩).thread u).agenda :=
    fun hmem => .inr (.inr ⟨t, by rw [hself]; exact hmem⟩)
  cases hx : d.contexts[c]? with
  | none =>
    obtain ⟨-, -, -, -, hreg⟩ := started_of_new hact hx hy
    exact .inl hreg
  | some x =>
    obtain ⟨z, hz, -, -, -, hclosed⟩ := act_context hact hx
    obtain rfl : y = z := Option.some.inj (hy.symm.trans hz)
    by_cases ha : a = .close c
    · subst ha
      simp only [act, hx] at hact
      cases hact
      rw [getElem?_setContext, if_pos rfl, hx] at hz
      cases hz
      exact .inr (.inl rfl)
    rcases he c x hx with hreg | hcl | ⟨u, hu⟩
    · by_cases hr : c ∈ e.registered
      · exact .inl hr
      · exact hclosing (List.mem_append_left _ (hd.close_of_act hact hreg hr))
    · exact .inr (.inl ((hclosed ha).trans hcl))
    · by_cases hut : u = t
      · subst hut
        rw [hag] at hu
        refine hclosing (List.mem_append_right _ ?_)
        exact (List.mem_cons.1 hu).resolve_left fun h => ha h.symm
      · exact .inr (.inr ⟨u, by rw [hne u hut]; exact hu⟩)

theorem Enrolled.congr (he : d.Enrolled) (hreg : e.registry = d.registry)
    (hctx : e.contexts = d.contexts)
    (hclose : ∀ t c, .close c ∈ (d.thread t).agenda → .close c ∈ (e.thread t).agenda) :
    e.Enrolled := by
  intro c x hx
  rw [hctx] at hx
  unfold registered
  rw [hreg]
  exact (he c x hx).imp_right (Or.imp_right fun ⟨t, ht⟩ => ⟨t, hclose t c ht⟩)

theorem Enrolled.call (he : d.Enrolled) (hid : (d.thread t).agenda = []) (op : Operation) :
    (d.call t op).Enrolled := by
  refine he.congr rfl rfl fun u c hu => ?_
  have hut : u ≠ t := by
    rintro rfl
    rw [hid] at hu
    cases hu
  rw [thread_call_ne hut]
  exact hu

theorem Enrolled.take (he : d.Enrolled) (hd : d.Orderly) (turn : Turn) :
    (d.take turn).Enrolled := by
  rcases take_cases d turn with
    h | ⟨t, d', -, hs, h⟩ | ⟨t, op, -, hid, -, h⟩ | ⟨t, c, x, -, hx, h⟩ <;>
    rw [h]
  · exact he
  · exact he.step hd hs
  · exact he.call hid op
  · intro k y hy
    obtain ⟨z, hz, hcase⟩ := context_of_wake hx hy
    have hz := he k z hz
    rcases hcase with rfl | rfl <;> exact hz

theorem Enrolled.closing (he : d.Enrolled) (hd : d.Orderly) {x : Context}
    (hx : d.contexts[c]? = some x) (hp : x.isPaused = true) (hc : c ∉ d.registered) :
    ∃ t, .close c ∈ (d.thread t).agenda := by
  rcases he c x hx with hreg | hcl | hmem
  · exact absurd hreg hc
  · have hrun := (hd.consistent x (List.mem_of_getElem? hx)).2.1 hcl
    simp [Context.isPaused, hrun] at hp
  · exact hmem

end ScriptDebug.Debugger
