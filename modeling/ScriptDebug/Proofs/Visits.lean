import ScriptDebug.Proofs.Outcome
import ScriptDebug.Server.Service

/-!
# Visits and the slot

`Moves s e st s'` lists what an event can do to a server; `step_moves` says that there is nothing
else. On it rests what ties the visits to the slot: only the newest visit is at the gate, and a
visit that claimed the slot holds it until it gives it back, unless the slot was closed by the end
of the server (`Tidy`).
-/

namespace ScriptDebug.Server

variable {host : Host} {logic : Logic} {s s' : Server host logic} {es pre post : List Event}
  {e : Event} {c k : ConnectionId} {v w : Visit} {t : ThreadId} {stage : Stage}

/-! ## Runs -/

theorem run_append (s : Server host logic) (l r : List Event) :
    s.run (l ++ r) = (s.run l).run r := List.foldl_append

theorem run_concat (s : Server host logic) (es : List Event) (e : Event) :
    s.run (es ++ [e]) = (s.run es).step e := run_append s es [e]

/-- **A run.** What holds at the start and is kept by every event holds at the end. -/
theorem run_invariant {P : List Event → Server host logic → Prop} (h0 : P [] s)
    (hstep : ∀ pre e, (∀ a ∈ pre, a ∈ es) → e ∈ es → P pre (s.run pre) →
      P (pre ++ [e]) ((s.run pre).step e)) : P es (s.run es) := by
  suffices hall : ∀ post pre, pre ++ post = es → P pre (s.run pre) → P es (s.run es) from
    hall es [] rfl h0
  intro post
  induction post with
  | nil =>
    intro pre heq h
    rw [List.append_nil] at heq
    rw [← heq]
    exact h
  | cons e post ih =>
    intro pre heq h
    have hmem : ∀ a, a ∈ pre ∨ a = e → a ∈ es := by
      intro a ha
      rw [← heq, List.mem_append, List.mem_cons]
      rcases ha with ha | ha
      · exact .inl ha
      · exact .inr (.inl ha)
    have hnext := hstep pre e (fun a ha => hmem a (.inl ha)) (hmem e (.inr rfl)) h
    rw [← run_concat] at hnext
    exact ih (pre ++ [e]) (by rw [List.append_assoc]; exact heq) hnext

/-- **Initial.** The server waits for its first client, and does not listen. -/
structure Initial (s : Server host logic) : Prop where
  visits : s.visits = []
  gate : s.gate = .opened
  holder : s.holder = none
  silent : s.debugger.listening = false
  policy : s.breakWithoutClient = false
  /-- Nothing under way sets whether hook events are looked at. -/
  unset : ∀ t on, .begin (.setListening on) ∉ (s.debugger.thread t).agenda

/-! ## The slot as a sink -/

theorem act_sink {S : Setup} {d d' : Debugger S} {last ans : Answer} {a : Action S}
    {todo : List (Action S)} (h : d.act t last a = some (d', todo, ans)) :
    d'.sink = d.sink ∨ ∃ text, d'.sink = (S.sink.send d.sink text).1 := by
  cases Debugger.act_yields h with
  | send a text => exact .inr ⟨text, rfl⟩
  | _ => exact .inl rfl

theorem holder_send (slot : Slot) (text : String) : (slot.send text).1.holder = slot.holder := by
  unfold Slot.send
  split
  · rfl
  · split <;> rfl

theorem holder_receive (slot : Slot) (c : ConnectionId) :
    (slot.receive c).1.holder = slot.holder := by
  unfold Slot.receive
  split <;> rfl

theorem sink_take {S : Setup} (d : Debugger S) (turn : Debugger.Turn) :
    (d.take turn).sink = d.sink ∨ ∃ text, (d.take turn).sink = (S.sink.send d.sink text).1 := by
  rcases Debugger.take_cases d turn with h | ⟨t, d', -, hs, h⟩ | ⟨t, op, -, -, -, h⟩ |
    ⟨t, c, x, -, -, h⟩ <;> rw [h]
  · exact .inl rfl
  · obtain ⟨a, rest, e, todo, ans, -, hact, rfl, -⟩ := Debugger.step_cases hs
    have hsink : e.sink = d.sink ∨ ∃ text, e.sink = (S.sink.send d.sink text).1 := act_sink hact
    exact hsink
  · exact .inl rfl
  · exact .inl rfl

theorem holder_take (d : Debugger (Server.setup host logic)) (turn : Debugger.Turn) :
    Slot.holder (d.take turn).sink = Slot.holder d.sink := by
  rcases sink_take d turn with h | ⟨text, h⟩
  · exact congrArg Slot.holder h
  · exact (congrArg Slot.holder h).trans (holder_send d.sink text)

/-! ## What an event does -/

/-- **Store** of the flag whether hook events are looked at. -/
inductive Store where
  /-- The admission of a client turns it on. -/
  | admission (c : ConnectionId)
  /-- The end of a visit sets it as it is without a client. -/
  | teardown (c : ConnectionId)
  deriving DecidableEq, Repr

/-- The store that the next step of a visit makes. -/
def Visit.store? (c : ConnectionId) (v : Visit) : Option Store :=
  match v.stage, v.thread with
  | .listen, _ => some (.admission c)
  | .quiet, some _ => some (.teardown c)
  | _, _ => none

/-- The store that an event makes. -/
def store? (s : Server host logic) : Event → Option Store
  | .advance c _ => (s.visits[c]?).bind (Visit.store? c)
  | _ => none

/-- **Moves.** What an event can do, and the store of the flag that it makes. -/
inductive Moves (s : Server host logic) : Event → Option Store → Server host logic → Prop
  | stay (e : Event) : Moves s e none s
  | accept (x : Connection) (hgate : s.gate = .opened) (hfree : s.isAdmitting = false) :
    Moves s (.accept x) none
      { (s.onSlot fun slot => (slot.arrive x).1) with visits := s.visits ++ [{}] }
  -- at the gate
  | claim {c : ConnectionId} {t : Option ThreadId} (b : Bool)
      (hv : s.visits[c]? = some ⟨.claim, t⟩) (hfree : s.holder = none) :
    Moves s (.advance c b) none
      ((s.onSlot fun slot => { slot with holder := some c }).goTo c .listen)
  | refuse {c : ConnectionId} {t : Option ThreadId} (b : Bool)
      (hv : s.visits[c]? = some ⟨.claim, t⟩) (htaken : s.holder ≠ none) :
    Moves s (.advance c b) none ((s.onSlot fun slot => slot.shut c).goTo c .over)
  | listen {c : ConnectionId} {t : Option ThreadId} (b : Bool)
      (hv : s.visits[c]? = some ⟨.listen, t⟩) :
    Moves s (.advance c b) (some (.admission c)) ((s.setListening true).goTo c .spawn)
  | spawn {c : ConnectionId} {t : Option ThreadId} (hv : s.visits[c]? = some ⟨.spawn, t⟩) :
    Moves s (.advance c true) none (s.spawnThread c)
  | fail {c : ConnectionId} {t : Option ThreadId} (hv : s.visits[c]? = some ⟨.spawn, t⟩) :
    Moves s (.advance c false) none ((s.onSlot Slot.close).goTo c .over)
  -- the client is there
  | pass {c : ConnectionId} {t : ThreadId} (b : Bool) (text : String) (slot : Slot)
      (hv : s.visits[c]? = some ⟨.read, some t⟩) (hslot : slot.holder = s.holder) :
    Moves s (.advance c b) none
      (((s.onSlot fun _ => slot).callOn t (.message text)).goTo c .dispatch)
  | drop {c : ConnectionId} {t : ThreadId} (b : Bool) (slot : Slot)
      (hv : s.visits[c]? = some ⟨.read, some t⟩) (hslot : slot.holder = s.holder) :
    Moves s (.advance c b) none (s.onSlot fun _ => slot)
  | lose {c : ConnectionId} {t : ThreadId} (b : Bool) (slot : Slot)
      (hv : s.visits[c]? = some ⟨.read, some t⟩) (hslot : slot.holder = s.holder) :
    Moves s (.advance c b) none ((s.onSlot fun _ => slot).goTo c .release)
  | answered {c : ConnectionId} {t : ThreadId} (b : Bool)
      (hv : s.visits[c]? = some ⟨.dispatch, some t⟩) (hidle : s.isIdle t = true) :
    Moves s (.advance c b) none (s.goTo c .read)
  -- the client is lost
  | release {c : ConnectionId} {t : Option ThreadId} (b : Bool)
      (hv : s.visits[c]? = some ⟨.release, t⟩) :
    Moves s (.advance c b) none ((s.onSlot fun slot => slot.release c).goTo c .shut)
  | shut {c : ConnectionId} {t : Option ThreadId} (b : Bool)
      (hv : s.visits[c]? = some ⟨.shut, t⟩) :
    Moves s (.advance c b) none ((s.onSlot fun slot => slot.shut c).goTo c .quiet)
  | quiet {c : ConnectionId} {t : ThreadId} (b : Bool) (hv : s.visits[c]? = some ⟨.quiet, some t⟩) :
    Moves s (.advance c b) (some (.teardown c))
      (((s.setListening s.breakWithoutClient).callOn t .resumeAll).goTo c .sweep)
  | finish {c : ConnectionId} {t : ThreadId} (b : Bool)
      (hv : s.visits[c]? = some ⟨.sweep, some t⟩) (hidle : s.isIdle t = true) :
    Moves s (.advance c b) none (s.goTo c .over)
  -- the end of the server
  | closing (hgate : s.gate = .opened) (hfree : s.isAdmitting = false) :
    Moves s .stop none { s with gate := .closing }
  | close (hgate : s.gate = .closing) :
      Moves s .stop none { s.onSlot Slot.close with gate := .closed }
  | turn (turn : Debugger.Turn) (hcall : ∀ t op, turn = .call t op → s.serves t = false) :
    Moves s (.turn turn) none { s with debugger := s.debugger.take turn }

theorem advance_moves (s : Server host logic) (c : ConnectionId) (b : Bool) :
    Moves s (.advance c b) (s.store? (.advance c b)) (s.advance c b) := by
  have hstore : s.store? (.advance c b) = (s.visits[c]?).bind (Visit.store? c) := rfl
  rw [hstore]
  unfold advance
  split
  · rename_i hv
    rw [hv]
    exact .stay _
  · rename_i v hv
    rw [hv]
    obtain ⟨stage, thread⟩ := v
    cases stage with
    | claim =>
      by_cases hfree : s.holder = none
      · have hclaim : s.slot.claim c = ({ s.slot with holder := some c }, true) := by
          have hnone : s.slot.holder = none := hfree
          simp [Slot.claim, hnone]
        simp only [hclaim]
        exact .claim b hv hfree
      · have hclaim : s.slot.claim c = (s.slot, false) := by
          have hsome : s.slot.holder.isSome = true := Option.isSome_iff_ne_none.2 hfree
          simp [Slot.claim, hsome]
        simp only [hclaim]
        exact .refuse b hv hfree
    | listen => exact .listen b hv
    | spawn =>
      cases b with
      | true => exact .spawn hv
      | false => exact .fail hv
    | read =>
      cases thread with
      | none => exact .stay _
      | some t =>
        have hslot : (s.slot.receive c).1.holder = s.holder := holder_receive s.slot c
        simp only [readNext]
        split
        · exact .pass b _ _ hv hslot
        · split
          · exact .lose b _ hv hslot
          · exact .drop b _ hv hslot
    | dispatch =>
      cases thread with
      | none => exact .stay _
      | some t =>
        simp only
        split
        · rename_i hidle
          exact .answered b hv hidle
        · exact .stay _
    | release => exact .release b hv
    | shut => exact .shut b hv
    | quiet =>
      cases thread with
      | none => exact .stay _
      | some t => exact .quiet b hv
    | sweep =>
      cases thread with
      | none => exact .stay _
      | some t =>
        simp only
        split
        · rename_i hidle
          exact .finish b hv hidle
        · exact .stay _
    | _ => exact .stay _

/-- **A step** of the server is one of the moves. -/
theorem step_moves (s : Server host logic) (e : Event) : Moves s e (s.store? e) (s.step e) := by
  cases e with
  | accept x =>
    simp only [step, accept]
    split
    · rename_i h
      exact .accept x h.1 (by simpa using h.2)
    · exact .stay _
  | advance c b => exact advance_moves s c b
  | stop =>
    simp only [step, stop]
    split
    · rename_i hgate
      split
      · exact .stay _
      · rename_i hfree
        exact .closing hgate (Bool.eq_false_iff.2 hfree)
    · rename_i hgate
      exact .close hgate
    · exact .stay _
  | turn turn =>
    simp only [step, takeTurn]
    split
    · rename_i t op
      split
      · exact .stay _
      · rename_i hserves
        refine .turn _ fun u op' h => ?_
        cases h
        exact Bool.eq_false_iff.2 hserves
    · rename_i hne
      exact .turn turn fun t op h => absurd h (hne t op)

theorem Moves.contexts {st : Option Store} (hm : Moves s e st s') :
    ((∀ turn, e ≠ .turn turn) ∧ s'.debugger.contexts = s.debugger.contexts ∧
        s'.debugger.registry = s.debugger.registry) ∨
      (∃ turn, e = .turn turn ∧ s'.debugger = s.debugger.take turn) ∨ s' = s := by
  cases hm with
  | stay => exact .inr (.inr rfl)
  | turn turn _ => exact .inr (.inl ⟨turn, rfl, rfl⟩)
  | _ => exact .inl ⟨fun _ h => (nomatch h), rfl, rfl⟩

/-! ## Visits and the holder -/

/-- Whether a visit at this stage has claimed the slot and not yet given it back. -/
def Stage.holds : Stage → Bool
  | .listen | .spawn | .read | .dispatch | .release => true
  | _ => false

/-- **Tidy.** How the visits stand to the slot. -/
structure Tidy (s : Server host logic) : Prop where
  /-- Only the newest visit is at the gate, -/
  newest : ∀ (c : ConnectionId) (v : Visit), s.visits[c]? = some v →
    v.stage.atGate = true → c + 1 = s.visits.length
  /-- and only while the gate is open. -/
  opened : ∀ (c : ConnectionId) (v : Visit), s.visits[c]? = some v → v.stage.atGate = true →
    s.gate = .opened
  /-- A visit keeps the slot, unless it was closed at the end. -/
  kept : ∀ (c : ConnectionId) (v : Visit), s.visits[c]? = some v → v.stage.holds = true →
    s.holder = some c ∨ (s.gate = .closed ∧ v.stage.atGate = false)
  /-- Who holds the slot has claimed it. -/
  owner : ∀ c, s.holder = some c → ∃ v : Visit, s.visits[c]? = some v ∧ v.stage.holds = true

theorem tidy_of_no_visits (hvisits : s.visits = []) (hholder : s.holder = none) : s.Tidy where
  newest c v hv := by
    rw [hvisits] at hv
    cases hv
  opened c v hv := by
    rw [hvisits] at hv
    cases hv
  kept c v hv := by
    rw [hvisits] at hv
    cases hv
  owner c hc := by
    rw [hholder] at hc
    cases hc

theorem Initial.tidy (h : s.Initial) : s.Tidy := tidy_of_no_visits h.visits h.holder

theorem Tidy.congr (ht : s.Tidy) (hvisits : s'.visits = s.visits) (hgate : s'.gate = s.gate)
    (hholder : s'.holder = s.holder) : s'.Tidy where
  newest := by
    rw [hvisits]
    exact ht.newest
  opened := by
    rw [hvisits, hgate]
    exact ht.opened
  kept := by
    rw [hvisits, hgate, hholder]
    exact ht.kept
  owner := by
    rw [hvisits, hholder]
    exact ht.owner

/-- A visit after a change is another visit, or the one that was changed. -/
theorem modify_cases {l : List Visit} {f : Visit → Visit} (hv : l[c]? = some v)
    (hw : (l.modify c f)[k]? = some w) : k ≠ c ∧ l[k]? = some w ∨ k = c ∧ w = f v := by
  rw [List.getElem?_modify] at hw
  by_cases hk : c = k
  · subst hk
    rw [hv] at hw
    simp at hw
    exact .inr ⟨rfl, hw.symm⟩
  · simp [hk] at hw
    exact .inl ⟨Ne.symm hk, hw⟩

theorem concat_cases {α : Type} {l : List α} {a b : α} (hb : (l ++ [a])[k]? = some b) :
    l[k]? = some b ∨ k = l.length ∧ b = a := by
  rcases Nat.lt_or_ge k l.length with hlt | hge
  · rw [List.getElem?_append_left hlt] at hb
    exact .inl hb
  · have hlt := (List.getElem?_eq_some_iff.1 hb).1
    rw [List.length_append] at hlt
    rw [List.getElem?_append_right hge] at hb
    exact .inr ⟨Nat.le_antisymm (Nat.le_of_lt_succ hlt) hge,
      List.mem_singleton.1 (List.mem_of_getElem? hb)⟩

theorem modify_self {l : List Visit} {f : Visit → Visit} (hv : l[c]? = some v) :
    (l.modify c f)[c]? = some (f v) := by
  simp [hv]

theorem modify_ne {l : List Visit} {f : Visit → Visit} (hk : k ≠ c) :
    (l.modify c f)[k]? = l[k]? := by
  simp [Ne.symm hk]

theorem Tidy.proceed (ht : s.Tidy) (hv : s.visits[c]? = some v) {f : Visit → Visit}
    (hvisits : s'.visits = s.visits.modify c f) (hgate : s'.gate = s.gate)
    (hholder : s'.holder = s.holder) (hat : (f v).stage.atGate = true → v.stage.atGate = true)
    (hholds : (f v).stage.holds = v.stage.holds) : s'.Tidy where
  newest k w hw hwg := by
    rw [hvisits] at hw ⊢
    rw [List.length_modify]
    rcases modify_cases hv hw with ⟨-, hk⟩ | ⟨rfl, rfl⟩
    · exact ht.newest k w hk hwg
    · exact ht.newest k v hv (hat hwg)
  opened k w hw hwg := by
    rw [hvisits] at hw
    rw [hgate]
    rcases modify_cases hv hw with ⟨-, hk⟩ | ⟨rfl, rfl⟩
    · exact ht.opened k w hk hwg
    · exact ht.opened k v hv (hat hwg)
  kept k w hw hwh := by
    rw [hvisits] at hw
    rw [hgate, hholder]
    rcases modify_cases hv hw with ⟨-, hk⟩ | ⟨rfl, rfl⟩
    · exact ht.kept k w hk hwh
    · rcases ht.kept k v hv (hholds ▸ hwh) with h | ⟨hcl, hng⟩
      · exact .inl h
      · refine .inr ⟨hcl, Bool.eq_false_iff.2 fun h => ?_⟩
        rw [hat h] at hng
        cases hng
  owner k hk := by
    rw [hholder] at hk
    rw [hvisits]
    obtain ⟨w, hw, hwh⟩ := ht.owner k hk
    by_cases hkc : k = c
    · subst hkc
      obtain rfl : w = v := Option.some.inj (hw.symm.trans hv)
      exact ⟨f w, modify_self hv, hholds.trans hwh⟩
    · exact ⟨w, (modify_ne hkc).trans hw, hwh⟩

theorem admitting_eq_false : s.isAdmitting = false ↔
    ∀ (c : ConnectionId) (v : Visit), s.visits[c]? = some v → v.stage.atGate = false := by
  unfold isAdmitting
  rw [List.any_eq_false]
  constructor
  · intro h c v hv
    exact Bool.eq_false_iff.2 (h v (List.mem_of_getElem? hv))
  · intro h v hv
    obtain ⟨c, hc⟩ := List.mem_iff_getElem?.1 hv
    exact Bool.eq_false_iff.1 (h c v hc)

theorem tearing_eq_false : s.isTearingDown = false ↔
    ∀ (c : ConnectionId) (v : Visit), s.visits[c]? = some v → v.stage.isTeardown = false := by
  unfold isTearingDown
  rw [List.any_eq_false]
  constructor
  · intro h c v hv
    exact Bool.eq_false_iff.2 (h v (List.mem_of_getElem? hv))
  · intro h v hv
    obtain ⟨c, hc⟩ := List.mem_iff_getElem?.1 hv
    exact Bool.eq_false_iff.1 (h c v hc)

theorem Tidy.accept (ht : s.Tidy) (hgate : s.gate = .opened) (hfree : s.isAdmitting = false)
    (hvisits : s'.visits = s.visits ++ [({} : Visit)]) (hgate' : s'.gate = s.gate)
    (hholder : s'.holder = s.holder) : s'.Tidy := by
  have hcases : ∀ (k : ConnectionId) (w : Visit), s'.visits[k]? = some w →
      s.visits[k]? = some w ∨ k = s.visits.length ∧ w = ({} : Visit) := by
    intro k w hw
    rw [hvisits] at hw
    exact concat_cases hw
  have hnone := admitting_eq_false.1 hfree
  refine ⟨fun k w hw hwg => ?_, fun k w hw hwg => ?_, fun k w hw hwh => ?_, fun k hk => ?_⟩
  · rcases hcases k w hw with hk | ⟨rfl, -⟩
    · rw [hnone k w hk] at hwg
      cases hwg
    · rw [hvisits, List.length_append]
      rfl
  · rw [hgate', hgate]
  · rcases hcases k w hw with hk | ⟨-, rfl⟩
    · rw [hgate', hholder]
      exact ht.kept k w hk hwh
    · cases hwh
  · rw [hholder] at hk
    obtain ⟨w, hw, hwh⟩ := ht.owner k hk
    refine ⟨w, ?_, hwh⟩
    rw [hvisits, List.getElem?_append_left (List.getElem?_eq_some_iff.1 hw).1]
    exact hw

theorem Tidy.claim (ht : s.Tidy) {o : Option ThreadId} (hv : s.visits[c]? = some ⟨.claim, o⟩)
    (hfree : s.holder = none)
    (hvisits : s'.visits = s.visits.modify c fun v => { v with stage := .listen })
    (hgate : s'.gate = s.gate) (hholder : s'.holder = some c) : s'.Tidy where
  newest k w hw hwg := by
    rw [hvisits] at hw ⊢
    rw [List.length_modify]
    rcases modify_cases hv hw with ⟨-, hk⟩ | ⟨rfl, -⟩
    · exact ht.newest k w hk hwg
    · exact ht.newest k _ hv rfl
  opened k w hw hwg := by
    rw [hgate]
    exact ht.opened c _ hv rfl
  kept k w hw hwh := by
    rw [hvisits] at hw
    rcases modify_cases hv hw with ⟨-, hk⟩ | ⟨rfl, -⟩
    · rcases ht.kept k w hk hwh with h | ⟨hcl, -⟩
      · rw [hfree] at h
        cases h
      · rw [ht.opened c _ hv rfl] at hcl
        cases hcl
    · exact .inl hholder
  owner k hk := by
    rw [hholder] at hk
    cases hk
    rw [hvisits]
    exact ⟨_, modify_self hv, rfl⟩

/-- A visit that gives the slot back, or loses it as it is closed, was the only one that had it. -/
theorem Tidy.leave (ht : s.Tidy) (hv : s.visits[c]? = some v) (hstage : stage.holds = false)
    (hat : stage.atGate = false)
    (hvisits : s'.visits = s.visits.modify c fun v => { v with stage })
    (hgate : s'.gate = s.gate)
    (hholder : s.holder = some c ∧ s'.holder = none ∨ s.holder ≠ some c ∧ s'.holder = s.holder) :
    s'.Tidy where
  newest k w hw hwg := by
    rw [hvisits] at hw ⊢
    rw [List.length_modify]
    rcases modify_cases hv hw with ⟨-, hk⟩ | ⟨rfl, rfl⟩
    · exact ht.newest k w hk hwg
    · rw [hat] at hwg
      cases hwg
  opened k w hw hwg := by
    rw [hvisits] at hw
    rw [hgate]
    rcases modify_cases hv hw with ⟨-, hk⟩ | ⟨rfl, rfl⟩
    · exact ht.opened k w hk hwg
    · rw [hat] at hwg
      cases hwg
  kept k w hw hwh := by
    rw [hvisits] at hw
    rw [hgate]
    rcases modify_cases hv hw with ⟨hkc, hk⟩ | ⟨rfl, rfl⟩
    · rcases ht.kept k w hk hwh with h | h
      · rcases hholder with ⟨hc, -⟩ | ⟨-, hsame⟩
        · exact absurd (Option.some.inj (h.symm.trans hc)) hkc
        · rw [hsame]
          exact .inl h
      · exact .inr h
    · rw [hstage] at hwh
      cases hwh
  owner k hk := by
    rcases hholder with ⟨-, hnone⟩ | ⟨hc, hsame⟩
    · rw [hnone] at hk
      cases hk
    · rw [hsame] at hk
      obtain ⟨w, hw, hwh⟩ := ht.owner k hk
      have hkc : k ≠ c := by
        rintro rfl
        exact hc hk
      rw [hvisits]
      exact ⟨w, (modify_ne hkc).trans hw, hwh⟩

theorem Tidy.close (ht : s.Tidy) (hvisits : s'.visits = s.visits) (hgate : s.gate ≠ .opened)
    (hgate' : s'.gate = .closed) (hholder : s'.holder = none) : s'.Tidy := by
  have hnone : ∀ (k : ConnectionId) (w : Visit), s.visits[k]? = some w →
      w.stage.atGate = false := by
    intro k w hw
    exact Bool.eq_false_iff.2 fun h => hgate (ht.opened k w hw h)
  refine ⟨fun k w hw hwg => ?_, fun k w hw hwg => ?_, fun k w hw hwh => ?_, fun k hk => ?_⟩
  · rw [hvisits] at hw
    rw [hnone k w hw] at hwg
    cases hwg
  · rw [hvisits] at hw
    rw [hnone k w hw] at hwg
    cases hwg
  · rw [hvisits] at hw
    exact .inr ⟨hgate', hnone k w hw⟩
  · rw [hholder] at hk
    cases hk

theorem holder_close (slot : Slot) : slot.close.holder = none := by
  unfold Slot.close
  split
  · rfl
  · assumption

theorem holder_release (slot : Slot) (c : ConnectionId) :
    slot.holder = some c ∧ (slot.release c).holder = none ∨
      slot.holder ≠ some c ∧ (slot.release c).holder = slot.holder := by
  unfold Slot.release
  split
  · rename_i h
    exact .inl ⟨h, rfl⟩
  · rename_i h
    exact .inr ⟨h, rfl⟩

theorem Tidy.moves (ht : s.Tidy) {st : Option Store} (hm : Moves s e st s') : s'.Tidy := by
  cases hm with
  | stay => exact ht
  | accept x hgate hfree => exact ht.accept hgate hfree rfl rfl rfl
  | claim b hv hfree => exact ht.claim hv hfree rfl rfl rfl
  | refuse b hv _ => exact ht.proceed hv rfl rfl rfl (fun h => nomatch h) rfl
  | listen b hv => exact ht.proceed hv rfl rfl rfl (fun _ => rfl) rfl
  | spawn hv => exact ht.proceed hv rfl rfl rfl (fun h => nomatch h) rfl
  | @fail c o hv =>
    refine ht.leave hv rfl rfl rfl rfl (.inl ⟨?_, holder_close s.slot⟩)
    exact (ht.kept c _ hv rfl).resolve_right fun h => nomatch h.2
  | pass b text slot hv hslot => exact ht.proceed hv rfl rfl hslot (fun h => nomatch h) rfl
  | drop b slot hv hslot => exact ht.congr rfl rfl hslot
  | lose b slot hv hslot => exact ht.proceed hv rfl rfl hslot (fun h => nomatch h) rfl
  | answered b hv _ => exact ht.proceed hv rfl rfl rfl (fun h => nomatch h) rfl
  | release b hv => exact ht.leave hv rfl rfl rfl rfl (holder_release s.slot _)
  | shut b hv => exact ht.proceed hv rfl rfl rfl (fun h => nomatch h) rfl
  | quiet b hv => exact ht.proceed hv rfl rfl rfl (fun h => nomatch h) rfl
  | finish b hv _ => exact ht.proceed hv rfl rfl rfl (fun h => nomatch h) rfl
  | closing hgate hfree =>
    have hnone := admitting_eq_false.1 hfree
    refine ⟨ht.newest, fun k w hw hwg => ?_, fun k w hw hwh => ?_, ht.owner⟩
    · rw [hnone k w hw] at hwg
      cases hwg
    · refine .inl ((ht.kept k w hw hwh).resolve_right fun h => ?_)
      rw [hgate] at h
      cases h.1
  | close hgate => exact ht.close rfl (by rw [hgate]; simp) rfl (holder_close s.slot)
  | turn turn _ => exact ht.congr rfl rfl (holder_take s.debugger turn)

/-! ## Visits and their threads -/

/-- Whether the thread of a visit may have something to do. -/
def Stage.isBusy : Stage → Bool
  | .dispatch | .sweep => true
  | _ => false

/-- **Staffed.** Every visit that has a thread has one of its own,
and leaves it idle between its tasks. -/
structure Staffed (s : Server host logic) : Prop where
  hired : ∀ (c : ConnectionId) (v : Visit) (t : ThreadId), s.visits[c]? = some v →
    v.thread = some t → t < s.debugger.threads.length
  own : ∀ (c k : ConnectionId) (v w : Visit) (t : ThreadId), s.visits[c]? = some v →
    s.visits[k]? = some w → v.thread = some t → w.thread = some t → c = k
  idle : ∀ (c : ConnectionId) (v : Visit) (t : ThreadId), s.visits[c]? = some v →
    v.thread = some t → v.stage.isBusy = false → (s.debugger.thread t).agenda = []

theorem staffed_of_no_visits (hvisits : s.visits = []) : s.Staffed where
  hired c v t hv := by
    rw [hvisits] at hv
    cases hv
  own c k v w t hv := by
    rw [hvisits] at hv
    cases hv
  idle c v t hv := by
    rw [hvisits] at hv
    cases hv

theorem Initial.staffed (h : s.Initial) : s.Staffed := staffed_of_no_visits h.visits

theorem Staffed.keep (hs : s.Staffed)
    (hlen : s.debugger.threads.length ≤ s'.debugger.threads.length)
    (hvisits : ∀ (c : ConnectionId) (v : Visit) (t : ThreadId), s'.visits[c]? = some v →
      v.thread = some t → ∃ w : Visit, s.visits[c]? = some w ∧ w.thread = some t)
    (hidle : ∀ (c : ConnectionId) (v : Visit) (t : ThreadId), s'.visits[c]? = some v →
      v.thread = some t → v.stage.isBusy = false → (s'.debugger.thread t).agenda = []) :
    s'.Staffed where
  hired c v t hv ht := by
    obtain ⟨w, hw, hwt⟩ := hvisits c v t hv ht
    exact Nat.lt_of_lt_of_le (hs.hired c w t hw hwt) hlen
  own c k v w t hv hw hvt hwt := by
    obtain ⟨v', hv', hvt'⟩ := hvisits c v t hv hvt
    obtain ⟨w', hw', hwt'⟩ := hvisits k w t hw hwt
    exact hs.own c k v' w' t hv' hw' hvt' hwt'
  idle := hidle

theorem Staffed.proceed (hs : s.Staffed) (hv : s.visits[c]? = some v)
    (hlen : s.debugger.threads.length ≤ s'.debugger.threads.length)
    (hvisits : s'.visits = s.visits.modify c fun v => { v with stage })
    (hidle : stage.isBusy = false → ∀ t, v.thread = some t → (s.debugger.thread t).agenda = [])
    (hthread : ∀ t, (s'.debugger.thread t).agenda = (s.debugger.thread t).agenda ∨
      v.thread = some t ∧ stage.isBusy = true) : s'.Staffed := by
  have hcases : ∀ (k : ConnectionId) (w : Visit), s'.visits[k]? = some w →
      k ≠ c ∧ s.visits[k]? = some w ∨ k = c ∧ w = { v with stage } := by
    intro k w hw
    rw [hvisits] at hw
    exact modify_cases hv hw
  refine hs.keep hlen (fun k w t hw ht => ?_) fun k w t hw ht hbusy => ?_
  · rcases hcases k w hw with ⟨-, hk⟩ | ⟨rfl, rfl⟩
    · exact ⟨w, hk, ht⟩
    · exact ⟨v, hv, ht⟩
  · rcases hcases k w hw with ⟨hkc, hk⟩ | ⟨rfl, rfl⟩
    · rcases hthread t with hth | ⟨hvt, -⟩
      · rw [hth]
        exact hs.idle k w t hk ht hbusy
      · exact absurd (hs.own k c w v t hk hv ht hvt) hkc
    · rcases hthread t with hth | ⟨-, hb⟩
      · rw [hth]
        exact hidle hbusy t ht
      · rw [hb] at hbusy
        cases hbusy

theorem length_threads_take (d : Debugger (Server.setup host logic)) (turn : Debugger.Turn) :
    (d.take turn).threads.length = d.threads.length := by
  rcases Debugger.take_cases d turn with h | ⟨t, d', -, hs, h⟩ | ⟨t, op, -, -, -, h⟩ |
    ⟨t, c, x, -, -, h⟩ <;> rw [h]
  · obtain ⟨a, rest, e, todo, ans, -, hact, rfl, -⟩ := Debugger.step_cases hs
    show (e.threads.set t _).length = _
    rw [List.length_set, Debugger.act_threads hact]
  · exact List.length_set
  · rfl

theorem serves_of_thread (hv : s.visits[c]? = some v) (ht : v.thread = some t) :
    s.serves t = true := by
  unfold serves
  rw [List.any_eq_true]
  exact ⟨v, List.mem_of_getElem? hv, by rw [ht]; exact beq_self_eq_true _⟩

/-- The thread of a visit that has nothing to do is given nothing by a turn. -/
theorem agenda_take_of_idle {turn : Debugger.Turn}
    (hcall : ∀ t op, turn = .call t op → s.serves t = false) (hv : s.visits[c]? = some v)
    (ht : v.thread = some t) (hid : (s.debugger.thread t).agenda = []) :
    ((s.debugger.take turn).thread t).agenda = [] := by
  by_cases hturn : turn = .step t
  · subst hturn
    have hnone : s.debugger.step t = none := by
      unfold Debugger.step
      rw [hid]
    show (((s.debugger.step t).getD s.debugger).thread t).agenda = []
    rw [hnone]
    exact hid
  · rcases Debugger.thread_take_ne s.debugger hturn with hth | ⟨op, rfl, -⟩
    · rw [hth]
      exact hid
    · have hserves := hcall t op rfl
      rw [serves_of_thread hv ht] at hserves
      cases hserves

theorem Staffed.spawn (hs : s.Staffed) (hv : s.visits[c]? = some v) :
    (s.spawnThread c).Staffed := by
  have hlen : (s.spawnThread c).debugger.threads.length = s.debugger.threads.length + 1 :=
    List.length_append
  have hthread : ∀ t, (s.spawnThread c).debugger.thread t = s.debugger.thread t :=
    s.debugger.thread_append
  have hnew : ∀ (k : ConnectionId) (w : Visit) (t : ThreadId),
      (s.spawnThread c).visits[k]? = some w → w.thread = some t →
      k ≠ c ∧ s.visits[k]? = some w ∨ k = c ∧ t = s.debugger.threads.length := by
    intro k w t hw ht
    rcases modify_cases hv hw with h | ⟨rfl, rfl⟩
    · exact .inl h
    · exact .inr ⟨rfl, (Option.some.inj ht).symm⟩
  refine ⟨fun k w t hw ht => ?_, fun k m w x t hw hx hwt hxt => ?_, fun k w t hw ht hbusy => ?_⟩
  · rw [hlen]
    rcases hnew k w t hw ht with ⟨-, hk⟩ | ⟨-, rfl⟩
    · exact Nat.lt_succ_of_lt (hs.hired k w t hk ht)
    · exact Nat.lt_succ_self _
  · rcases hnew k w t hw hwt with ⟨-, hk⟩ | ⟨hkc, hkt⟩ <;>
      rcases hnew m x t hx hxt with ⟨-, hm⟩ | ⟨hmc, hmt⟩
    · exact hs.own k m w x t hk hm hwt hxt
    · exact absurd (hmt ▸ hs.hired k w t hk hwt) (Nat.lt_irrefl _)
    · exact absurd (hkt ▸ hs.hired m x t hm hxt) (Nat.lt_irrefl _)
    · rw [hkc, hmc]
  · rw [hthread]
    rcases hnew k w t hw ht with ⟨-, hk⟩ | ⟨-, rfl⟩
    · exact hs.idle k w t hk ht hbusy
    · unfold Debugger.thread
      rw [List.getElem?_eq_none (Nat.le_refl _)]
      rfl

theorem Staffed.advance (hs : s.Staffed) (hv : s.visits[c]? = some v)
    (hthreads : s'.debugger.threads = s.debugger.threads)
    (hvisits : s'.visits = s.visits.modify c fun v => { v with stage })
    (hidle : ∀ t, v.thread = some t → (s.debugger.thread t).agenda = []) : s'.Staffed := by
  refine hs.proceed hv (Nat.le_of_eq (by rw [hthreads])) hvisits (fun _ => hidle) fun t => .inl ?_
  unfold Debugger.thread
  rw [hthreads]

theorem Staffed.task (hs : s.Staffed) (hv : s.visits[c]? = some v) (hvt : v.thread = some t)
    {op : Operation} {d : Debugger (Server.setup host logic)}
    (hd : s'.debugger = d.call t op) (hthreads : d.threads = s.debugger.threads)
    (hvisits : s'.visits = s.visits.modify c fun v => { v with stage })
    (hbusy : stage.isBusy = true) : s'.Staffed := by
  have hlen : s'.debugger.threads.length = s.debugger.threads.length := by
    rw [hd]
    exact List.length_set.trans (congrArg List.length hthreads)
  refine hs.proceed hv (Nat.le_of_eq hlen.symm) hvisits (fun h => ?_) fun u => ?_
  · rw [hbusy] at h
    cases h
  · by_cases hut : u = t
    · exact .inr ⟨hut ▸ hvt, hbusy⟩
    · refine .inl ?_
      rw [hd, Debugger.thread_call_ne hut]
      unfold Debugger.thread
      rw [hthreads]

theorem isIdle_iff : s.isIdle t = true ↔ (s.debugger.thread t).agenda = [] :=
  List.isEmpty_iff

theorem Staffed.moves (hs : s.Staffed) {st : Option Store} (hm : Moves s e st s') : s'.Staffed := by
  cases hm with
  | stay => exact hs
  | accept x hgate hfree =>
    have hold : ∀ (c : ConnectionId) (v : Visit) (t : ThreadId),
        (s.visits ++ [({} : Visit)])[c]? = some v → v.thread = some t → s.visits[c]? = some v := by
      intro c v t hv ht
      rcases concat_cases hv with hv | ⟨-, rfl⟩
      · exact hv
      · cases ht
    exact hs.keep (Nat.le_refl _) (fun c v t hv ht => ⟨v, hold c v t hv ht, ht⟩)
      fun c v t hv ht hbusy => hs.idle c v t (hold c v t hv ht) ht hbusy
  | spawn hv => exact hs.spawn hv
  | claim b hv | refuse b hv | listen b hv | fail hv | lose b slot hv | release b hv | shut b hv =>
    exact hs.advance hv rfl rfl fun t ht => hs.idle _ _ t hv ht rfl
  | answered b hv hidle | finish b hv hidle =>
    refine hs.advance hv rfl rfl fun t ht => ?_
    obtain rfl := Option.some.inj ht
    exact isIdle_iff.1 hidle
  | pass b text slot hv => exact hs.task hv rfl rfl rfl rfl rfl
  | quiet b hv => exact hs.task hv rfl rfl rfl rfl rfl
  | drop | closing | close =>
    exact hs.keep (Nat.le_refl _) (fun c v t hv ht => ⟨v, hv, ht⟩) hs.idle
  | turn turn hcall =>
    refine hs.keep (Nat.le_of_eq (length_threads_take s.debugger turn).symm)
      (fun c v t hv ht => ⟨v, hv, ht⟩) fun c v t hv ht hbusy => ?_
    exact agenda_take_of_idle hcall hv ht (hs.idle c v t hv ht hbusy)

/-- **Spare.** A thread that has nothing to do, or is the one of a visit between its tasks. -/
def Spare (s : Server host logic) (t : ThreadId) : Prop :=
  (s.debugger.thread t).agenda = [] ∨ ∃ (c : ConnectionId) (v : Visit), s.visits[c]? = some v ∧
    v.thread = some t ∧ v.stage.isBusy = false

theorem Staffed.agenda_of_spare (hs : s.Staffed) (h : s.Spare t) :
    (s.debugger.thread t).agenda = [] := by
  rcases h with hid | ⟨c, v, hv, ht, hbusy⟩
  · exact hid
  · exact hs.idle c v t hv ht hbusy

/-- A thread keeps its agenda, is given an operation when it is spare, or does a step. -/
theorem Moves.agenda {st : Option Store} (hm : Moves s e st s') (t : ThreadId) :
    (s'.debugger.thread t).agenda = (s.debugger.thread t).agenda ∨
      (∃ op, s.Spare t ∧ (s'.debugger.thread t).agenda = [.begin op] ∧
        ((∃ text, op = .message text) ∨ op = .resumeAll ∨ e = .turn (.call t op))) ∨
      e = .turn (.step t) ∧ s.debugger.step t = some s'.debugger := by
  have hcall : ∀ {d : Debugger (Server.setup host logic)} {c : ConnectionId} {u : ThreadId}
      {op : Operation} {stage : Stage}, s.visits[c]? = some ⟨stage, some u⟩ → stage.isBusy = false →
      s'.debugger = d.call u op → d.threads = s.debugger.threads →
      ((∃ text, op = .message text) ∨ op = .resumeAll) →
      (s'.debugger.thread t).agenda = (s.debugger.thread t).agenda ∨
        ∃ op, s.Spare t ∧ (s'.debugger.thread t).agenda = [.begin op] ∧
          ((∃ text, op = .message text) ∨ op = .resumeAll ∨ e = .turn (.call t op)) := by
    intro d c u op stage hv hbusy hd hthreads hop
    rw [hd]
    rcases d.agenda_call u t op with hth | ⟨rfl, hth⟩ <;> rw [hth]
    · refine .inl ?_
      unfold Debugger.thread
      rw [hthreads]
    · exact .inr ⟨op, .inr ⟨c, _, hv, rfl, hbusy⟩, rfl, hop.imp_right .inl⟩
  cases hm with
  | spawn hv => exact .inl (by rw [spawnThread, Debugger.thread_append])
  | pass b text slot hv => exact (hcall hv rfl rfl rfl (.inl ⟨text, rfl⟩)).imp_right .inl
  | quiet b hv => exact (hcall hv rfl rfl rfl (.inr rfl)).imp_right .inl
  | turn turn _ =>
    by_cases hturn : turn = .step t
    · subst hturn
      cases hs : s.debugger.step t with
      | none =>
        refine .inl ?_
        show (((s.debugger.step t).getD s.debugger).thread t).agenda = _
        rw [hs]
        rfl
      | some d' =>
        refine .inr (.inr ⟨rfl, ?_⟩)
        show some d' = some ((s.debugger.step t).getD s.debugger)
        rw [hs]
        rfl
    · rcases Debugger.thread_take_ne s.debugger hturn with hth | ⟨op, rfl, hid, hth⟩
      · exact .inl (by rw [hth])
      · exact .inr (.inl ⟨op, .inl hid, by rw [hth], .inr (.inr rfl)⟩)
  | _ => exact .inl rfl

end ScriptDebug.Server
