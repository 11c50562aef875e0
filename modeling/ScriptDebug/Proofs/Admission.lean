import Mathlib.Data.List.Induction
import ScriptDebug.Proofs.Texts

/-!
# One client at a time

At most one visit serves its client at any time, and its connection is the one that holds the slot
until the server closes it at its end.

1. A visit goes from stage to stage in a fixed order (`Stage.next`, `Moves.visit`), and comes to
   serve its client only from the gate.
2. Up to the end of the server the one that holds the slot is the only visit that serves; from then
   on no visit begins to (`Sole.moves`).
3. A connection that never held the slot is touched by nobody but its own visit (`connection_step`).
   So one that is refused stays as it came, but for being shut down (`Outside.next`,
   `Outside.refused`, `Outside.over`).
-/

namespace ScriptDebug.Server

variable {host : Host} {logic : Logic} {s s' : Server host logic} {e : Event} {c k : ConnectionId}
  {v w : Visit} {st : Option Store} {x : Connection}

/-! ## Stages -/

/-- The stages that a visit may come to next. -/
def Stage.next : Stage → List Stage
  | .claim => [.listen, .over]
  | .listen => [.spawn]
  | .spawn => [.read, .over]
  | .read => [.dispatch, .release]
  | .dispatch => [.read]
  | .release => [.shut]
  | .shut => [.quiet]
  | .quiet => [.sweep]
  | .sweep => [.over]
  | .over => []

/-- **Serving.** Whether the thread of a visit is in its loop: it reads,
or a message of its client is under way. -/
def Stage.isServing : Stage → Bool
  | .read | .dispatch => true
  | _ => false

theorem Stage.holds_of_isServing {stage : Stage} (h : stage.isServing = true) :
    stage.holds = true := by
  cases stage <;> simp [isServing] at h <;> rfl

/-- A visit comes to serve from the gate, if it did not serve before. -/
theorem Stage.isServing_of_next {stage after : Stage} (hnext : after ∈ stage.next)
    (h : after.isServing = true) : stage.isServing = true ∨ stage = .spawn := by
  cases stage <;> simp only [next, List.mem_cons, List.not_mem_nil, or_false] at hnext
  case spawn => exact .inr rfl
  case read | dispatch => exact .inl rfl
  all_goals
    rcases hnext with rfl | rfl
    all_goals cases h

theorem Stage.claim_not_mem_next (stage : Stage) : Stage.claim ∉ stage.next := by
  cases stage <;> simp [next]

/-- **The way of a visit.** It stays where it is, is a new one,
or goes on to a next stage with a step of its own. -/
theorem Moves.visit (hm : Moves s e st s') (hv : s'.visits[c]? = some v) :
    s.visits[c]? = some v ∨ (c = s.visits.length ∧ v = {}) ∨
      ∃ (w : Visit) (b : Bool), s.visits[c]? = some w ∧ e = .advance c b ∧
        v.stage ∈ w.stage.next := by
  have hgo : ∀ {k : ConnectionId} {b : Bool} {w : Visit} {f : Visit → Visit},
      s.visits[k]? = some w → s'.visits = s.visits.modify k f → e = .advance k b →
      (f w).stage ∈ w.stage.next → s.visits[c]? = some v ∨ (c = s.visits.length ∧ v = {}) ∨
        ∃ (w : Visit) (b : Bool), s.visits[c]? = some w ∧ e = .advance c b ∧
          v.stage ∈ w.stage.next := by
    intro k b w f hk hvisits he hnext
    rw [hvisits] at hv
    rcases modify_cases hk hv with ⟨-, h⟩ | ⟨rfl, rfl⟩
    · exact .inl h
    · exact .inr (.inr ⟨w, b, hk, he, hnext⟩)
  cases hm with
  | stay | drop | closing | close | turn => exact .inl hv
  | accept y hgate hfree =>
    have hv : (s.visits ++ [({} : Visit)])[c]? = some v := hv
    exact (concat_cases hv).imp_right .inl
  | claim b hk | refuse b hk | listen b hk | lose b slot hk | answered b hk | release b hk
  | shut b hk | quiet b hk | finish b hk => exact hgo hk rfl rfl (by simp [Stage.next])
  | pass b text slot hk => exact hgo hk rfl rfl (by simp [Stage.next])
  | spawn hk | fail hk => exact hgo hk rfl rfl (by simp [Stage.next])

/-! ## The one that serves -/

/-- **Sole.** At most one visit serves its client. -/
def Sole (s : Server host logic) : Prop :=
  ∀ (c k : ConnectionId) (v w : Visit), s.visits[c]? = some v → s.visits[k]? = some w →
    v.stage.isServing = true → w.stage.isServing = true → c = k

theorem Tidy.holder_of_isServing (ht : s.Tidy) (hv : s.visits[c]? = some v)
    (h : v.stage.isServing = true) (hgate : s.gate ≠ .closed) : s.holder = some c :=
  (ht.kept c v hv (Stage.holds_of_isServing h)).resolve_right fun hcl => hgate hcl.1

theorem Tidy.sole (ht : s.Tidy) (hgate : s.gate ≠ .closed) : s.Sole := by
  intro c k v w hv hw hvs hws
  have hc := ht.holder_of_isServing hv hvs hgate
  have hk := ht.holder_of_isServing hw hws hgate
  exact Option.some.inj (hc.symm.trans hk)

theorem Moves.length_visits (hm : Moves s e st s') : s.visits.length ≤ s'.visits.length := by
  cases hm with
  | stay | drop | closing | close | turn => exact Nat.le_refl _
  | accept =>
    show s.visits.length ≤ (s.visits ++ [({} : Visit)]).length
    rw [List.length_append]
    exact Nat.le_add_right _ _
  | _ => exact Nat.le_of_eq (List.length_modify _ _ _).symm

theorem length_visits_run (s : Server host logic) (es : List Event) :
    s.visits.length ≤ (s.run es).visits.length :=
  run_invariant (P := fun _ s' => s.visits.length ≤ s'.visits.length) (Nat.le_refl _)
    fun pre e _ _ h => Nat.le_trans h (step_moves (s.run pre) e).length_visits

theorem Tidy.run (ht : s.Tidy) (es : List Event) : (s.run es).Tidy :=
  run_invariant (P := fun _ s' => s'.Tidy) ht fun pre e _ _ ht =>
    ht.moves (step_moves (s.run pre) e)

theorem Sole.moves (hs : s.Sole) (ht : s.Tidy) (hm : Moves s e st s') : s'.Sole := by
  by_cases hopen : s'.gate = .closed
  · -- nobody is at the gate any more, so who serves now has served before
    have hbefore : ∀ (c : ConnectionId) (v : Visit), s'.visits[c]? = some v →
        v.stage.isServing = true → ∃ w : Visit, s.visits[c]? = some w ∧
        w.stage.isServing = true := by
      intro c v hv hvs
      rcases hm.visit hv with h | ⟨-, rfl⟩ | ⟨w, b, hw, rfl, hnext⟩
      · exact ⟨v, h, hvs⟩
      · cases hvs
      · refine ⟨w, hw, (Stage.isServing_of_next hnext hvs).resolve_right fun hspawn => ?_⟩
        have hgate : s.gate = .opened := ht.opened c w hw (by rw [hspawn]; rfl)
        have hsame : s'.gate = s.gate := by cases hm <;> rfl
        rw [hsame, hgate] at hopen
        cases hopen
    intro c k v w hv hw hvs hws
    obtain ⟨v', hv', hvs'⟩ := hbefore c v hv hvs
    obtain ⟨w', hw', hws'⟩ := hbefore k w hw hws
    exact hs c k v' w' hv' hw' hvs' hws'
  · exact (ht.moves hm).sole hopen

theorem Vacant.sole (h : s.Vacant) (es : List Event) : (s.run es).Sole := by
  have h0 : s.Tidy ∧ s.Sole := by
    refine ⟨(h.run []).1, fun c k v w hv => ?_⟩
    rw [h.visits] at hv
    cases hv
  refine (run_invariant (P := fun _ s' => s'.Tidy ∧ s'.Sole) h0 fun pre e _ _ ⟨ht, hs⟩ => ?_).2
  have hm := step_moves (s.run pre) e
  exact ⟨ht.moves hm, hs.moves ht hm⟩

/-- **The slot is lost** by a step of the visit that has it, or at the end of the server. -/
theorem Tidy.loses (ht : s.Tidy) (hm : Moves s e st s') (hc : s.holder = some c)
    (hlost : s'.holder ≠ some c) :
    (∃ b, e = .advance c b) ∨ e = .stop ∧ s.gate = .closing := by
  have hsame : s'.holder = s.holder → (∃ b, e = .advance c b) ∨ e = .stop ∧ s.gate = .closing :=
    fun h => absurd (h.trans hc) hlost
  cases hm with
  | claim b hv hfree =>
    rw [hfree] at hc
    cases hc
  | @fail k o hv =>
    have hk := (ht.kept k _ hv rfl).resolve_right fun h => nomatch h.2
    obtain rfl := Option.some.inj (hk.symm.trans hc)
    exact .inl ⟨false, rfl⟩
  | pass b text slot hv hslot => exact hsame hslot
  | drop b slot hv hslot => exact hsame hslot
  | lose b slot hv hslot => exact hsame hslot
  | @release k o b hv =>
    rcases holder_release s.slot k with ⟨hk, -⟩ | ⟨-, h⟩
    · obtain rfl := Option.some.inj (hk.symm.trans hc)
      exact .inl ⟨b, rfl⟩
    · exact hsame h
  | close hgate => exact .inr ⟨rfl, hgate⟩
  | turn turn _ => exact hsame (holder_take s.debugger turn)
  | _ => exact hsame rfl

/-! ## Connections that do not hold the slot -/

theorem Slot.getElem?_send {slot : Slot} (h : slot.holder ≠ some c) (text : String) :
    (slot.send text).1.connections[c]? = slot.connections[c]? := by
  unfold send
  split
  · rfl
  · rename_i k hk
    split
    · rfl
    · have hkc : k ≠ c := by
        rintro rfl
        exact h hk
      exact List.getElem?_set_ne hkc

/-- **Nobody else** touches a connection that does not hold the slot. -/
theorem connection_step (ht : s.Tidy) (hc : c < s.slot.connections.length)
    (hfree : s.holder ≠ some c) (he : ∀ b, e ≠ .advance c b) :
    (s.step e).slot.connections[c]? = s.slot.connections[c]? := by
  have hturn : ∀ turn, (Slot.connections (s.debugger.take turn).sink)[c]? =
      s.slot.connections[c]? := by
    intro turn
    rcases sink_take s.debugger turn with h | ⟨text, h⟩
    · exact congrArg (fun slot => (Slot.connections slot)[c]?) h
    · exact (congrArg (fun slot => (Slot.connections slot)[c]?) h).trans
        (Slot.getElem?_send hfree text)
  cases e with
  | accept y =>
    simp only [step, accept]
    split
    · exact List.getElem?_append_left hc
    · rfl
  | advance k b => exact (advance_only ht k b).others c fun h => he b (by rw [h])
  | stop =>
    simp only [step, stop]
    split
    · split <;> rfl
    · show s.slot.close.connections[c]? = _
      cases hholder : s.slot.holder with
      | none => simp [Slot.close, hholder]
      | some k =>
        refine (Slot.only_close hholder).others c ?_
        rintro rfl
        exact hfree hholder
    · rfl
  | turn turn =>
    simp only [step, takeTurn]
    split
    · split
      · rfl
      · exact hturn _
    · exact hturn _

/-! ## Refused connections -/

/-- **Refusal.** The next step of a visit finds the slot taken. -/
def Refuses (s : Server host logic) (c : ConnectionId) : Prop :=
  (∃ o, s.visits[c]? = some ⟨.claim, o⟩) ∧ s.holder ≠ none

/-- **Unaffected** but for one connection: who holds the slot, the other connections and visits, and
all of the debugger but its sink, which the connections are in. So hook events are looked at or not
as before, and the contexts and what the threads do are as they were. -/
structure Unaffected (s s' : Server host logic) (c : ConnectionId) : Prop where
  holder : s'.holder = s.holder
  connections : ∀ k, k ≠ c → s'.slot.connections[k]? = s.slot.connections[k]?
  visits : ∀ k, k ≠ c → s'.visits[k]? = s.visits[k]?
  debugger : s'.debugger = { s.debugger with sink := s'.debugger.sink }

/-- **Outside.** A visit that has not got in, or not yet: its connection is as it came, and shut
down if it is refused. -/
structure Outside (s : Server host logic) (c : ConnectionId) (x : Connection)
    (stage : Stage) : Prop where
  visit : s.visits[c]? = some ⟨stage, none⟩
  free : stage.holds = false
  connection : s.slot.connections[c]? = some { x with shut := x.shut || decide (stage = .over) }

variable {stage : Stage}

theorem Outside.not_holder (ho : s.Outside c x stage) (ht : s.Tidy) : s.holder ≠ some c := by
  intro hc
  obtain ⟨v, hv, hholds⟩ := ht.owner c hc
  obtain rfl := Option.some.inj (ho.visit.symm.trans hv)
  rw [ho.free] at hholds
  cases hholds

theorem Outside.next (ho : s.Outside c x stage) (ht : s.Tidy) (he : ∀ b, e ≠ .advance c b) :
    (s.step e).Outside c x stage where
  visit := visit_step_ne he ho.visit
  free := ho.free
  connection :=
    (connection_step ht (List.getElem?_eq_some_iff.1 ho.connection).1 (ho.not_holder ht) he).trans
    ho.connection

theorem getElem?_concat_ne {α : Type} {l : List α} {a : α} {k : Nat} (hk : k ≠ l.length) :
    (l ++ [a])[k]? = l[k]? := by
  rcases Nat.lt_or_gt_of_ne hk with hlt | hgt
  · exact List.getElem?_append_left hlt
  · have hlong : (l ++ [a]).length ≤ k := by
      rw [List.length_append]
      exact hgt
    rw [List.getElem?_eq_none hlong, List.getElem?_eq_none (Nat.le_of_lt hgt)]

/-- A connection comes in, and touches nothing that is there. -/
theorem Outside.start (hp : s.Paired) (hgate : s.gate = .opened) (hfree : s.isAdmitting = false) :
    (s.step (.accept x)).Outside s.visits.length x .claim ∧
    s.Unaffected (s.step (.accept x)) s.visits.length := by
  have hstep : s.step (.accept x) =
      { (s.onSlot fun slot => (slot.arrive x).1) with visits := s.visits ++ [{}] } := by
    simp [step, accept, hgate, hfree]
  rw [hstep]
  have hlen : s.slot.connections.length = s.visits.length := hp
  refine ⟨⟨List.getElem?_concat_length, rfl, ?_⟩,
    ⟨rfl, fun k hk => getElem?_concat_ne (hlen ▸ hk), fun k hk => getElem?_concat_ne hk, rfl⟩⟩
  show (s.slot.connections ++ [x])[s.visits.length]? = _
  rw [← hlen, List.getElem?_concat_length]
  simp

theorem passed_append (s : Server host logic) (c : ConnectionId) (l r : List Event) :
    s.passed c (l ++ r) = s.passed c l ++ (s.run l).passed c r := by
  induction l generalizing s with
  | nil => rfl
  | cons e l ih => simp [passed, ih]

theorem passed_concat (s : Server host logic) (c : ConnectionId) (es : List Event) (e : Event) :
    s.passed c (es ++ [e]) = s.passed c es ++ (s.run es).passes c e := by
  simp [passed_append, passed]

theorem advance_over {o : Option ThreadId} (hv : s.visits[c]? = some ⟨.over, o⟩) (b : Bool) :
    s.step (.advance c b) = s := by
  simp only [step, advance, hv]

theorem advance_claim {o : Option ThreadId} (hv : s.visits[c]? = some ⟨.claim, o⟩) (b : Bool) :
    ∃ w : Visit, (s.step (.advance c b)).visits[c]? = some w ∧ w.stage ≠ .claim := by
  have hgo : ∀ {s' : Server host logic} {stage : Stage}, stage ≠ .claim →
      s'.visits = (s.goTo c stage).visits →
      ∃ w : Visit, s'.visits[c]? = some w ∧ w.stage ≠ .claim := by
    intro s' stage hstage hvisits
    exact ⟨{ stage, thread := o }, (congrArg (·[c]?) hvisits).trans (modify_self hv), hstage⟩
  simp only [step, advance, hv]
  split
  · exact hgo (by simp) rfl
  · exact hgo (by simp) rfl

/-- **Before the refusal.** A visit that still claims the slot has done nothing yet. -/
theorem Outside.claiming (ho : s.Outside c x .claim) (ht : s.Tidy) (es : List Event)
    {o : Option ThreadId} (hv : (s.run es).visits[c]? = some ⟨.claim, o⟩) :
    (s.run es).Outside c x .claim ∧ s.passed c es = [] := by
  induction es using List.reverseRecOn generalizing o with
  | nil => exact ⟨ho, rfl⟩
  | append_singleton pre e ih =>
    rw [run_concat] at hv ⊢
    rcases (step_moves (s.run pre) e).visit hv with hbefore | ⟨hnew, -⟩ | ⟨w, b, -, -, hnext⟩
    · obtain ⟨ho, hnone⟩ := ih hbefore
      have he : ∀ b, e ≠ .advance c b := by
        rintro b rfl
        obtain ⟨w, hw, hclaim⟩ := advance_claim hbefore b
        obtain rfl := Option.some.inj (hv.symm.trans hw)
        exact hclaim rfl
      refine ⟨ho.next (ht.run pre) he, ?_⟩
      rw [passed_concat, hnone, passes_of_ne_read hbefore (by simp), List.nil_append]
    · have hlt := (List.getElem?_eq_some_iff.1 ho.visit).1
      exact absurd hnew (Nat.ne_of_lt (Nat.lt_of_lt_of_le hlt (length_visits_run s pre)))
    · exact absurd hnext (Stage.claim_not_mem_next _)

theorem Outside.over (ho : s.Outside c x .over) (ht : s.Tidy) (es : List Event) :
    (s.run es).Outside c x .over ∧ s.passed c es = [] := by
  refine run_invariant (P := fun es s' => s'.Outside c x .over ∧ s.passed c es = []) ⟨ho, rfl⟩
    fun pre e _ _ ⟨ho, hnone⟩ => ⟨?_, ?_⟩
  · by_cases he : ∃ b, e = .advance c b
    · obtain ⟨b, rfl⟩ := he
      rw [advance_over ho.visit]
      exact ho
    · exact ho.next (ht.run pre) fun b h => he ⟨b, h⟩
  · rw [passed_concat, hnone, passes_of_ne_read ho.visit (by simp), List.nil_append]

/-- **The refusal** shuts the connection down and does nothing else. -/
theorem Outside.refused (ho : s.Outside c x .claim) (htaken : s.holder ≠ none) (b : Bool) :
    (s.step (.advance c b)).Outside c x .over ∧ s.Unaffected (s.step (.advance c b)) c := by
  have hsome : s.slot.holder.isSome = true := Option.isSome_iff_ne_none.2 htaken
  have hclaim : s.slot.claim c = (s.slot, false) := by simp [Slot.claim, hsome]
  have hstep : s.step (.advance c b) = (s.onSlot fun slot => slot.shut c).goTo c .over := by
    simp only [step, advance, ho.visit, hclaim]
  rw [hstep]
  refine ⟨⟨modify_self ho.visit, rfl, ?_⟩,
    ⟨rfl, (Slot.only_shut s.slot c).others, fun k hk => modify_ne hk, rfl⟩⟩
  show (s.slot.connections.modify c fun x => { x with shut := true })[c]? = _
  rw [List.getElem?_modify, ho.connection]
  simp

/-- **One client at a time.** In any run, (1) at most one visit serves its client, and (2) up to the
end of the server that one has the slot. (3) The slot is lost by a step of the visit that has it, or
at the end of the server, so nobody is put out by another one's leaving. (4) A connection that finds
the slot taken changes nothing but that it is there and shut down: nothing is read of it or passed
on, and nothing is written to it. -/
theorem one_client_at_a_time (h : s.Vacant) (es : List Event) :
    (s.run es).Sole ∧
    (∀ (c : ConnectionId) (v : Visit), (s.run es).visits[c]? = some v → v.stage.isServing = true →
      (s.run es).gate ≠ .closed → (s.run es).holder = some c) ∧
    (∀ c e, (s.run es).holder = some c → ((s.run es).step e).holder ≠ some c →
      (∃ b, e = .advance c b) ∨ e = .stop ∧ (s.run es).gate = .closing) ∧
    ∀ (x : Connection) (mid : List Event) (b : Bool), (s.run es).gate = .opened →
      (s.run es).isAdmitting = false →
      let c := (s.run es).visits.length
      let s₁ := (s.run es).step (.accept x)
      let s₂ := s₁.run mid
      s₂.Refuses c →
        (s.run es).Unaffected s₁ c ∧ s₂.Unaffected (s₂.step (.advance c b)) c ∧
        ∀ post,
          let s₃ := (s₂.step (.advance c b)).run post
          s₃.slot.connections[c]? = some { x with shut := true } ∧
          s₁.passed c (mid ++ .advance c b :: post) = [] ∧
          ∀ b', s₃.step (.advance c b') = s₃ := by
  obtain ⟨ht, -, hp⟩ := h.run es
  refine ⟨h.sole es, fun c v hv hvs hgate => ht.holder_of_isServing hv hvs hgate,
    fun c e hc hlost => ht.loses (step_moves _ e) hc hlost, ?_⟩
  intro x mid b hgate hfree c s₁ s₂ ⟨⟨o, hv⟩, htaken⟩
  obtain ⟨hstart, haccept⟩ := Outside.start (x := x) hp hgate hfree
  have ht₁ : s₁.Tidy := ht.moves (step_moves _ _)
  obtain ⟨hout, hmid⟩ := hstart.claiming ht₁ mid hv
  obtain ⟨hover, hrefuse⟩ := hout.refused htaken b
  refine ⟨haccept, hrefuse, fun post => ?_⟩
  obtain ⟨hend, hpost⟩ := hover.over ((ht₁.run mid).moves (step_moves _ _)) post
  refine ⟨?_, ?_, fun b' => advance_over hend.visit b'⟩
  · simpa using hend.connection
  · rw [passed_append, hmid, passed, passes_of_ne_read hv (by simp), hpost]
    rfl

end ScriptDebug.Server

namespace ScriptDebug.Rehearsal

open Server (Connection Event)

/-- A client is let in, and its thread is made. -/
def firstClient : List Event :=
  [.accept {}, .advance 0 true, .advance 0 true, .advance 0 true]

/-- A client with a message that comes second. -/
def latecomer : Connection where
  inlet := [.data [2, 0, 0, 0, 123, 125] 6]

/-- The second client is refused, and while the first one goes on nothing of its message is read. -/
theorem latecomer_refused :
    (idleServer.run firstClient).holder = some 0 ∧
    let s :=
  ((idleServer.run firstClient).step (.accept latecomer)).run [.advance 0 true, .advance 1 true]
    s.slot.connections[1]? = some { latecomer with shut := true } := by
  have hrefuses :
      (((idleServer.run firstClient).step (.accept latecomer)).run [.advance 0 true]).Refuses 1 :=
    ⟨⟨none, by decide +kernel⟩, by decide +kernel⟩
  obtain ⟨-, hholder, -, hrefused⟩ := Server.one_client_at_a_time idleServer_vacant firstClient
  obtain ⟨-, -, hafter⟩ :=
    hrefused latecomer [.advance 0 true] true (by decide +kernel) (by decide +kernel) hrefuses
  exact ⟨hholder 0 ⟨.read, some 0⟩ (by decide +kernel) rfl (by decide +kernel), (hafter []).1⟩

end ScriptDebug.Rehearsal
