import ScriptDebug.Proofs.Arrivals
import ScriptDebug.Proofs.Visits

/-!
# What is left to read on a connection

`unread` are the bytes that the visit of a connection can still read. Receiving takes whole frames
off their front. Apart from the visit itself only the end of the server touches them (`unread_step`,
`unread_stop`): sending does not, and no visit touches the connection of another one
(`advance_only`).
-/

namespace ScriptDebug.Server

open Wire (Bytes arrived decode text?)

variable {host : Host} {logic : Logic} {s : Server host logic} {e : Event} {c k : ConnectionId}
  {v : Visit} {slot : Slot}

/-! ## Bytes that can be read -/

/-- The bytes of a connection that can still be read. -/
def Connection.unread (x : Connection) : Bytes := if x.shut then [] else arrived x.inlet

/-- **A text** is received if a whole frame that holds one is left; a frame that holds none is
passed over, and without a whole frame the connection is lost. -/
theorem Connection.receive_unread (x : Connection) :
    match decode x.unread with
    | .ok (m, used) => x.receive.2 = (text? m).elim (.error .notText) .ok ∧
        x.receive.1.unread = x.unread.drop used
    | .error _ => ∃ f, x.receive.2 = .error f ∧ f.isFatal = true := by
  cases hshut : x.shut with
  | true =>
    simp only [unread, receive, hshut, if_true]
    exact ⟨.closed, rfl, rfl⟩
  | false =>
    have hread := Wire.readText_arrived x.inlet
    simp only [unread, receive, hshut, Bool.false_eq_true, if_false]
    cases hdecode : decode (arrived x.inlet) with
    | error e =>
      rw [hdecode] at hread
      exact hread
    | ok found =>
      rw [hdecode] at hread
      obtain ⟨rest, htext, hrest⟩ := hread
      rw [htext]
      exact ⟨rfl, hrest⟩

namespace Slot

/-- The bytes that can still be read on a connection. -/
def unread (s : Slot) (c : ConnectionId) : Bytes :=
  ((s.connections[c]?).map Connection.unread).getD []

theorem unread_congr {slot' : Slot} (h : slot'.connections[c]? = slot.connections[c]?) :
    slot'.unread c = slot.unread c := by
  rw [unread, h, unread]

theorem unread_arrive (slot : Slot) (x : Connection) (c : ConnectionId) :
    (slot.arrive x).1.unread c =
      if c = slot.connections.length then x.unread else slot.unread c := by
  simp only [unread, arrive]
  split
  · rename_i hc
    simp [hc]
  · rename_i hc
    rcases Nat.lt_or_ge c slot.connections.length with hlt | hge
    · rw [List.getElem?_append_left hlt]
    · rw [List.getElem?_eq_none hge, List.getElem?_eq_none]
      rw [List.length_append, List.length_singleton]
      exact Nat.lt_of_le_of_ne hge (Ne.symm hc)

theorem unread_shut (slot : Slot) (k c : ConnectionId) :
    (slot.shut k).unread c = if c = k then [] else slot.unread c := by
  simp only [unread, shut, onConnection, List.getElem?_modify]
  by_cases hc : c = k
  · subst hc
    cases hx : slot.connections[c]? <;> simp [Connection.unread]
  · simp [hc, Ne.symm hc]

theorem unread_close (slot : Slot) (c : ConnectionId) :
    slot.close.unread c = if slot.holder = some c then [] else slot.unread c := by
  unfold close
  cases hholder : slot.holder with
  | none => simp
  | some k =>
    have hshut := unread_shut { slot with holder := none } k c
    simp only [Option.some.injEq, eq_comm (a := k)]
    exact hshut

/-- **Receiving** takes a frame off what can be read. -/
theorem receive_unread (slot : Slot) (c : ConnectionId) :
    match decode (slot.unread c) with
    | .ok (m, used) => (slot.receive c).2 = (text? m).elim (.error .notText) .ok ∧
        (slot.receive c).1.unread c = (slot.unread c).drop used
    | .error _ => ∃ f, (slot.receive c).2 = .error f ∧ f.isFatal = true := by
  cases hx : slot.connections[c]? with
  | none =>
    simp only [unread, receive, hx]
    exact ⟨.closed, rfl, rfl⟩
  | some x =>
    have hread := x.receive_unread
    have hlt := (List.getElem?_eq_some_iff.1 hx).1
    simp only [unread, receive, hx, Option.map_some, Option.getD_some]
    cases hdecode : decode x.unread with
    | error e =>
      rw [hdecode] at hread
      exact hread
    | ok found =>
      rw [hdecode] at hread
      obtain ⟨htext, hrest⟩ := hread
      exact ⟨htext, by simpa [hlt] using hrest⟩

theorem unread_send (slot : Slot) (text : String) (c : ConnectionId) :
    (slot.send text).1.unread c = slot.unread c := by
  have hsame : ∀ (x : Connection) (message : Bytes), (x.send message).1.unread = x.unread := by
    intro x message
    unfold Connection.send
    split
    · rfl
    · split <;> rfl
  unfold send
  split
  · rfl
  · rename_i k hholder
    split
    · rfl
    · rename_i x hx
      by_cases hc : k = c
      · subst hc
        obtain ⟨hlt, rfl⟩ := List.getElem?_eq_some_iff.1 hx
        simp [unread, hlt, hsame]
      · simp [unread, List.getElem?_set_ne hc]

end Slot

theorem unread_take (d : Debugger (Server.setup host logic)) (turn : Debugger.Turn)
    (c : ConnectionId) :
    Slot.unread (d.take turn).sink c = Slot.unread d.sink c := by
  rcases sink_take d turn with h | ⟨text, h⟩
  · exact congrArg (Slot.unread · c) h
  · exact (congrArg (Slot.unread · c) h).trans (Slot.unread_send d.sink text c)

/-! ## Who touches a connection -/

/-- **Only** this connection may be changed. -/
structure Slot.Only (k : ConnectionId) (slot slot' : Slot) : Prop where
  length : slot'.connections.length = slot.connections.length
  others : ∀ c, c ≠ k → slot'.connections[c]? = slot.connections[c]?

theorem Slot.only_of_eq {r : Slot} (h : r.connections = slot.connections) (k : ConnectionId) :
    Slot.Only k slot r :=
  ⟨by rw [h], fun c _ => by rw [h]⟩

theorem Slot.only_shut (slot : Slot) (k : ConnectionId) : Slot.Only k slot (slot.shut k) where
  length := List.length_modify _ _ _
  others c hc := by simp [shut, onConnection, Ne.symm hc]

theorem Slot.only_close (h : slot.holder = some k) : Slot.Only k slot slot.close := by
  have hshut := Slot.only_shut { slot with holder := none } k
  unfold Slot.close
  simp only [h]
  exact ⟨hshut.length, hshut.others⟩

theorem Slot.only_receive (slot : Slot) (k : ConnectionId) :
    Slot.Only k slot (slot.receive k).1 := by
  unfold Slot.receive
  split
  · exact ⟨List.length_set, fun c hc => List.getElem?_set_ne (Ne.symm hc)⟩
  · exact Slot.only_of_eq rfl k

/-- **A visit** leaves the connections of the others alone. -/
theorem advance_only (ht : s.Tidy) (k : ConnectionId) (b : Bool) :
    Slot.Only k s.slot (s.advance k b).slot := by
  have hsame : Slot.Only k s.slot s.slot := Slot.only_of_eq rfl k
  unfold advance
  split
  · exact hsame
  · rename_i v hv
    obtain ⟨stage, thread⟩ := v
    cases stage with
    | claim =>
      have hclaim : (s.slot.claim k).1.connections = s.slot.connections := by
        unfold Slot.claim
        split <;> rfl
      simp only
      split <;> rename_i slot hslot
      · exact Slot.only_of_eq (r := slot) (by rw [← hclaim, hslot]) k
      · exact Slot.only_shut s.slot k
    | spawn =>
      -- a visit at the gate has the slot, so it is its own connection that is shut down
      have hholder : s.slot.holder = some k :=
        (ht.kept k _ hv rfl).resolve_right fun h => nomatch h.2
      cases b with
      | true => exact hsame
      | false => exact Slot.only_close hholder
    | read =>
      cases thread with
      | none => exact hsame
      | some t =>
        have hreceive := Slot.only_receive s.slot k
        simp only [readNext]
        split
        · exact hreceive
        · split <;> exact hreceive
    | release =>
      refine Slot.only_of_eq (r := s.slot.release k) ?_ k
      unfold Slot.release
      split <;> rfl
    | shut => exact Slot.only_shut s.slot k
    | dispatch | sweep =>
      cases thread with
      | none => exact hsame
      | some t =>
        simp only
        split <;> exact hsame
    | quiet => cases thread <;> exact hsame
    | _ => exact hsame

/-- **Only its visit** and the end of the server touch what can be read on a connection. -/
theorem unread_step (ht : s.Tidy) (hc : c ≠ s.slot.connections.length) (he : ∀ b, e ≠ .advance c b)
    (hstop : e ≠ .stop) : (s.step e).slot.unread c = s.slot.unread c := by
  cases e with
  | accept x =>
    simp only [step, accept]
    split
    · exact (Slot.unread_arrive s.slot x c).trans (if_neg hc)
    · rfl
  | advance k b =>
    have hck : c ≠ k := fun h => he b (by rw [h])
    exact Slot.unread_congr ((advance_only ht k b).others c hck)
  | stop => exact absurd rfl hstop
  | turn turn =>
    simp only [step, takeTurn]
    split
    · split
      · rfl
      · exact unread_take s.debugger _ c
    · exact unread_take s.debugger _ c

/-- **The end of the server** shuts down the connection that holds the slot. -/
theorem unread_stop (s : Server host logic) (c : ConnectionId) :
    s.stop.slot.unread c =
    if s.gate = .closing ∧ s.holder = some c then [] else s.slot.unread c := by
  unfold stop
  cases hgate : s.gate with
  | opened =>
    simp only [reduceCtorEq, false_and, if_false]
    split <;> rfl
  | closing =>
    simp only [true_and]
    exact Slot.unread_close s.slot c
  | closed => simp

theorem gate_step (he : e ≠ .stop) : (s.step e).gate = s.gate := by
  have hm := step_moves s e
  generalize s.store? e = st at hm
  generalize s.step e = s' at hm ⊢
  cases hm with
  | closing | close => exact absurd rfl he
  | _ => rfl

theorem visit_step_ne (he : ∀ b, e ≠ .advance c b) (hv : s.visits[c]? = some v) :
    (s.step e).visits[c]? = some v := by
  have hm := step_moves s e
  generalize s.store? e = st at hm
  generalize s.step e = s' at hm ⊢
  have hother : ∀ {k : ConnectionId} {b : Bool} {f : Visit → Visit}, e = .advance k b →
      (s.visits.modify k f)[c]? = some v := by
    rintro k b f rfl
    rw [modify_ne fun h => he b (by rw [h])]
    exact hv
  cases hm with
  | accept x hgate hfree =>
    rw [List.getElem?_append_left (List.getElem?_eq_some_iff.1 hv).1]
    exact hv
  | stay | drop | closing | close | turn => exact hv
  | _ => exact hother rfl

/-! ## Connections and visits come together -/

theorem Slot.length_send (slot : Slot) (text : String) :
    (slot.send text).1.connections.length = slot.connections.length := by
  unfold Slot.send
  split
  · rfl
  · split
    · rfl
    · exact List.length_set

theorem length_connections_take (d : Debugger (Server.setup host logic)) (turn : Debugger.Turn) :
    (Slot.connections (d.take turn).sink).length = (Slot.connections d.sink).length := by
  rcases sink_take d turn with h | ⟨text, h⟩
  · exact congrArg (fun slot => (Slot.connections slot).length) h
  · exact (congrArg (fun slot => (Slot.connections slot).length) h).trans
      (Slot.length_send d.sink text)

/-- **Paired.** Every connection has its visit. -/
def Paired (s : Server host logic) : Prop := s.slot.connections.length = s.visits.length

theorem Paired.next (hp : s.Paired) (ht : s.Tidy) (e : Event) : (s.step e).Paired := by
  cases e with
  | accept x =>
    simp only [step, accept]
    split
    · show (s.slot.connections ++ [x]).length = (s.visits ++ [({} : Visit)]).length
      rw [List.length_append, List.length_append, hp]
      rfl
    · exact hp
  | advance k b =>
    have hvisits : (s.advance k b).visits.length = s.visits.length := by
      have hm := advance_moves s k b
      generalize s.store? (.advance k b) = st at hm
      generalize s.advance k b = s' at hm ⊢
      cases hm with
      | stay | drop => rfl
      | _ => exact List.length_modify _ _ _
    exact ((advance_only ht k b).length.trans hp).trans hvisits.symm
  | stop =>
    simp only [step, stop]
    split
    · split <;> exact hp
    · refine Eq.trans ?_ hp
      cases hholder : s.slot.holder with
      | none =>
        have hclose : s.slot.close = s.slot := by simp [Slot.close, hholder]
        exact congrArg (fun slot => slot.connections.length) hclose
      | some k => exact (Slot.only_close hholder).length
    · exact hp
  | turn turn =>
    simp only [step, takeTurn]
    split
    · split
      · exact hp
      · exact (length_connections_take s.debugger _).trans hp
    · exact (length_connections_take s.debugger _).trans hp

end ScriptDebug.Server
