import ScriptDebug.Proofs.Codec
import ScriptDebug.Wire.Writing

/-!
# What a message leaves on a stream

A stream may take a write in any pieces, be interrupted, and fail at any point of it. `Behind` says
what a message under way has put on the stream so far: with what is left of it that is its frame.
Every step of the sending keeps this (`Sending.Behind.advance`), so a message that has ended has
left its frame or, where it failed, a part from the front of it (`writeMessage_leaves`).
-/

namespace ScriptDebug.Wire

variable {o o' : Outlet} {s s' : Sending} {message bytes : Bytes} {r : Except Failure Unit}

/-! ## One write -/

/-- **One write** puts a part from the front of the bytes on the stream; none, unless it says so. -/
theorem Outlet.write_written (o : Outlet) (bytes : Bytes) :
    ∃ n, (o.write bytes).1.written = o.written ++ bytes.take n ∧
      ((o.write bytes).2 = .took n ∨ n = 0 ∧ ∀ k, (o.write bytes).2 ≠ .took k) := by
  have htake : ∀ (o : Outlet) (n : Nat), (o.take (bytes.take n)).written = o.written ++
      bytes.take n := by
    intro o n
    simp [Outlet.take, Outlet.written]
  have hlength : ∀ n, bytes.take (bytes.take n).length = bytes.take n := by
    intro n
    rw [List.length_take]
    rcases Nat.le_total n bytes.length with hle | hle
    · rw [Nat.min_eq_left hle]
    · rw [Nat.min_eq_right hle, List.take_length, List.take_of_length_le hle]
  -- whatever a stream takes of a write without a plan is a part of the front
  have hshare : ∃ n, o.share bytes = bytes.take n := by
    unfold Outlet.share
    split
    · exact ⟨bytes.length, List.take_length.symm⟩
    · exact ⟨_, rfl⟩
    · exact ⟨_, rfl⟩
    · exact ⟨_, rfl⟩
  unfold Outlet.write
  split
  · exact ⟨0, by simp [Outlet.written], .inr ⟨rfl, fun k => by simp⟩⟩
  · exact ⟨0, by simp [Outlet.written], .inr ⟨rfl, fun k => by simp⟩⟩
  · rename_i n rest hplan
    refine ⟨(bytes.take n).length, ?_, .inl rfl⟩
    rw [hlength]
    exact htake { o with planned := rest } n
  · split
    · exact ⟨0, by simp [Outlet.written], .inr ⟨rfl, fun k => by simp⟩⟩
    · obtain ⟨n, hn⟩ := hshare
      refine ⟨(bytes.take n).length, ?_, .inl (by rw [hn])⟩
      rw [hlength, hn]
      exact htake o n

/-! ## A message under way -/

/-- **Behind.** The bytes that a message under way has put on the stream: those of its frame that
are not left, and if it has failed, some from the front of it. -/
def Sending.Behind (message bytes : Bytes) : Sending → Prop
  | .parts ps => bytes ++ ps.flatten = frame message
  | .done r => bytes <+: frame message ∧ (r = .ok () → bytes = frame message)

theorem Sending.Behind.part (h : s.Behind message bytes) : bytes <+: frame message := by
  cases s with
  | parts ps => exact ⟨ps.flatten, h⟩
  | done r => exact h.1

theorem Sending.Behind.fail {ps : List Bytes} (h : (Sending.parts ps).Behind message bytes)
    (e : Failure) : (Sending.done (.error e)).Behind message bytes :=
  ⟨h.part, fun hok => nomatch hok⟩

/-- **A step of sending** puts some bytes on the stream,
and what is behind the message grows by them. -/
theorem Sending.Behind.advance (o : Outlet) (h : s.Behind message bytes) :
    ∃ piece, (Sending.advance o s).1.written = o.written ++ piece ∧
      (Sending.advance o s).2.Behind message (bytes ++ piece) := by
  match s, h with
  | .done r, h => exact ⟨[], by simp [Sending.advance], by simpa [Sending.advance] using h⟩
  | .parts [], h =>
    have hwhole : bytes = frame message := by simpa [Sending.Behind] using h
    refine ⟨[], ?_, ?_⟩
    · simp only [Sending.advance, List.append_nil]
      split <;> rename_i hf <;> exact (congrArg (·.1.written) hf).symm
    · simp only [Sending.advance, List.append_nil]
      split
      · exact ⟨hwhole ▸ List.prefix_rfl, fun _ => hwhole⟩
      · exact h.fail _
  | .parts ([] :: rest), h =>
    exact ⟨[], by simp [Sending.advance], by simpa [Sending.advance, Sending.Behind] using h⟩
  | .parts ((b :: bs) :: rest), h =>
    obtain ⟨n, hwritten, hn⟩ := o.write_written (b :: bs)
    refine ⟨(b :: bs).take n, ?_, ?_⟩
    · simp only [Sending.advance]
      split <;> rename_i hw <;> rw [← hwritten, hw]
    · -- what was taken moves from what is left to what is behind
      have hmove : bytes ++ (b :: bs).take n ++ ((b :: bs).drop n :: rest).flatten =
          frame message := by
        rw [List.flatten_cons, List.append_assoc, ← List.append_assoc (List.take n _),
          List.take_append_drop]
        exact h
      have hsame : n = 0 → bytes ++ (b :: bs).take n = bytes := by
        rintro rfl
        rw [List.take_zero, List.append_nil]
      simp only [Sending.advance]
      split
      · rename_i hw
        rw [hw] at hn
        have hzero : n = 0 := by
          rcases hn with h0 | ⟨h0, -⟩
          · exact (Written.took.inj h0).symm
          · exact h0
        rw [hsame hzero]
        exact h.fail _
      · rename_i k hk hw
        rw [hw] at hn
        rcases hn with hkn | ⟨-, hno⟩
        · obtain rfl := Written.took.inj hkn
          exact hmove
        · exact absurd rfl (hno k)
      · rename_i hw
        rw [hw] at hn
        rw [hsame (hn.resolve_left (by simp)).1]
        exact h
      · rename_i hw
        rw [hw] at hn
        rw [hsame (hn.resolve_left (by simp)).1]
        exact h.fail _

/-- **To the end.** The rest of a message under way puts some bytes on the stream, and what is
behind it then is what a message leaves that ends so. -/
theorem Sending.Behind.finish (o : Outlet) (h : s.Behind message bytes) :
    ∃ piece, (Sending.finish o s).1.written = o.written ++ piece ∧
      (Sending.done (Sending.finish o s).2).Behind message (bytes ++ piece) := by
  induction o, s using Sending.finish.induct generalizing bytes with
  | case1 =>
    rw [Sending.finish]
    exact ⟨[], by simp, by simpa using h⟩
  | case2 o ps ih =>
    obtain ⟨piece, hwritten, hbehind⟩ := h.advance o
    obtain ⟨more, hmore, hend⟩ := ih hbehind
    rw [Sending.finish]
    refine ⟨piece ++ more, ?_, ?_⟩
    · rw [hmore, hwritten, List.append_assoc]
    · rw [← List.append_assoc]
      exact hend

/-! ## A message that has ended -/

/-- **Leaves.** What a message that has ended in this way has put on the stream. -/
structure Leaves (message : Bytes) (r : Except Failure Unit) (bytes : Bytes) : Prop where
  part : bytes <+: frame message
  whole : r = .ok () → bytes = frame message
  /-- A message that does not fit is refused before its first byte. -/
  refused : 0x100000000 ≤ message.length → r = .error (.tooLarge message.length) ∧ bytes = []

theorem leaves_refused (message : Bytes) :
    Leaves message (.error (.tooLarge message.length)) [] where
  part := List.nil_prefix
  whole hok := nomatch hok
  refused _ := ⟨rfl, rfl⟩

theorem Leaves.fits (h : Leaves message r bytes) (hok : r = .ok ()) :
    message.length < 0x100000000 := by
  refine Nat.lt_of_not_le fun hlong => ?_
  have hrefused := (h.refused hlong).1
  rw [hok] at hrefused
  cases hrefused

theorem Sending.Behind.leaves (hfits : message.length < 0x100000000)
    (h : (Sending.done r).Behind message bytes) : Leaves message r bytes where
  part := h.1
  whole := h.2
  refused hlong := absurd hfits (Nat.not_lt.2 hlong)

theorem start_of_fits (h : message.length < 0x100000000) :
    Sending.start message = .parts [lengthBytes message.length, message] := by
  simp [Sending.start, encodeLength, h]

theorem start_of_long (h : 0x100000000 ≤ message.length) :
    Sending.start message = .done (.error (.tooLarge message.length)) := by
  simp [Sending.start, encodeLength, Nat.not_lt.2 h]

theorem behind_start (message : Bytes) :
    (Sending.parts [lengthBytes message.length, message]).Behind message [] := by
  simp [Sending.Behind, frame]

/-- **A message** is written as its frame, or fails behind a part of it. -/
theorem writeMessage_leaves (o : Outlet) (message : Bytes) :
    ∃ piece, (writeMessage o message).1.written = o.written ++ piece ∧
      Leaves message (writeMessage o message).2 piece := by
  unfold writeMessage
  rcases Nat.lt_or_ge message.length 0x100000000 with hfits | hlong
  · rw [start_of_fits hfits]
    obtain ⟨piece, hwritten, hend⟩ := (behind_start message).finish o
    exact ⟨piece, hwritten, hend.leaves hfits⟩
  · rw [start_of_long hlong, Sending.finish]
    exact ⟨[], by simp, leaves_refused message⟩

/-! ## Willing streams -/

/-- **Willing.** A stream that takes something of every write it is not interrupted at,
and never fails. -/
structure Outlet.Willing (o : Outlet) : Prop where
  planned : ∀ a ∈ o.planned, a = .interrupted ∨ ∃ n, a = .upTo (n + 1)
  most : o.most ≠ some 0
  room : o.room = none
  flushError : o.flushError = none

/-- Whether a message under way has not failed. -/
def Sending.Unfailed : Sending → Prop
  | .parts _ => True
  | .done r => r = .ok ()

theorem Outlet.Willing.tail {a : Acceptance} {rest : List Acceptance} (hw : o.Willing)
    (h : o.planned = a :: rest) (bytes : Bytes) :
    ({ o with planned := rest }).Willing ∧
    (Outlet.take { o with planned := rest } bytes).Willing := by
  have hrest : ∀ a ∈ rest, a = .interrupted ∨ ∃ n, a = .upTo (n + 1) := by
    intro a ha
    exact hw.planned a (h ▸ List.mem_cons_of_mem _ ha)
  refine ⟨⟨hrest, hw.most, hw.room, hw.flushError⟩, ⟨hrest, hw.most, ?_, hw.flushError⟩⟩
  simp [Outlet.take, hw.room]

/-- A willing stream stays so over a write, and takes something if it is not interrupted. -/
theorem Outlet.Willing.write (hw : o.Willing) (b : UInt8) (bs : Bytes) :
    (o.write (b :: bs)).1.Willing ∧
      ((o.write (b :: bs)).2 = .interrupted ∨ ∃ n, (o.write (b :: bs)).2 = .took (n + 1)) := by
  unfold Outlet.write
  split
  · rename_i h
    exact ⟨(hw.tail h []).1, .inl rfl⟩
  · rename_i message rest h
    rcases hw.planned _ (h ▸ List.mem_cons_self) with hi | ⟨n, hn⟩
    · cases hi
    · cases hn
  · rename_i k rest h
    rcases hw.planned _ (h ▸ List.mem_cons_self) with hi | ⟨n, hn⟩
    · cases hi
    · obtain rfl := Acceptance.upTo.inj hn
      refine ⟨(hw.tail h _).2, .inr ⟨(bs.take n).length, ?_⟩⟩
      simp
  · rename_i h
    have hshare : ∃ n, o.share (b :: bs) = (b :: bs).take (n + 1) := by
      unfold Outlet.share
      rw [hw.room]
      cases hm : o.most with
      | none => exact ⟨bs.length, by simp⟩
      | some m =>
        cases m with
        | zero => exact absurd hm hw.most
        | succ m => exact ⟨m, rfl⟩
    obtain ⟨n, hn⟩ := hshare
    simp only [hw.room]
    refine ⟨⟨by simpa [Outlet.take] using hw.planned, hw.most, by simp [Outlet.take, hw.room],
      hw.flushError⟩, .inr ⟨(bs.take n).length, ?_⟩⟩
    rw [hn]
    simp

/-- **A willing stream** fails no message. -/
theorem Outlet.Willing.advance (hw : o.Willing) (hs : s.Unfailed) :
    (Sending.advance o s).1.Willing ∧ (Sending.advance o s).2.Unfailed := by
  match s, hs with
  | .done r, hs => exact ⟨hw, hs⟩
  | .parts [], _ =>
    have hflush : o.flush = ({ o with flushes := o.flushes + 1 }, none) := by
      rw [Outlet.flush, hw.flushError]
    simp only [Sending.advance, hflush]
    exact ⟨⟨hw.planned, hw.most, hw.room, hw.flushError⟩, rfl⟩
  | .parts ([] :: rest), _ => exact ⟨hw, trivial⟩
  | .parts ((b :: bs) :: rest), _ =>
    obtain ⟨hwilling, htook⟩ := hw.write b bs
    simp only [Sending.advance]
    split <;> rename_i hr <;> rw [hr] at hwilling htook
    · rcases htook with h | ⟨n, h⟩ <;> cases h
    · exact ⟨hwilling, trivial⟩
    · exact ⟨hwilling, trivial⟩
    · rcases htook with h | ⟨n, h⟩ <;> cases h

end ScriptDebug.Wire
