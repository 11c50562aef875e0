import ScriptDebug.Proofs.Framing

/-!
# Frames one after the other

Frames lie side by side on a stream, and taking them apart gives back the messages they were made
of.

1. Four bytes and the length they stand for determine each other (`lengthOf_lengthBytes`,
   `lengthBytes_lengthOf`), so what is decoded to a message is its frame (`eq_frame_of_decode`).
2. Decoding looks no further than the frame (`decode_frame_append`), so the frames of several
   messages are taken off one by one, whatever lies behind them (`decodeMany_frames`,
   `wholeFrames_frames`).
3. A frame that is cut off is short, and nothing else (`decode_of_cut`).
-/

namespace ScriptDebug.Wire

variable {message : Bytes} {messages : List Bytes} {bytes part f : Bytes} {used : Nat}
  {ds : List Delivery}

/-! ## One frame -/

/-- **Frame** of a message whose length fits four bytes. -/
def frame (message : Bytes) : Bytes := lengthBytes message.length ++ message

@[simp] theorem length_frame (message : Bytes) : (frame message).length = 4 + message.length := by
  simp [frame]

theorem encode_eq_ok :
    encode message = .ok f ↔ message.length < 0x100000000 ∧ f = frame message := by
  unfold encode encodeLength
  by_cases h : message.length < 0x100000000
  · simp [h, bind, Except.bind, pure, Except.pure, frame, eq_comm]
  · simp [h, bind, Except.bind]

theorem decode_frame_append (h : message.length < 0x100000000) (rest : Bytes) :
    decode (frame message ++ rest) = .ok (message, 4 + message.length) := by
  rw [decode_encode_append (encode_eq_ok.2 ⟨h, rfl⟩), length_frame]

/-- Four bytes are the spelling of the length they stand for. -/
theorem lengthBytes_lengthOf (a b c d : UInt8) :
    lengthBytes (lengthOf [a, b, c, d]) = [a, b, c, d] := by
  have ha := a.toNat_lt
  have hb := b.toNat_lt
  have hc := c.toNat_lt
  have hd := d.toNat_lt
  have hbyte : ∀ (x : UInt8) (n : Nat), n % 256 = x.toNat → n.toUInt8 = x := by
    intro x n h
    apply UInt8.toNat_inj.1
    rw [Nat.toUInt8_eq, UInt8.toNat_ofNat']
    exact h
  unfold lengthBytes
  simp only [lengthOf]
  rw [hbyte a _ (by omega), hbyte b _ (by omega), hbyte c _ (by omega), hbyte d _ (by omega)]

theorem lengthOf_lt (a b c d : UInt8) : lengthOf [a, b, c, d] < 0x100000000 := by
  have ha := a.toNat_lt
  have hb := b.toNat_lt
  have hc := c.toNat_lt
  have hd := d.toNat_lt
  simp only [lengthOf]
  omega

/-- **What is decoded** is a frame of a message that fits, and lies in front of the bytes. -/
theorem eq_frame_of_decode (h : decode bytes = .ok (message, used)) :
    message.length < 0x100000000 ∧ used = 4 + message.length ∧
      bytes = frame message ++ bytes.drop used := by
  unfold decode at h
  split at h
  · rename_i a b c d body
    dsimp only at h
    split at h
    · cases h
    · rename_i hwhole
      cases h
      have hlen : (body.take (lengthOf [a, b, c, d])).length = lengthOf [a, b, c, d] := by
        rw [List.length_take] at hwhole ⊢
        omega
      refine ⟨?_, ?_, ?_⟩
      · rw [hlen]
        exact lengthOf_lt a b c d
      · rw [hlen]
      · have hdrop : (a :: b :: c :: d :: body).drop (4 + lengthOf [a, b, c, d]) =
            body.drop (lengthOf [a, b, c, d]) := by
          rw [← List.drop_drop]
          rfl
        rw [frame, hlen, lengthBytes_lengthOf, hdrop, List.append_assoc, List.take_append_drop]
        rfl
  · cases h

/-- **A frame cut off** is found short by decoding: of its length, or else of its message. -/
theorem decode_of_cut (h : message.length < 0x100000000) (hpart : part <+: frame message)
    (hne : part ≠ frame message) :
    decode part = .error
      (if part.length < 4 then .shortRead 4 part.length
        else .shortRead message.length (part.length - 4)) := by
  by_cases hfew : part.length < 4
  · rw [if_pos hfew]
    exact decode_few hfew
  · rw [if_neg hfew]
    -- the length is whole, so a part of the message is missing
    have htake : part.take 4 = lengthBytes message.length := by
      obtain ⟨rest, hrest⟩ := hpart
      have := congrArg (List.take 4) hrest
      rw [List.take_append_of_le_length (by omega)] at this
      rw [this, frame, ← length_lengthBytes message.length, List.take_left]
    have hshort : (part.drop 4).length < message.length := by
      have hle := hpart.length_le
      have hlt : part.length ≠ (frame message).length := fun heq => hne (hpart.eq_of_length heq)
      rw [length_frame] at hle hlt
      rw [List.length_drop]
      omega
    have hdecode := decode_append (length_lengthBytes message.length) (part.drop 4)
    rw [← htake, List.take_append_drop, htake, lengthOf_lengthBytes h, if_pos hshort,
      List.length_drop] at hdecode
    exact hdecode

/-! ## Several frames -/

/-- **Decode** some frames in a row: their messages, and the bytes behind them. -/
def decodeMany : Nat → Bytes → Except Failure (List Bytes × Bytes)
  | 0, bytes => .ok ([], bytes)
  | n + 1, bytes => do
    let (message, used) ← decode bytes
    let (messages, rest) ← decodeMany n (bytes.drop used)
    return (message :: messages, rest)

theorem mapM_encode (h : ∀ m ∈ messages, m.length < 0x100000000) :
    messages.mapM encode = .ok (messages.map frame) := by
  induction messages with
  | nil => rfl
  | cons m ms ih =>
    rw [List.mapM_cons, encode_eq_ok.2 ⟨h m List.mem_cons_self, rfl⟩,
      ih fun k hk => h k (List.mem_cons_of_mem m hk)]
    rfl

theorem drop_frame_append (message rest : Bytes) :
    (frame message ++ rest).drop (4 + message.length) = rest := by
  rw [← length_frame, List.drop_left]

/-- **Frames in a row** are decoded to their messages, whatever lies behind them. -/
theorem decodeMany_frames (h : ∀ m ∈ messages, m.length < 0x100000000) (rest : Bytes) :
    decodeMany messages.length (messages.flatMap frame ++ rest) = .ok (messages, rest) := by
  induction messages with
  | nil => rfl
  | cons m ms ih =>
    rw [List.flatMap_cons, List.append_assoc, List.length_cons, decodeMany,
      decode_frame_append (h m List.mem_cons_self)]
    have ih := ih fun k hk => h k (List.mem_cons_of_mem m hk)
    simp only [bind, Except.bind, drop_frame_append, ih]
    rfl

theorem pastFrames_frames (h : ∀ m ∈ messages, m.length < 0x100000000) (n : Nat) :
    pastFrames (messages.flatMap frame) n = (messages.drop n).flatMap frame := by
  induction n with
  | zero => rfl
  | succ n ih =>
    rw [pastFrames, ih, pastFrame, ← List.drop_drop]
    cases hrest : messages.drop n with
    | nil => rfl
    | cons m ms =>
      have hm : m ∈ messages := List.mem_of_mem_drop (hrest ▸ List.mem_cons_self)
      rw [List.flatMap_cons, decode_frame_append (h m hm)]
      exact drop_frame_append m _

/-- **Frames in a row** are read one by one off any stream that holds them,
which is then found closed. -/
theorem Steady.readMessage_frames (hs : Steady ds) (hds : delivered ds = messages.flatMap frame)
    (h : ∀ m ∈ messages, m.length < 0x100000000) (n : Nat) :
    (Wire.readMessage (Wire.afterReads ds n)).1 =
      match messages[n]? with
      | some m => .ok m
      | none => .error .closed := by
  obtain ⟨hbytes, hsteady⟩ := hs.afterReads n
  obtain ⟨rest, hread, -⟩ := hsteady.readMessage
  rw [hread, hbytes, hds, pastFrames_frames h]
  cases hm : messages[n]? with
  | none => rw [List.drop_eq_nil_of_le (List.getElem?_eq_none_iff.1 hm)]; rfl
  | some m =>
    obtain ⟨hlt, rfl⟩ := List.getElem?_eq_some_iff.1 hm
    rw [List.drop_eq_getElem_cons hlt, List.flatMap_cons]
    exact frameOf_of_ok (decode_frame_append (h _ (List.getElem_mem hlt)) _)

/-- The messages of the whole frames in front of some bytes. -/
def wholeFrames (bytes : Bytes) : List Bytes :=
  match _ : decode bytes with
  | .ok (message, used) => message :: wholeFrames (bytes.drop used)
  | .error _ => []
termination_by bytes.length
decreasing_by
  rename_i h
  have hle := used_le_length h
  have hused := (eq_frame_of_decode h).2.1
  rw [List.length_drop]
  omega

theorem wholeFrames_of_ok (h : decode bytes = .ok (message, used)) :
    wholeFrames bytes = message :: wholeFrames (bytes.drop used) := by
  rw [wholeFrames]
  split
  · rename_i hok
    rw [h] at hok
    cases hok
    rfl
  · rename_i herr
    rw [h] at herr
    cases herr

theorem wholeFrames_of_error {e : Failure} (h : decode bytes = .error e) :
    wholeFrames bytes = [] := by
  rw [wholeFrames]
  split
  · rename_i hok
    rw [h] at hok
    cases hok
  · rfl

theorem decode_of_wholeFrames_nil (h : wholeFrames bytes = []) : ∃ e, decode bytes = .error e := by
  cases hdecode : decode bytes with
  | error e => exact ⟨e, rfl⟩
  | ok found =>
    obtain ⟨message, used⟩ := found
    rw [wholeFrames_of_ok hdecode] at h
    cases h

@[simp] theorem wholeFrames_nil : wholeFrames [] = [] := wholeFrames_of_error rfl

theorem wholeFrames_frames (h : ∀ m ∈ messages, m.length < 0x100000000) (rest : Bytes) :
    wholeFrames (messages.flatMap frame ++ rest) = messages ++ wholeFrames rest := by
  induction messages with
  | nil => rfl
  | cons m ms ih =>
    rw [List.flatMap_cons, List.append_assoc,
      wholeFrames_of_ok (decode_frame_append (h m List.mem_cons_self) _), drop_frame_append,
      ih fun k hk => h k (List.mem_cons_of_mem m hk)]
    rfl

theorem wholeFrames_of_cut (h : message.length < 0x100000000) (hpart : part <+: frame message)
    (hne : part ≠ frame message) : wholeFrames part = [] :=
  wholeFrames_of_error (decode_of_cut h hpart hne)

/-- **Two ways.** Frames in a row are decoded to just their messages, and the bytes behind them are
left; what is decoded from any bytes is the message whose frame lies in front of them; and a frame
cut off is not decoded, but found short. -/
theorem frames_decode_back :
    (∀ (messages : List Bytes) (rest : Bytes), (∀ m ∈ messages, m.length < 0x100000000) →
      ∃ frames, messages.mapM encode = .ok frames ∧
        decodeMany messages.length (frames.flatten ++ rest) = .ok (messages, rest)) ∧
    (∀ (bytes message : Bytes) (used : Nat), decode bytes = .ok (message, used) →
      4 ≤ used ∧ used ≤ bytes.length ∧ encode message = .ok (bytes.take used)) ∧
    ∀ (message f part : Bytes), encode message = .ok f → part <+: f → part ≠ f →
      decode part = .error
        (if part.length < 4 then .shortRead 4 part.length
          else .shortRead message.length (part.length - 4)) := by
  refine ⟨fun messages rest h => ?_, fun bytes message used h => ?_,
    fun message f part h hpart hne => ?_⟩
  · refine ⟨messages.map frame, mapM_encode h, ?_⟩
    rw [← List.flatMap_def]
    exact decodeMany_frames h rest
  · obtain ⟨hfits, hused, hbytes⟩ := eq_frame_of_decode h
    have htake : bytes.take used = frame message := by
      rw [← length_frame] at hused
      rw [hbytes, hused, List.take_left]
    refine ⟨by omega, used_le_length h, ?_⟩
    rw [htake]
    exact encode_eq_ok.2 ⟨hfits, rfl⟩
  · obtain ⟨hfits, rfl⟩ := encode_eq_ok.1 h
    exact decode_of_cut hfits hpart hne

/-- Two messages, one of them empty, with a byte behind their frames;
and the first frame without its last byte. -/
theorem two_frames_decode_back :
    decodeMany 2 [2, 0, 0, 0, 104, 105, 0, 0, 0, 0, 9] = .ok ([[104, 105], []], [9]) ∧
      encode [104, 105] = .ok [2, 0, 0, 0, 104, 105] ∧
      decode [2, 0, 0, 0, 104] = .error (.shortRead 2 1) := by
  obtain ⟨hrow, hback, hcut⟩ := frames_decode_back
  obtain ⟨frames, hframes, hmany⟩ := hrow [[104, 105], []] [9] (by decide)
  obtain rfl : frames = [[2, 0, 0, 0, 104, 105], [0, 0, 0, 0]] := by
    have : Except.ok frames = Except.ok (ε := Failure) [[2, 0, 0, 0, 104, 105], [0, 0, 0, 0]] :=
      hframes.symm.trans rfl
    exact Except.ok.inj this
  have hfirst := (hback [2, 0, 0, 0, 104, 105, 9] [104, 105] 6 (by decide +kernel)).2.2
  exact ⟨hmany, hfirst, hcut [104, 105] _ _ hfirst (by decide) (by decide)⟩

end ScriptDebug.Wire
