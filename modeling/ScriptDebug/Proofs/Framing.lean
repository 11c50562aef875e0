import Mathlib.Data.List.Basic
import ScriptDebug.Wire.Reading

/-!
# Frames out of any stream

How a stream cuts its bytes into reads does not show in the frames that are read from it.

1. One read of a stream that fails nowhere takes a part off the front of its bytes (`receive_bytes`,
   `receive_interrupted`).
2. So `fill n` gives the first `n` of them, or all if they are fewer (`Steady.fill`).
3. So the portions of a message put together are the message (`Steady.readBody`).
4. So a frame is read as `decode` reads it off the bytes (`Steady.readMessage`), again and again
   (`reading_refines_decoding`).
-/

namespace ScriptDebug.Wire

variable {n before : Nat} {ds rest : List Delivery} {b : Bytes} {message : String}

/-! ## Steady streams -/

/-- **Steady.** A stream that never fails, gives something of the bytes it holds at every read, and
has none behind its end. A stream that chooses as it goes how much it gives is, in any one run, a
stream of this kind. -/
def Steady : List Delivery → Prop
  | [] => True
  | .data bytes most :: rest => (bytes = [] ∨ 0 < most) ∧ Steady rest
  | .interrupted :: rest => Steady rest
  | .failure _ :: _ => False
  | .finish :: rest => delivered rest = [] ∧ Steady rest

theorem receive_bytes (hs : Steady ds) (hn : 0 < n) (h : receive n ds = (.bytes b, rest)) :
    Steady rest ∧ delivered ds = b ++ delivered rest ∧ b.length ≤ n ∧
      (b = [] → delivered ds = []) := by
  fun_induction receive n ds with
  | case1 =>
    cases h
    exact ⟨hs, rfl, Nat.zero_le n, fun _ => rfl⟩
  | case2 most tail ih => exact ih hs.2 h
  | case3 bytes most tail hne k hall =>
    -- the read takes all that is left of the piece
    cases h
    have hle : bytes.length ≤ k := List.drop_eq_nil_iff.1 hall
    have hk : k ≤ n := Nat.min_le_left n most
    rw [List.take_of_length_le hle]
    exact ⟨hs.2, rfl, Nat.le_trans hle hk, fun hnil => absurd hnil hne⟩
  | case4 bytes most tail hne k left =>
    cases h
    have hmost : 0 < most := hs.1.resolve_left hne
    have hk : 0 < k := Nat.lt_min.2 ⟨hn, hmost⟩
    refine ⟨⟨.inr hmost, hs.2⟩, ?_, ?_, fun hnil => ?_⟩
    · simp only [delivered]
      rw [← List.append_assoc, List.take_append_drop]
    · rw [List.length_take]
      exact Nat.le_trans (Nat.min_le_left k _) (Nat.min_le_left n most)
    · rcases List.take_eq_nil_iff.1 hnil with hzero | hnil
      · exact absurd hzero (Nat.pos_iff_ne_zero.1 hk)
      · exact absurd hnil hne
  | case5 => cases h
  | case6 => cases h
  | case7 =>
    cases h
    exact ⟨hs.2, hs.1.symm, Nat.zero_le n, fun _ => rfl⟩

theorem receive_interrupted (hs : Steady ds) (h : receive n ds = (.interrupted, rest)) :
    Steady rest ∧ delivered rest = delivered ds := by
  fun_induction receive n ds with
  | case2 most tail ih => exact ih hs.2 h
  | case5 =>
    cases h
    exact ⟨hs, rfl⟩
  | _ => cases h

theorem receive_ne_failed (hs : Steady ds) : receive n ds ≠ (.failed message, rest) := by
  intro h
  fun_induction receive n ds with
  | case2 most tail ih => exact ih hs.2 h
  | case6 => exact hs
  | _ => cases h

/-! ## Loops over reads -/

/-- **Filling** takes the bytes asked for off the front, or all if there are fewer. -/
theorem Steady.fill (hs : Steady ds) (n : Nat) :
    ∃ rest, Wire.fill n ds = (.ok ((delivered ds).take n), rest) ∧
      delivered rest = (delivered ds).drop n ∧ Steady rest := by
  fun_induction Wire.fill n ds with
  | case1 ds => exact ⟨ds, by simp, rfl, hs⟩
  | case2 n ds hn rest hr =>
    obtain ⟨hrest, hds, -, hend⟩ := receive_bytes hs (Nat.pos_iff_ne_zero.2 hn) hr
    have hnil : delivered rest = [] := by rw [← hend rfl, hds, List.nil_append]
    exact ⟨rest, by simp [hend rfl], by simp [hend rfl, hnil], hrest⟩
  | case3 n ds hn b bs rest hr more rest' hmore ih =>
    obtain ⟨hrest, hds, hlen, -⟩ := receive_bytes hs (Nat.pos_iff_ne_zero.2 hn) hr
    obtain ⟨last, hfill, hlast, hsteady⟩ := ih hrest
    rw [hmore] at hfill
    obtain ⟨rfl, rfl⟩ := Prod.mk.inj hfill
    refine ⟨rest', ?_, ?_, hsteady⟩
    · rw [hds, List.take_append, List.take_of_length_le hlen]
      rfl
    · rw [hlast, hds, List.drop_append, List.drop_eq_nil_of_le hlen, List.nil_append]
  | case4 n ds hn rest hr ih =>
    obtain ⟨hrest, hsame⟩ := receive_interrupted hs hr
    rw [← hsame]
    exact ih hrest
  | case5 n ds hn failure rest hr => exact absurd hr (receive_ne_failed hs)

/-- **The portions** of the rest of a message put together are that rest,
unless the stream ends before. -/
theorem Steady.readBody (hs : Steady ds) (n before : Nat) :
    ∃ r rest, Wire.readBody n before ds = (r, rest) ∧ Steady rest ∧
      (n - before ≤ (delivered ds).length →
        r = .ok ((delivered ds).take (n - before)) ∧
          delivered rest = (delivered ds).drop (n - before)) ∧
      ((delivered ds).length < n - before →
        r = .error (.shortRead n (before + (delivered ds).length)) ∧ delivered rest = []) := by
  fun_induction Wire.readBody n before ds with
  | case1 before ds hlt want e rest hfill =>
    obtain ⟨last, hok, -⟩ := hs.fill want
    rw [hfill] at hok
    cases hok
  | case2 before ds hlt want got rest hfill hshort =>
    obtain ⟨last, hok, hlast, hsteady⟩ := hs.fill want
    rw [hfill] at hok
    cases hok
    have hwant : want ≤ n - before := Nat.min_le_left _ _
    rw [List.length_take] at hshort ⊢
    refine ⟨_, _, rfl, hsteady, fun hall => absurd hall (by omega), fun _ => ⟨?_, ?_⟩⟩
    · rw [Nat.min_eq_right (by omega)]
    · rw [hlast, List.drop_eq_nil_of_le (by omega)]
  | case3 before ds hlt want got rest hfill hfull more rest' hmore ih =>
    obtain ⟨last, hok, hlast, hsteady⟩ := hs.fill want
    rw [hfill] at hok
    cases hok
    obtain ⟨r, final, hbody, hfinal, hall, hshort⟩ := ih hsteady
    obtain ⟨rfl, rfl⟩ := Prod.mk.inj (hmore.symm.trans hbody)
    have hwant : want ≤ n - before := Nat.min_le_left _ _
    rw [List.length_take] at hfull
    rw [hlast, List.length_drop, Nat.sub_add_eq] at hall hshort
    have hsplit : n - before = want + (n - before - want) := by omega
    refine ⟨_, _, rfl, hfinal, fun hle => ?_, fun hlt => ?_⟩
    · obtain ⟨rfl, hrest⟩ := hall (by omega)
      rw [hsplit, List.take_add, ← List.drop_drop, ← hsplit]
      exact ⟨rfl, hrest⟩
    · obtain ⟨rfl, hrest⟩ := hshort (by omega)
      have hcount : before + want + ((delivered ds).length - want) =
          before + (delivered ds).length := by omega
      rw [hcount]
      exact ⟨rfl, hrest⟩
  | case4 before ds hge =>
    have hzero : n - before = 0 := by omega
    refine ⟨_, _, rfl, hs, fun _ => ?_, fun hlt => absurd hlt (by omega)⟩
    rw [hzero]
    exact ⟨rfl, rfl⟩

/-! ## Frames -/

/-- What some bytes leave behind their first frame; nothing if it is not whole. -/
def pastFrame (bytes : Bytes) : Bytes :=
  match decode bytes with
  | .ok (_, used) => bytes.drop used
  | .error _ => []

/-- What reading one frame gives, where the bytes are these. -/
def frameOf (bytes : Bytes) : Except Failure Bytes :=
  if bytes = [] then .error .closed else (decode bytes).map (·.1)

theorem decode_few {bytes : Bytes} (h : bytes.length < 4) :
    decode bytes = .error (.shortRead 4 bytes.length) := by
  unfold decode
  split
  · simp only [List.length_cons] at h
    omega
  · rfl

theorem decode_append {start : Bytes} (h : start.length = 4) (body : Bytes) :
    decode (start ++ body) =
      if body.length < lengthOf start then .error (.shortRead (lengthOf start) body.length)
      else .ok (body.take (lengthOf start), 4 + lengthOf start) := by
  obtain ⟨a, b, c, d, rfl⟩ := List.length_eq_four.1 h
  simp only [decode, List.cons_append, List.nil_append, List.length_take]
  by_cases hshort : body.length < lengthOf [a, b, c, d]
  · rw [if_pos hshort, if_pos (by omega), Nat.min_eq_right (by omega)]
  · rw [if_neg hshort, if_neg (by omega)]

/-- **One frame** is read off a stream as it is decoded off its bytes. -/
theorem Steady.readMessage (hs : Steady ds) :
    ∃ rest, Wire.readMessage ds = (frameOf (delivered ds), rest) ∧
      delivered rest = pastFrame (delivered ds) ∧ Steady rest := by
  obtain ⟨rest, hfill, hrest, hsteady⟩ := hs.fill 4
  unfold Wire.readMessage frameOf pastFrame
  rw [hfill]
  by_cases hfew : (delivered ds).length < 4
  · -- the stream ends inside the length, or before it
    have htake : (delivered ds).take 4 = delivered ds := List.take_of_length_le (by omega)
    have hnil : delivered rest = [] := by rw [hrest, List.drop_eq_nil_of_le (by omega)]
    rw [htake, decode_few hfew]
    cases hbytes : delivered ds with
    | nil => exact ⟨rest, rfl, hnil, hsteady⟩
    | cons b bytes =>
      rw [hbytes] at hfew
      exact ⟨rest, by simp only [if_pos hfew]; rfl, hnil, hsteady⟩
  · have hfour : ((delivered ds).take 4).length = 4 := by rw [List.length_take]; omega
    have hdecode := decode_append hfour (delivered rest)
    rw [hrest, List.take_append_drop, ← hrest] at hdecode
    have hne : delivered ds ≠ [] := fun hnil => by simp [hnil] at hfew
    obtain ⟨a, b, c, d, hstart⟩ := List.length_eq_four.1 hfour
    rw [hstart] at hdecode ⊢
    obtain ⟨r, last, hbody, hlast, hwhole, hshort⟩ := hsteady.readBody (lengthOf [a, b, c, d]) 0
    rw [Nat.sub_zero] at hwhole hshort
    refine ⟨last, ?_⟩
    rw [hdecode, if_neg hne]
    by_cases hlt : (delivered rest).length < lengthOf [a, b, c, d]
    · obtain ⟨rfl, hnil⟩ := hshort hlt
      rw [if_pos hlt]
      rw [Nat.zero_add] at hbody
      exact ⟨hbody, hnil, hlast⟩
    · obtain ⟨rfl, hdrop⟩ := hwhole (Nat.le_of_not_lt hlt)
      rw [if_neg hlt]
      refine ⟨hbody, ?_, hlast⟩
      rw [hdrop, hrest, List.drop_drop]

/-! ## Frame after frame -/

/-- A stream behind some calls of `readMessage`. -/
def afterReads (ds : List Delivery) : Nat → List Delivery
  | 0 => ds
  | n + 1 => (readMessage (afterReads ds n)).2

/-- The bytes behind some frames. -/
def pastFrames (bytes : Bytes) : Nat → Bytes
  | 0 => bytes
  | n + 1 => pastFrame (pastFrames bytes n)

theorem Steady.afterReads (hs : Steady ds) (n : Nat) :
    delivered (Wire.afterReads ds n) = pastFrames (delivered ds) n ∧
      Steady (Wire.afterReads ds n) := by
  induction n with
  | zero => exact ⟨rfl, hs⟩
  | succ n ih =>
    obtain ⟨hbytes, hsteady⟩ := ih
    obtain ⟨rest, hread, hrest, hst⟩ := hsteady.readMessage
    simp only [Wire.afterReads, pastFrames, hread, ← hbytes]
    exact ⟨hrest, hst⟩

theorem frameOf_of_ok {bytes p : Bytes} {used : Nat} (h : decode bytes = .ok (p, used)) :
    frameOf bytes = .ok p := by
  have hne : bytes ≠ [] := by
    rintro rfl
    cases h
  rw [frameOf, if_neg hne, h]
  rfl

theorem used_le_length {bytes p : Bytes} {used : Nat} (h : decode bytes = .ok (p, used)) :
    used ≤ bytes.length := by
  unfold decode at h
  split at h
  · dsimp only at h
    split at h
    · cases h
    · rename_i hshort
      cases h
      rw [List.length_take] at hshort
      simp only [List.length_cons]
      omega
  · cases h

theorem eq_shortRead_of_decode {bytes : Bytes} {e : Failure} (h : decode bytes = .error e) :
    ∃ expected got, e = .shortRead expected got := by
  unfold decode at h
  split at h
  · dsimp only at h
    split at h <;> cases h
    exact ⟨_, _, rfl⟩
  · cases h
    exact ⟨_, _, rfl⟩

/-- **Reading refines decoding.** From a steady stream, each call of `readMessage` gives the first
frame of the bytes that the calls before have left, and takes just that frame; without bytes it
finds the stream closed, and with too few it says what decoding them says. Any other steady stream
of the same bytes gives the same. -/
theorem reading_refines_decoding (hs : Steady ds) (n : Nat) :
    let unread := pastFrames (delivered ds) n
    let r := (Wire.readMessage (afterReads ds n)).1
    delivered (afterReads ds n) = unread ∧
    (∀ p used, decode unread = .ok (p, used) →
      r = .ok p ∧ used ≤ unread.length ∧
        delivered (afterReads ds (n + 1)) = unread.drop used) ∧
    (unread = [] → r = .error .closed) ∧
    (∀ e, unread ≠ [] → decode unread = .error e →
      r = .error e ∧ ∃ expected got, e = .shortRead expected got) ∧
    ∀ ds', Steady ds' → delivered ds' = delivered ds →
      (Wire.readMessage (afterReads ds' n)).1 = r := by
  have hread : ∀ ds, Steady ds →
      (Wire.readMessage (afterReads ds n)).1 = frameOf (pastFrames (delivered ds) n) := by
    intro ds hs
    obtain ⟨hbytes, hsteady⟩ := hs.afterReads n
    obtain ⟨rest, hr, -⟩ := hsteady.readMessage
    rw [hr, hbytes]
  dsimp only
  rw [hread ds hs]
  refine ⟨(hs.afterReads n).1, fun p used hok => ?_, fun hnil => ?_, fun e hne herr => ?_,
    fun ds' hs' hsame => ?_⟩
  · refine ⟨frameOf_of_ok hok, used_le_length hok, ?_⟩
    rw [(hs.afterReads (n + 1)).1, pastFrames, pastFrame, hok]
  · rw [frameOf, if_pos hnil]
  · rw [frameOf, if_neg hne, herr]
    exact ⟨rfl, eq_shortRead_of_decode herr⟩
  · rw [hread ds' hs', hsame]

/-- A message in two parts, and one of 2000 bytes of which 1500 come, byte by byte. -/
def trickle : List Delivery :=
  [.data [2, 0, 0, 0, 104] 3, .interrupted, .data [105] 1, .interrupted,
    .data (lengthBytes 2000 ++ List.replicate 1500 120) 1]

/-- The first message is read, the second one is short beyond its first portion,
and then the stream is closed. -/
theorem trickle_read :
    Steady trickle ∧ (readMessage trickle).1 = .ok [104, 105] ∧
      (readMessage (afterReads trickle 1)).1 = .error (.shortRead 2000 1500) ∧
      (readMessage (afterReads trickle 2)).1 = .error .closed := by
  have hs : Steady trickle := ⟨.inr (by decide), .inr (by decide), .inr (by decide), trivial⟩
  have hfirst : decode (pastFrames (delivered trickle) 0) = .ok ([104, 105], 6) := by
    decide +kernel
  have hsecond : decode (pastFrames (delivered trickle) 1) = .error (.shortRead 2000 1500) := by
    decide +kernel
  obtain ⟨-, hok, -⟩ := reading_refines_decoding hs 0
  obtain ⟨-, -, -, hshort, -⟩ := reading_refines_decoding hs 1
  obtain ⟨-, -, hclosed, -⟩ := reading_refines_decoding hs 2
  exact ⟨hs, (hok _ _ hfirst).1, (hshort _ (by decide +kernel) hsecond).1,
    hclosed (by decide +kernel)⟩

end ScriptDebug.Wire
