import ScriptDebug.Proofs.Codec

/-!
# Frames before the end of a stream

A stream may end inside a frame, fail, and go on behind that. `arrived` are its bytes before the
first end of any kind. As long as they hold a whole frame it is read, and just its bytes are taken;
once they do not, reading fails for good. This needs nothing of the stream.
-/

namespace ScriptDebug.Wire

variable {n before used : Nat} {ds rest : List Delivery} {b got m : Bytes} {message text : String}

/-- **Arrived.** The bytes of a stream before its first end: a read that fails, one that finds the
stream at its end, or one that gets none of the bytes that are there. -/
def arrived : List Delivery → Bytes
  | .data (_ :: _) 0 :: _ => []
  | .data bytes _ :: rest => bytes ++ arrived rest
  | .interrupted :: rest => arrived rest
  | _ => []

/-! ## One read -/

theorem arrived_nil_data (most : Nat) (rest : List Delivery) :
    arrived (.data [] most :: rest) = arrived rest := by
  cases most <;> rfl

theorem arrived_data {bytes : Bytes} {most : Nat} (h : 0 < most) (rest : List Delivery) :
    arrived (.data bytes most :: rest) = bytes ++ arrived rest := by
  cases most with
  | zero => exact absurd h (Nat.lt_irrefl 0)
  | succ k => cases bytes <;> rfl

/-- A read that gets bytes takes them off the front of those that arrive;
it gets none at the end only. -/
theorem arrived_of_bytes (hn : 0 < n) (h : receive n ds = (.bytes b, rest)) :
    b.length ≤ n ∧ (b = [] → arrived ds = []) ∧ (b ≠ [] → arrived ds = b ++ arrived rest) := by
  fun_induction receive n ds with
  | case1 =>
    cases h
    exact ⟨Nat.zero_le n, fun _ => rfl, fun hne => absurd rfl hne⟩
  | case2 most tail ih =>
    rw [arrived_nil_data]
    exact ih h
  | case3 bytes most tail hne k hall =>
    cases h
    have hle : bytes.length ≤ k := List.drop_eq_nil_iff.1 hall
    have hk : k ≤ n := Nat.min_le_left n most
    have hmost : 0 < most := by
      have := List.length_pos_iff.2 hne
      have := Nat.min_le_right n most
      omega
    rw [List.take_of_length_le hle]
    exact ⟨Nat.le_trans hle hk, fun hnil => absurd hnil hne, fun _ => arrived_data hmost rest⟩
  | case4 bytes most tail hne k left =>
    cases h
    refine ⟨?_, fun hnil => ?_, fun hsome => ?_⟩
    · rw [List.length_take]
      exact Nat.le_trans (Nat.min_le_left k _) (Nat.min_le_left n most)
    · -- nothing was asked for, so nothing can be got
      have hzero : k = 0 := (List.take_eq_nil_iff.1 hnil).resolve_right hne
      have hmost : most = 0 := by
        have hk : k = min n most := rfl
        omega
      subst hmost
      cases bytes with
      | nil => exact absurd rfl hne
      | cons b bs => rfl
    · have hmost : 0 < most := by
        refine Nat.pos_of_ne_zero fun hzero => hsome ?_
        have hk : k = min n most := rfl
        rw [hk, hzero, Nat.min_zero, List.take_zero]
      rw [arrived_data hmost, arrived_data hmost, ← List.append_assoc, List.take_append_drop]
  | case5 => cases h
  | case6 => cases h
  | case7 =>
    cases h
    exact ⟨Nat.zero_le n, fun _ => rfl, fun hne => absurd rfl hne⟩

theorem arrived_of_interrupted (h : receive n ds = (.interrupted, rest)) :
    arrived rest = arrived ds := by
  fun_induction receive n ds with
  | case2 most tail ih =>
    rw [arrived_nil_data]
    exact ih h
  | case5 =>
    cases h
    rfl
  | _ => cases h

theorem arrived_of_failed (h : receive n ds = (.failed message, rest)) : arrived ds = [] := by
  fun_induction receive n ds with
  | case2 most tail ih =>
    rw [arrived_nil_data]
    exact ih h
  | case6 =>
    cases h
    rfl
  | _ => cases h

/-! ## Loops over reads -/

/-- **Filling** takes the bytes asked for off the front if so many arrive,
and fails or comes out short if not. -/
theorem fill_arrived (n : Nat) (ds : List Delivery) :
    (n ≤ (arrived ds).length →
      ∃ rest, fill n ds = (.ok ((arrived ds).take n), rest) ∧ arrived rest = (arrived ds).drop n) ∧
    ((arrived ds).length < n → ∀ got, (fill n ds).1 = .ok got → got.length < n) := by
  fun_induction fill n ds with
  | case1 ds => exact ⟨fun _ => ⟨ds, by simp, rfl⟩, fun h => absurd h (Nat.not_lt_zero _)⟩
  | case2 n ds hn rest hr =>
    obtain ⟨-, hend, -⟩ := arrived_of_bytes (Nat.pos_of_ne_zero hn) hr
    rw [hend rfl]
    refine ⟨fun hle => absurd (Nat.le_zero.1 hle) hn, fun hlt got hgot => ?_⟩
    obtain rfl := Except.ok.inj hgot
    exact hlt
  | case3 n ds hn b bs rest hr more rest' hmore ih =>
    obtain ⟨hlen, -, hfront⟩ := arrived_of_bytes (Nat.pos_of_ne_zero hn) hr
    have hds := hfront (List.cons_ne_nil b bs)
    rw [hmore] at ih
    obtain ⟨hall, hshort⟩ := ih
    have hcount : (arrived ds).length = (b :: bs).length + (arrived rest).length := by
      rw [hds, List.length_append]
    refine ⟨fun hle => ?_, fun hlt got hgot => ?_⟩
    · obtain ⟨last, hfill, hlast⟩ := hall (by omega)
      obtain ⟨rfl, rfl⟩ := Prod.mk.inj hfill
      refine ⟨rest', ?_, ?_⟩
      · rw [hds, List.take_append, List.take_of_length_le hlen]
        rfl
      · rw [hlast, hds, List.drop_append, List.drop_eq_nil_of_le hlen, List.nil_append]
    · cases more with
      | error e => cases hgot
      | ok more =>
        obtain rfl := Except.ok.inj hgot
        have := hshort (by omega) more rfl
        rw [List.length_append]
        omega
  | case4 n ds hn rest hr ih =>
    rw [arrived_of_interrupted hr] at ih
    exact ih
  | case5 n ds hn failure rest hr =>
    rw [arrived_of_failed hr]
    refine ⟨fun hle => absurd (Nat.le_zero.1 hle) hn, fun _ got hgot => ?_⟩
    cases hgot

/-- **The portions** of the rest of a message put together are that rest if so much arrives,
and fail if not. -/
theorem readBody_arrived (n before : Nat) (ds : List Delivery) :
    (n - before ≤ (arrived ds).length →
      ∃ rest, readBody n before ds = (.ok ((arrived ds).take (n - before)), rest) ∧
        arrived rest = (arrived ds).drop (n - before)) ∧
    ((arrived ds).length < n - before →
      ∃ e, (readBody n before ds).1 = .error e ∧ e.isFatal = true) := by
  fun_induction readBody n before ds with
  | case1 before ds hlt want e rest hfill =>
    have hwant : want ≤ n - before := Nat.min_le_left _ _
    refine ⟨fun hle => ?_, fun _ => ⟨_, rfl, rfl⟩⟩
    obtain ⟨last, hok, -⟩ := (fill_arrived want ds).1 (by omega)
    rw [hfill] at hok
    cases hok
  | case2 before ds hlt want got rest hfill hshort =>
    have hwant : want ≤ n - before := Nat.min_le_left _ _
    refine ⟨fun hle => ?_, fun _ => ⟨_, rfl, rfl⟩⟩
    obtain ⟨last, hok, -⟩ := (fill_arrived want ds).1 (by omega)
    rw [hfill] at hok
    cases hok
    rw [List.length_take] at hshort
    omega
  | case3 before ds hlt want got rest hfill hfull more rest' hmore ih =>
    have hwant : want ≤ n - before := Nat.min_le_left _ _
    have henough : want ≤ (arrived ds).length := by
      refine Nat.le_of_not_lt fun hless => ?_
      have := (fill_arrived want ds).2 hless got (by rw [hfill])
      omega
    obtain ⟨last, hok, hlast⟩ := (fill_arrived want ds).1 henough
    rw [hfill] at hok
    cases hok
    rw [hmore] at ih
    obtain ⟨hall, hless⟩ := ih
    rw [hlast, List.length_drop, Nat.sub_add_eq] at hall hless
    have hsplit : n - before = want + (n - before - want) := by omega
    refine ⟨fun hle => ?_, fun hlt => ?_⟩
    · obtain ⟨final, hbody, hfinal⟩ := hall (by omega)
      obtain ⟨rfl, rfl⟩ := Prod.mk.inj hbody
      refine ⟨rest', ?_, ?_⟩
      · rw [hsplit, List.take_add, ← hsplit]
        rfl
      · rw [hfinal, List.drop_drop, ← hsplit]
    · obtain ⟨e, he, hfatal⟩ := hless (by omega)
      obtain rfl : more = .error e := he
      exact ⟨e, rfl, hfatal⟩
  | case4 before ds hge =>
    have hzero : n - before = 0 := by omega
    rw [hzero]
    exact ⟨fun _ => ⟨ds, rfl, rfl⟩, fun hlt => absurd hlt (Nat.not_lt_zero _)⟩

/-! ## One frame -/

/-- **One frame** is read if it arrives whole, and takes just its bytes;
otherwise reading fails for good. -/
theorem readMessage_arrived (ds : List Delivery) :
    match decode (arrived ds) with
    | .ok (m, used) =>
      ∃ rest, readMessage ds = (.ok m, rest) ∧ arrived rest = (arrived ds).drop used
    | .error _ => ∃ f, (readMessage ds).1 = .error f ∧ f.isFatal = true := by
  obtain ⟨hall, hshort⟩ := fill_arrived 4 ds
  by_cases hfew : (arrived ds).length < 4
  · -- the stream ends inside the length, or before it
    rw [decode_few hfew]
    show ∃ f, (readMessage ds).1 = .error f ∧ f.isFatal = true
    unfold readMessage
    split
    · exact ⟨_, rfl, rfl⟩
    · exact ⟨_, rfl, rfl⟩
    · rename_i start rest _ hfill
      rw [if_pos (hshort hfew start (by rw [hfill]))]
      exact ⟨_, rfl, rfl⟩
  · obtain ⟨rest, hfill, hrest⟩ := hall (Nat.le_of_not_lt hfew)
    have hfour : ((arrived ds).take 4).length = 4 := by rw [List.length_take]; omega
    have hdecode := decode_append hfour (arrived rest)
    rw [hrest, List.take_append_drop, ← hrest] at hdecode
    obtain ⟨a, b, c, d, hstart⟩ := List.length_eq_four.1 hfour
    obtain ⟨hwhole, hless⟩ := readBody_arrived (lengthOf [a, b, c, d]) 0 rest
    rw [hdecode]
    unfold readMessage
    rw [hfill]
    rw [hstart]
    by_cases hlt : (arrived rest).length < lengthOf [a, b, c, d]
    · rw [if_pos hlt]
      exact hless hlt
    · rw [if_neg hlt]
      obtain ⟨last, hbody, hlast⟩ := hwhole (Nat.le_of_not_lt hlt)
      refine ⟨last, hbody, ?_⟩
      rw [hlast, hrest, List.drop_drop, Nat.sub_zero]

/-- **One text** is read off a whole frame that holds one;
a frame that holds none is passed over. -/
theorem readText_arrived (ds : List Delivery) :
    match decode (arrived ds) with
    | .ok (m, used) =>
      ∃ rest, readText ds = ((text? m).elim (.error .notText) .ok, rest) ∧
        arrived rest = (arrived ds).drop used
    | .error _ => ∃ f, (readText ds).1 = .error f ∧ f.isFatal = true := by
  have hread := readMessage_arrived ds
  cases hdecode : decode (arrived ds) with
  | ok found =>
    rw [hdecode] at hread
    obtain ⟨rest, hm, hrest⟩ := hread
    refine ⟨rest, ?_, hrest⟩
    unfold readText
    rw [hm]
    cases htext : text? found.1 <;> simp [htext]
  | error e =>
    rw [hdecode] at hread
    obtain ⟨f, hf, hfatal⟩ := hread
    refine ⟨f, ?_, hfatal⟩
    unfold readText
    split <;> rename_i hm <;> rw [hm] at hf
    · exact congrArg _ (Except.error.inj hf)
    · cases hf

/-! ## Texts -/

theorem toList_loop (bytes : ByteArray) (i : Nat) (done : Bytes) :
    ByteArray.toList.loop bytes i done = done.reverse ++ bytes.data.toList.drop i := by
  fun_induction ByteArray.toList.loop bytes i done with
  | case1 i done hlt ih =>
    have hlt : i < bytes.data.toList.length := hlt
    have hget : bytes.get! i = bytes.data.toList[i] := by
      show bytes.data[i]! = _
      rw [getElem!_pos bytes.data i hlt]
      rfl
    rw [ih, List.drop_eq_getElem_cons hlt, List.reverse_cons, List.append_assoc, hget]
    rfl
  | case2 i done hge =>
    have hle : bytes.data.toList.length ≤ i := Nat.le_of_not_lt hge
    rw [List.drop_eq_nil_of_le hle, List.append_nil]

theorem ofText_eq (text : String) : ofText text = text.toByteArray.data.toList :=
  (toList_loop text.toByteArray 0 []).trans (List.nil_append _)

/-- **A message is read as the text** that it spells. -/
theorem text?_eq_some : text? m = some text ↔ ofText text = m := by
  rw [ofText_eq]
  unfold text? String.fromUTF8?
  constructor
  · intro h
    split at h
    · rw [← Option.some.inj h]
      rfl
    · cases h
  · rintro rfl
    rw [dif_pos text.isValidUTF8]
    rfl

/-- Whether a message is spelled in UTF-8. -/
def isText (m : Bytes) : Bool := decide (ByteArray.IsValidUTF8 ⟨m.toArray⟩)

theorem isSome_text? (m : Bytes) : (text? m).isSome = isText m := by
  unfold text? String.fromUTF8? isText
  split <;> rename_i h <;> simp [h]

/-- The texts among some messages, spelled again, are the messages that are texts. -/
theorem map_ofText_filterMap (messages : List Bytes) :
    (messages.filterMap text?).map ofText = messages.filter isText := by
  induction messages with
  | nil => rfl
  | cons m ms ih =>
    cases h : text? m with
    | none =>
      have hnot : isText m = false := by rw [← isSome_text?, h]; rfl
      rw [List.filterMap_cons_none h, ih, List.filter_cons_of_neg (by simp [hnot])]
    | some text =>
      have hyes : isText m = true := by rw [← isSome_text?, h]; rfl
      rw [List.filterMap_cons_some h, List.map_cons, ih, text?_eq_some.1 h,
        List.filter_cons_of_pos hyes]

end ScriptDebug.Wire
