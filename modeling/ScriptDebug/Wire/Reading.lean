import ScriptDebug.Wire.Frame

/-!
# Reading frames from a stream

A stream delivers bytes in pieces of its own choosing, with interruptions between them; a read gets
at most the bytes it asks for. A frame is read by filling its four length bytes, then its message in
portions of 1024 bytes.

* `Delivery.receive`: one read;
* `fill`: reads until a number of bytes is complete or the stream ends;
* `readMessage`: one frame.
-/

namespace ScriptDebug.Wire

/-- **Delivery.** What a stream hands out in turn. -/
inductive Delivery where
  /-- Bytes, of which one read gets at most `most`; if that is none they are never used up. -/
  | data (bytes : Bytes) (most : Nat)
  /-- One read that is interrupted and may be tried again. -/
  | interrupted
  /-- One read that fails. -/
  | failure (message : String)
  /-- One read that finds the stream at its end. -/
  | finish
  deriving DecidableEq, Repr

/-- What one read gets; no bytes mean that the stream is at its end. -/
inductive Receipt where
  | bytes (b : Bytes)
  | interrupted
  | failed (message : String)
  deriving DecidableEq, Repr

/-- The bytes and deliveries that a stream still holds, counted together. -/
def stock : List Delivery → Nat
  | [] => 0
  | .data bytes _ :: rest => bytes.length + 1 + stock rest
  | _ :: rest => 1 + stock rest

/-- One read of at most `n` bytes. After the last delivery the stream is at its end. -/
def receive (n : Nat) : List Delivery → Receipt × List Delivery
  | [] => (.bytes [], [])
  | .data [] _ :: rest => receive n rest
  | .data bytes most :: rest =>
    let k := min n most
    match bytes.drop k with
    | [] => (.bytes (bytes.take k), rest)
    | left => (.bytes (bytes.take k), .data left most :: rest)
  | .interrupted :: rest => (.interrupted, rest)
  | .failure message :: rest => (.failed message, rest)
  | .finish :: rest => (.bytes [], rest)

theorem stock_receive_interrupted {n : Nat} {ds rest : List Delivery}
    (h : receive n ds = (.interrupted, rest)) : stock rest < stock ds := by
  fun_induction receive n ds with
  | case1 => simp at h
  | case2 _ tail ih => have := ih h; simp [stock]; omega
  | case3 => simp at h
  | case4 => simp at h
  | case5 => simp at h; subst h; simp [stock]
  | case6 => simp at h
  | case7 => simp at h

theorem stock_receive_bytes {n : Nat} {ds rest : List Delivery} {b : UInt8} {bs : Bytes}
    (h : receive n ds = (.bytes (b :: bs), rest)) : stock rest < stock ds := by
  fun_induction receive n ds with
  | case1 => simp at h
  | case2 _ tail ih => have := ih h; simp [stock]; omega
  | case3 bytes most tail _ k hd =>
    simp only [Prod.mk.injEq] at h
    obtain ⟨_, rfl⟩ := h
    simp [stock]
  | case4 bytes most tail _ k hd =>
    simp only [Prod.mk.injEq, Receipt.bytes.injEq] at h
    obtain ⟨ht, rfl⟩ := h
    have hk := congrArg List.length ht
    simp only [List.length_take, List.length_cons] at hk
    simp only [stock, List.length_drop]
    omega
  | case5 => simp at h
  | case6 => simp at h
  | case7 => simp at h

/-- **Fill.** Read until `n` bytes are there or the stream ends;
a failed read loses the bytes read before it. -/
def fill (n : Nat) (ds : List Delivery) : Except String Bytes × List Delivery :=
  if n = 0 then (.ok [], ds)
  else match _ : receive n ds with
    | (.bytes [], rest) => (.ok [], rest)
    | (.bytes (b :: bs), rest) =>
      let (more, rest) := fill (n - (b :: bs).length) rest
      (more.map ((b :: bs) ++ ·), rest)
    | (.interrupted, rest) => fill n rest
    | (.failed message, rest) => (.error message, rest)
termination_by stock ds
decreasing_by
  · rename_i hr
    exact stock_receive_bytes hr
  · rename_i hr
    exact stock_receive_interrupted hr

/-- The size of the portions in which a message is read. -/
def portion : Nat := 1024

/-- Read the rest of a message of `n` bytes, behind its first `before` bytes, portion by portion. -/
def readBody (n before : Nat) (ds : List Delivery) : Except Failure Bytes × List Delivery :=
  if _ : before < n then
    let want := min (n - before) portion
    match fill want ds with
    | (.error e, rest) => (.error (.stream e), rest)
    | (.ok got, rest) =>
      if got.length < want then (.error (.shortRead n (before + got.length)), rest)
      else
        let (more, rest) := readBody n (before + want) rest
        (more.map (got ++ ·), rest)
  else (.ok [], ds)
termination_by n - before
decreasing_by
  have : want = min (n - before) 1024 := rfl
  omega

/-- **Read** one frame. -/
def readMessage (ds : List Delivery) : Except Failure Bytes × List Delivery :=
  match fill 4 ds with
  | (.error e, rest) => (.error (.stream e), rest)
  | (.ok [], rest) => (.error .closed, rest)
  | (.ok start, rest) =>
    if start.length < 4 then (.error (.shortRead 4 start.length), rest)
    else readBody (lengthOf start) 0 rest

/-- **Read** one frame that holds a text. -/
def readText (ds : List Delivery) : Except Failure String × List Delivery :=
  match readMessage ds with
  | (.error e, rest) => (.error e, rest)
  | (.ok message, rest) =>
    match text? message with
    | some s => (.ok s, rest)
    | none => (.error .notText, rest)

/-- All bytes that a stream delivers before its first end or failure. -/
def delivered : List Delivery → Bytes
  | .data bytes _ :: rest => bytes ++ delivered rest
  | .interrupted :: rest => delivered rest
  | _ => []

end ScriptDebug.Wire
