import ScriptDebug.Context
import ScriptDebug.Wire.Writing

/-!
# Writers at one stream

Threads that write messages to one stream, in any order. A message whose length does not fit is
refused at once. For any other one the thread waits until the stream is free, keeps it from the
first write to the flush, and gives it back whatever came of the message.
-/

namespace ScriptDebug.Wire

/-- **Writer.** One thread, and the messages it writes one after the other. -/
structure Writer where
  /-- The messages that are not ended; the first one is under way. -/
  left : List Bytes := []
  /-- How far the first one is, once the thread has the stream. -/
  sending : Option Sending := none
  /-- What came of the messages before, in their order. -/
  ended : List (Bytes × Except Failure Unit) := []

/-- **Channel.** A stream, and the threads that write to it. -/
structure Channel where
  outlet : Outlet
  /-- The thread that has the stream. -/
  lock : Option ThreadId := none
  writers : List Writer

namespace Channel

/-- Threads that have these messages to write. -/
def start (outlet : Outlet) (messages : List (List Bytes)) : Channel where
  outlet
  writers := messages.map fun left => { left }

/-- A thread; one that is not there has nothing to write. -/
def writer (c : Channel) (t : ThreadId) : Writer := (c.writers[t]?).getD {}

/-- Change one thread. -/
def setWriter (c : Channel) (t : ThreadId) (x : Writer) : Channel :=
  { c with writers := c.writers.set t x }

/-- One turn. -/
inductive Turn where
  /-- A thread does its next step, if it can. -/
  | step (t : ThreadId)
  /-- The stream will meet what comes in another way than planned. -/
  | change (plan : Outlet)

/-- **Step** of one thread: it takes the stream, writes, or gives the stream back. -/
def step (c : Channel) (t : ThreadId) : Channel :=
  let x := c.writer t
  match x.left, x.sending with
  | [], _ => c
  | message :: left, none =>
    match Sending.start message with
    | .done r => c.setWriter t { left, ended := x.ended ++ [(message, r)] }
    | .parts ps =>
      if c.lock.isSome then c
      else { c with lock := some t }.setWriter t { x with sending := some (.parts ps) }
  | _ :: _, some (.parts ps) =>
    let (outlet, sending) := Sending.advance c.outlet (.parts ps)
    { c with outlet }.setWriter t { x with sending := some sending }
  | message :: left, some (.done r) =>
    { c with lock := none }.setWriter t { left, ended := x.ended ++ [(message, r)] }

/-- What a turn does. -/
def take (c : Channel) : Turn → Channel
  | .step t => c.step t
  | .change plan =>
    { c with outlet := { plan with taken := c.outlet.taken, flushes := c.outlet.flushes } }

/-- The channel after any sequence of turns. -/
def takeAll (c : Channel) (turns : List Turn) : Channel := turns.foldl take c

@[simp] theorem takeAll_nil (c : Channel) : c.takeAll [] = c := rfl

@[simp] theorem takeAll_cons (c : Channel) (turn : Turn) (turns : List Turn) :
    c.takeAll (turn :: turns) = (c.take turn).takeAll turns := rfl

end Channel

end ScriptDebug.Wire
