import ScriptDebug.Proofs.Registration
import ScriptDebug.Proofs.Resume

/-!
# The client's picture of the registry

The client hears of the executions that come and go. A notice is made after the registry has
changed, so that those of two threads may cross. When all calls are over, the client logic has been
told of every context as it should (`registered_iff_told`); but a client that goes by the last
notice of a handle may still see an execution that is registered no more
(`Rehearsal.notices_cross`).
-/

namespace ScriptDebug

namespace Debugger

variable {S : Setup} {d : Debugger S} {σ : Schedule} {c : ContextId} {k n : Nat} {t : ThreadId}
  {call : LogicCall} {as : List (Action S)}

theorem Issues.told_of_idle (hi : d.Issues σ k t c call as) (hkn : k < n)
    (hidle : ((d.instant σ n).thread t).agenda = []) : ∃ m < n, d.Tells σ m c call := by
  rcases keeps_or_does hi.agenda_next (Nat.succ_le_of_lt hkn) with
    hk | ⟨m, hkm, hmn, hk, hdoes⟩
  · obtain ⟨pre, hn⟩ := hk n (Nat.succ_le_of_lt hkn) (Nat.le_refl n)
    rw [hidle] at hn
    exact absurd hn (by simp)
  · exact ⟨m, hmn, k, t, as, hi, hkm, hk, hdoes⟩

/-- **When all calls are over,** the registered contexts are those that the client logic was told
of, and not told that they were removed. -/
theorem registered_iff_told (hd : d.Initial)
    (hidle : ∀ t, ((d.instant σ n).thread t).agenda = []) :
    c ∈ (d.instant σ n).registered ↔
      (∃ m < n, d.Introduces σ m c) ∧ ¬ ∃ m < n, d.Withdraws σ m c := by
  rw [registered_iff hd]
  refine and_congr ⟨?_, ?_⟩ (not_congr ⟨?_, ?_⟩)
  · rintro ⟨k, hkn, t, h, name, rest, hr⟩
    obtain ⟨m, hmn, htells⟩ := (Issues.added hr).told_of_idle hkn (hidle t)
    exact ⟨m, hmn, h, name, htells⟩
  · rintro ⟨m, hmn, h, name, k, t, as, hi, hm⟩
    cases hi with
    | added hr => exact ⟨k, Nat.lt_trans hm.before hmn, t, h, name, _, hr⟩
  · rintro ⟨k, hkn, t, h, rest, hr⟩
    obtain ⟨x, hx⟩ := hr.context hd
    obtain ⟨m, hmn, htells⟩ := (Issues.removed hr hx).told_of_idle hkn (hidle t)
    exact ⟨m, hmn, h, x.name, htells⟩
  · rintro ⟨m, hmn, h, name, k, t, as, hi, hm⟩
    cases hi with
    | removed hr hx => exact ⟨k, Nat.lt_trans hm.before hmn, t, h, _, hr⟩

end Debugger

namespace Rehearsal

open Debugger (Turn Schedule)
open Protocol (Notice)

/-- The texts that were sent, the last one first. -/
def sent (d : Debugger (Protocol.setup host ledger)) : List String := d.sink

/-- **Picture.** After some texts, the last one first, a client sees an execution when a text tells
that it came, and no later one that it went. -/
def Pictured (h : Handle) : List String → Prop
  | [] => False
  | text :: older =>
    (∃ name, text = (Notice.added h name).json.text) ∨
      Pictured h older ∧ ¬ ∃ name, text = (Notice.removed h name).json.text

/-- An execution is registered, and another thread takes it out of the registry before the client is
told that it was there. -/
def crossing : Schedule := .ofTurns <|
  .call 0 (.start ⟨1⟩ "a") :: .step 0 :: .call 1 (.stop ⟨1⟩) :: .replicate 12 (.step 1) ++
  .replicate 9 (.step 0)

theorem crossing_call {n : Nat} {t : ThreadId} {op : Operation} (h : crossing n = .call t op) :
    op = .start ⟨1⟩ "a" ∨ op = .stop ⟨1⟩ := by
  rcases Schedule.ofTurns_mem _ n with hmem | hmem
  · have hn : crossing n ∈ _ := hmem
    rw [h] at hn
    simp only [List.mem_cons, List.mem_append, List.mem_replicate] at hn
    grind
  · have hn : crossing n = .step 0 := hmem
    rw [h] at hn
    cases hn

theorem crossing_idle (t : ThreadId) :
    ((attendedDebugger.instant crossing 24).thread t).agenda = [] :=
  Debugger.idle_of_all (by decide +kernel) t

/-- **Notices cross.** When all calls are over, the last notice of a handle may tell of a context
that came and is gone. -/
theorem notices_cross : ¬ ∀ σ : Schedule,
    (∀ n t op, σ n = .call t op → (∃ h name, op = .start h name) ∨ ∃ h, op = .stop h) →
    ∀ n, (∀ t, ((attendedDebugger.instant σ n).thread t).agenda = []) → ∀ h,
      Pictured h (sent (attendedDebugger.instant σ n)) ↔
        ((attendedDebugger.instant σ n).lookup h).isSome := by
  intro hall
  have hpicture := hall crossing
    (fun n t op hcall => (crossing_call hcall).imp (fun hop => ⟨_, _, hop⟩) fun hop => ⟨_, hop⟩)
    24 crossing_idle ⟨1⟩
  have hsent : sent (attendedDebugger.instant crossing 24) =
      [(Notice.added ⟨1⟩ "a").json.text, (Notice.removed ⟨1⟩ "a").json.text] := by decide +kernel
  have hgone : ((attendedDebugger.instant crossing 24).lookup ⟨1⟩).isSome = false := by
    decide +kernel
  rw [hsent, hgone] at hpicture
  exact absurd (hpicture.1 (.inl ⟨"a", rfl⟩)) Bool.false_ne_true

end Rehearsal

end ScriptDebug
