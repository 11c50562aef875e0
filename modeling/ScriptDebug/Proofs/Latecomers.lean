import ScriptDebug.Proofs.Picture

/-!
# Notices of a pause that come late

A hook looks its context up before it waits for the dispatch lock. So a removal may come in between,
and the client hears of a pause in a context of which it was told that it is gone
(`Rehearsal.removed_before_paused`). But no hook finds the context after its removal
(`decide_of_later`), and a hit tells the client once (`Attended.told_or_over`); so of each context
there is at most one such notice, of a hit that was under way at the removal
(`Attended.late_notice`).
-/

namespace ScriptDebug

namespace Debugger

section Setup

variable {S : Setup} {d : Debugger S} {σ : Schedule} {c : ContextId} {rest : List (Action S)}
  {t u : ThreadId} {h : Handle} {ev : Hook.Event} {k m n : Nat}

theorem decide_of_succ (hc : c ∉ (d.instant σ n).registered)
    (hmem : .decide c ev ∈ ((d.instant σ (n + 1)).thread u).agenda) :
    .decide c ev ∈ ((d.instant σ n).thread u).agenda := by
  rcases thread_succ d σ n u with h | ⟨-, op, -, h⟩ | ⟨a, rest, hdoes⟩
  · rw [← h]
    exact hmem
  · rw [h] at hmem
    simp at hmem
  · obtain ⟨e, todo, ans, hact, -, hself⟩ := hdoes.next
    rw [hself] at hmem
    rw [hdoes.agenda]
    rcases List.mem_append.1 hmem with hmem | hmem
    · obtain ⟨⟨x, hx⟩, -⟩ := (act_leads hact).found_of_decide hmem
      exact absurd (mem_registered.2 ⟨x, Ascending.mem_of_get? hx⟩) hc
    · exact List.mem_cons_of_mem _ hmem

theorem Removes.not_registered_of_later (hr : d.Removes σ k c t h rest) (hd : d.Initial)
    (hkm : k < m) : c ∉ (d.instant σ m).registered := by
  obtain ⟨x, hx⟩ := hr.context hd
  obtain ⟨y, hy, -⟩ := context_of_later (Nat.le_succ k) hx
  exact fun hc => hr.not_registered hd (registered_of_later hkm hy hc)

/-- **No hook finds a removed context.** Who decides about it then was about to before. -/
theorem decide_of_later (hd : d.Initial) (hr : d.Removes σ k c t h rest) (hkm : k < m) (hmn : m ≤ n)
    (hmem : .decide c ev ∈ ((d.instant σ n).thread u).agenda) :
    .decide c ev ∈ ((d.instant σ m).thread u).agenda := by
  induction hmn with
  | refl => exact hmem
  | @step n hmn ih =>
    exact ih (decide_of_succ (hr.not_registered_of_later hd (Nat.lt_of_lt_of_le hkm hmn)) hmem)

end Setup

variable {host : Host} {sink : Sink} {d d' : Debugger (Protocol.setup host sink)} {σ : Schedule}
  {f : Handle → ThreadId} {c : ContextId} {ev ev' : Hook.Event} {t u u' : ThreadId} {h : Handle}
  {rest : List (Action (Protocol.setup host sink))} {k m m' n : Nat}

/-- After its notice a hit goes on, or it is over. -/
theorem Attended.told_or_over (ha : d.Attended σ f) (hs : (d.instant σ n).step u = some d')
    (htold : Told c ((d.instant σ n).thread u) ∨ ∃ ev, (d.instant σ n).Announces u c ev) :
    Told c (d'.thread u) ∨ ∀ ev, .decide c ev ∉ (d'.thread u).agenda := by
  have hmem : ∃ ev, .decide c ev ∈ ((d.instant σ n).thread u).agenda :=
    htold.elim (fun htold => htold.decide_mem) fun ⟨ev, hann⟩ => ⟨ev, hann.decide_mem⟩
  obtain ⟨ev, hmem⟩ := hmem
  obtain ⟨y, -, ⟨a, more, todo, rest, ans, told, told', hth, hstage, hself, hs', hnext⟩ |
    ⟨rest, b, -, hnone⟩⟩ := ha.hit_step hs hmem
  · refine .inl ?_
    rw [hself]
    refine (told_iff hs').2 (hnext.2 ?_)
    rcases htold with htold | ⟨ev', text, rest', -, -, hag, -⟩
    · rw [hth] at htold
      exact .inl ((told_iff hstage).1 htold)
    · rw [hth] at hag
      exact .inr ⟨text, (List.cons_eq_cons.1 hag).1⟩
  · exact .inr (hnone c)

/-- Between the removal of a context and a second notice, the hit of the first one is not over. -/
theorem Attended.told_or_over_of_later (ha : d.Attended σ f) (hr : d.Removes σ k c t h rest)
    (hkm : k < m) (hturn : σ m = .step u) (hann : (d.instant σ m).Announces u c ev) (hmn : m < n) :
    Told c ((d.instant σ n).thread u) ∨ ∀ ev, .decide c ev ∉ ((d.instant σ n).thread u).agenda := by
  induction hmn with
  | refl =>
    obtain ⟨d', hs⟩ := hann.step
    rw [instant_of_step hturn hs]
    exact ha.told_or_over hs (.inr ⟨ev, hann⟩)
  | @step n hmn ih =>
    rcases ih with htold | hover
    · by_cases hn : σ n = .step u
      · cases hs : (d.instant σ n).step u with
        | none =>
          rw [instant_of_stuck hn hs]
          exact .inl htold
        | some d' =>
          rw [instant_of_step hn hs]
          exact ha.told_or_over hs (.inl htold)
      · rw [instant_succ]
        exact .inl ((told_take_ne hn).2 htold)
    · have hkn : k < n := Nat.lt_trans hkm hmn
      exact .inr fun ev hmem =>
        hover ev (decide_of_succ (hr.not_registered_of_later ha.initial hkn) hmem)

theorem Attended.decide_of_announces (ha : d.Attended σ f) (hr : d.Removes σ k c t h rest)
    (hkm : k < m) (hmn : m ≤ n) (hann : (d.instant σ n).Announces u c ev) :
    .decide c ev ∈ ((d.instant σ m).thread u).agenda :=
  decide_of_later ha.initial hr hkm hmn hann.decide_mem

/-- After a late notice there is no other. -/
theorem Attended.not_announces_of_late (ha : d.Attended σ f) (hr : d.Removes σ k c t h rest)
    (hkm : k < m) (hturn : σ m = .step u) (hann : (d.instant σ m).Announces u c ev) (hmn : m < n) :
    ¬ (d.instant σ n).Announces u' c ev' := by
  intro hlate
  obtain rfl : u' = u :=
    ha.hit_unique (ha.decide_of_announces hr hkm (Nat.le_of_lt hmn) hlate) hann.decide_mem
  rcases ha.told_or_over_of_later hr hkm hturn hann hmn with htold | hover
  · obtain ⟨d', hs⟩ := hlate.step
    cases ha.progress c hs with
    | tells _ _ _ hbefore _ => exact hbefore htold
    | decides hann _ _ _ => exact hann ⟨ev', hlate⟩
    | neither hann _ _ _ => exact hann ⟨ev', hlate⟩
  · exact hover ev' hlate.decide_mem

/-- **Late notices.** After the removal of a context, the client is told of a pause in it at one
turn at most, and only for a hit that had found the context before. -/
theorem Attended.late_notice (ha : d.Attended σ f) (hr : d.Removes σ k c t h rest) :
    (∀ m u ev, k < m → (d.instant σ m).Announces u c ev →
      .decide c ev ∈ ((d.instant σ (k + 1)).thread u).agenda) ∧
    ∀ m m' u u' ev ev', k < m → k < m' → σ m = .step u → σ m' = .step u' →
      (d.instant σ m).Announces u c ev → (d.instant σ m').Announces u' c ev' → m = m' := by
  refine ⟨fun m u ev hkm hann => ha.decide_of_announces hr (Nat.lt_succ_self k) hkm hann,
    fun m m' u u' ev ev' hkm hkm' hturn hturn' hann hann' => ?_⟩
  rcases Nat.lt_trichotomy m m' with hlt | heq | hlt
  · exact absurd hann' (ha.not_announces_of_late hr hkm hturn hann hlt)
  · exact heq
  · exact absurd hann (ha.not_announces_of_late hr hkm' hturn' hann' hlt)

end Debugger

namespace Rehearsal

open Debugger (Turn Schedule)
open Protocol (Notice)

/-- The first execution is registered and calls `f`; when its hook has found the context, the
execution is taken out of the registry and the client is told; then the hook goes on. -/
def overtaken : Schedule := .ofTurns <|
  .call 0 (.start ⟨1⟩ "a") :: .replicate 11 (.step 0) ++
  .call 1 (.hook ⟨1⟩ callOfF) :: .replicate 2 (.step 1) ++
  .call 0 (.stop ⟨1⟩) :: .replicate 10 (.step 0) ++ .replicate 5 (.step 1)

theorem overtaken_call {n : Nat} {t : ThreadId} {op : Operation} (h : overtaken n = .call t op) :
    op = .start ⟨1⟩ "a" ∨ op = .stop ⟨1⟩ ∨ t = 1 ∧ op = .hook ⟨1⟩ callOfF := by
  rcases Schedule.ofTurns_mem _ n with hmem | hmem
  · have hn : overtaken n ∈ _ := hmem
    rw [h] at hn
    simp only [List.mem_cons, List.mem_append, List.mem_replicate] at hn
    grind
  · have hn : overtaken n = .step 0 := hmem
    rw [h] at hn
    cases hn

theorem overtaken_attended : attendedDebugger.Attended overtaken fun _ => 1 := by
  refine attended_of_calls (fun n t h r hcall => ?_) (fun n t h r hcall => ?_)
    fun n t h r hcall => ?_
  · rcases overtaken_call hcall with hop | hop | ⟨rfl, -⟩
    · cases hop
    · cases hop
    · rfl
  · rcases overtaken_call hcall with hop | hop | ⟨-, hop⟩ <;> cases hop
  · rcases overtaken_call hcall with hop | hop | ⟨-, hop⟩ <;> cases hop

theorem sent_of_begin {d : Debugger (Protocol.setup host ledger)} {t : ThreadId} {text : String}
    {rest : List (Action (Protocol.setup host ledger))}
    (hag : (d.thread t).agenda = .begin (.send text) :: rest) :
    sent (d.take (.step t)) = text :: sent d := by
  simp only [Debugger.take, Debugger.step, hag]
  rfl

/-- **A pause after the removal.** In a run with one registration, the client may be told of a pause
after it was told of the removal. -/
theorem removed_before_paused : ¬ ∀ σ : Schedule,
    (∀ n t op, σ n = .call t op →
      (∃ h name, op = .start h name) ∨ (∃ h, op = .stop h) ∨ t = 1 ∧ ∃ h r, op = .hook h r) →
    ∀ n, (attendedDebugger.instant σ n).contexts.length = 1 → ∀ h name b e newer older,
      sent (attendedDebugger.instant σ n) = newer ++ (Notice.removed h name).json.text :: older →
      (Notice.paused h name b e).json.text ∉ newer := by
  intro hall
  -- all is told but the pause
  have hbefore : sent (attendedDebugger.instant overtaken 30) =
      [(Notice.removed ⟨1⟩ "a").json.text, (Notice.added ⟨1⟩ "a").json.text] := by decide +kernel
  obtain ⟨_, _, htelling, hmem⟩ := telling_eq
    (x := (attendedDebugger.instant overtaken 30).thread 1) (by decide +kernel)
  obtain ⟨text, rest, y, b, hag, -, hy, htext⟩ :=
    Debugger.Announces.of_decide_mem overtaken_attended htelling hmem
  obtain rfl : y = ⟨⟨1⟩, "a", .running, none, true, []⟩ :=
    Option.some.inj (hy.symm.trans (by decide +kernel))
  have hsent : sent (attendedDebugger.instant overtaken 31) = [text] ++
      (Notice.removed ⟨1⟩ "a").json.text :: [(Notice.added ⟨1⟩ "a").json.text] := by
    rw [Debugger.instant_succ]
    exact (sent_of_begin hag).trans (congrArg (text :: ·) hbefore)
  refine hall overtaken (fun n t op hcall => ?_) 31 (by decide +kernel) _ _ b _ _ _ hsent
    (List.mem_singleton.2 htext.symm)
  rcases overtaken_call hcall with rfl | rfl | ⟨rfl, rfl⟩
  · exact .inl ⟨_, _, rfl⟩
  · exact .inr (.inl ⟨_, rfl⟩)
  · exact .inr (.inr ⟨rfl, _, _, rfl⟩)

end Rehearsal

end ScriptDebug
