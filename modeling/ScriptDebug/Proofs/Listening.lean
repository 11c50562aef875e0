import ScriptDebug.Proofs.Handler
import ScriptDebug.Proofs.Visits
import ScriptDebug.Rehearsal.Host

/-!
# Listening and the holder of the slot

The server turns listening on as it admits a client, and off as the visit ends. The flag shows the
last of these stores (`lastStore`), and so it does not always show whether a client holds the slot:
a client whose thread could not be made leaves it on, and so does the end of the server while the
client is served; and the end of a visit turns it off under a client that came in the meantime. With
no client coming or going, these are the only ways in which the two part.
-/

namespace ScriptDebug

namespace Debugger

variable {S : Setup} {d d' : Debugger S} {t u : ThreadId} {last ans : Answer} {a : Action S}
  {todo : List (Action S)}

/-- Nothing under way sets whether hook events are looked at. -/
def Unset (d : Debugger S) : Prop := ∀ t on, .begin (.setListening on) ∉ (d.thread t).agenda

theorem act_listening (h : d.act t last a = some (d', todo, ans))
    (ha : ∀ on, a ≠ .begin (.setListening on)) : d'.listening = d.listening := by
  cases act_yields h with
  | listen on => exact absurd rfl (ha on)
  | _ => rfl

theorem Leads.setListening {on : Bool} (h : d.Leads a todo)
    (hmem : .begin (.setListening on) ∈ todo) :
    ∃ p s last next, (S.logic.step s p last).2 = .use (.setListening on) next := by
  rcases h.begin hmem with
    ⟨x, name, -, hop⟩ | ⟨x, -, hop⟩ | ⟨code, x, report, -, hop⟩ | ⟨p, s, last, next, -, hu⟩
  · cases hop
  · cases hop
  · cases hop
  · exact ⟨p, s, last, next, hu⟩

theorem Unset.listening_take (h : d.Unset) (turn : Turn) :
    (d.take turn).listening = d.listening := by
  rcases take_cases d turn with heq | ⟨t, d', -, hs, heq⟩ | ⟨t, op, -, -, -, heq⟩ |
    ⟨t, c, x, -, -, heq⟩ <;> rw [heq]
  · obtain ⟨a, rest, e, todo, ans, hag, hact, rfl, -⟩ := step_cases hs
    have hflag : e.listening = d.listening := by
      refine act_listening hact fun on ha => h t on ?_
      rw [hag, ha]
      exact List.mem_cons_self
    exact hflag
  · rfl
  · rfl

end Debugger

namespace Server

variable {host : Host} {logic : Logic} {s s' : Server host logic} {es pre post : List Event}
  {e : Event} {c k : ConnectionId} {v w : Visit} {t : ThreadId} {st last : Option Store}

/-! ## The last store -/

/-- The last store of the flag in a run. -/
def lastStore (s : Server host logic) : List Event → Option Store
  | [] => none
  | e :: es => ((s.step e).lastStore es).or (s.store? e)

theorem lastStore_concat (s : Server host logic) (es : List Event) (e : Event) :
    s.lastStore (es ++ [e]) = ((s.run es).store? e).or (s.lastStore es) := by
  induction es generalizing s with
  | nil =>
    show (none : Option Store).or (s.store? e) = (s.store? e).or none
    rw [Option.none_or, Option.or_none]
  | cons a es ih =>
    show ((s.step a).lastStore (es ++ [e])).or (s.store? a) = _
    rw [ih, Option.or_assoc]
    rfl

/-- **Undisturbed.** Nobody but the server sets whether hook events are looked at. -/
structure Undisturbed (logic : Logic) (es : List Event) : Prop where
  calls : ∀ t on, .turn (.call t (.setListening on)) ∉ es
  uses : ∀ st p last on next, (logic.step st p last).2 ≠ .use (.setListening on) next

theorem Undisturbed.mono (h : Undisturbed logic es) (hsub : ∀ e ∈ pre, e ∈ es) :
    Undisturbed logic pre :=
  ⟨fun t on hmem => h.calls t on (hsub _ hmem), h.uses⟩

/-- Where nobody but the server sets the flag, nobody comes to be about to. -/
theorem Moves.unset (hm : Moves s e st s') (h : s.debugger.Unset)
    (huses : ∀ st p last on next, (logic.step st p last).2 ≠ .use (.setListening on) next)
    (he : ∀ t on, e ≠ .turn (.call t (.setListening on))) : s'.debugger.Unset := by
  intro t on hmem
  rcases hm.agenda t with hag | ⟨op, -, hag, hop⟩ | ⟨-, hs⟩
  · rw [hag] at hmem
    exact h t on hmem
  · rw [hag] at hmem
    obtain rfl := (Action.begin.inj (List.mem_singleton.1 hmem)).symm
    rcases hop with ⟨text, hop⟩ | hop | hop
    · cases hop
    · cases hop
    · exact he t on hop
  · obtain ⟨a, rest, d, todo, ans, hag, hact, -, hself, -⟩ := Debugger.step_cases hs
    rw [hself] at hmem
    rcases List.mem_append.1 hmem with hmem | hmem
    · obtain ⟨p, st, last, next, hu⟩ := (Debugger.act_leads hact).setListening hmem
      exact huses st p last on next hu
    · exact h t on (by rw [hag]; exact List.mem_cons_of_mem _ hmem)

/-- Whether a visit has turned listening on and not yet turned it off. -/
def Stage.heard : Stage → Bool
  | .claim | .listen | .sweep => false
  | _ => true

/-- Whether a visit may be there before any store. -/
def Stage.unheard : Stage → Bool
  | .claim | .listen | .over => true
  | _ => false

/-- Whether a visit has turned listening off. -/
def Stage.ended : Stage → Bool
  | .sweep | .over => true
  | _ => false

theorem Stage.atGate_of_holds {stage : Stage} (h : stage.holds = true)
    (hu : stage.unheard = true) : stage.atGate = true := by
  cases stage with
  | listen => rfl
  | spawn | read | dispatch | release => cases hu
  | _ => cases h

theorem Stage.ended_of_holds {stage : Stage} (h : stage.holds = true) : stage.ended = false := by
  cases stage <;> simp [holds] at h <;> rfl

/-- **Heard.** What the last store says of the server. -/
structure Heard (s : Server host logic) (last : Option Store) : Prop where
  tidy : s.Tidy
  unset : s.debugger.Unset
  policy : s.breakWithoutClient = false
  /-- The flag is on exactly after an admission, -/
  flag : s.debugger.listening = true ↔ ∃ c, last = some (.admission c)
  /-- whose visit has not set it since. -/
  admitted : ∀ c, last = some (.admission c) → ∃ v : Visit, s.visits[c]? = some v ∧
    v.stage.heard = true
  /-- Another holder of the slot is about to be admitted. -/
  present : ∀ c k, last = some (.admission c) → s.holder = some k →
    k = c ∨ ∃ v : Visit, s.visits[k]? = some v ∧ v.stage = .listen
  /-- A visit that has set it off is at its end. -/
  ended : ∀ c, last = some (.teardown c) → ∃ v : Visit, s.visits[c]? = some v ∧ v.stage.ended = true
  /-- Before the first store no visit has been admitted. -/
  first : last = none → ∀ (c : ConnectionId) (v : Visit), s.visits[c]? = some v →
    v.stage.unheard = true

theorem Initial.heard (h : s.Initial) : s.Heard none where
  tidy := h.tidy
  unset := h.unset
  policy := h.policy
  flag := by
    rw [h.silent]
    exact ⟨fun h => (nomatch h), fun ⟨c, hc⟩ => (nomatch hc)⟩
  admitted c hc := nomatch hc
  present c k hc := nomatch hc
  ended c hc := nomatch hc
  first _ c v hv := by
    rw [h.visits] at hv
    cases hv

theorem Heard.proceed (hh : s.Heard last) (ht : s'.Tidy) (hv : s.visits[c]? = some v)
    {f : Visit → Visit} (hvisits : s'.visits = s.visits.modify c f) (hunset : s'.debugger.Unset)
    (hpolicy : s'.breakWithoutClient = s.breakWithoutClient)
    (hflag : s'.debugger.listening = s.debugger.listening)
    (hholder : ∀ k, s'.holder = some k → s.holder = some k ∨ k = c ∧ (f v).stage = .listen)
    (hheard : v.stage.heard = true → (f v).stage.heard = true)
    (hended : v.stage.ended = true → (f v).stage.ended = true)
    (hunheard : v.stage.unheard = true → (f v).stage.unheard = true)
    (hstage : v.stage ≠ .listen) : s'.Heard last where
  tidy := ht
  unset := hunset
  policy := hpolicy.trans hh.policy
  flag := by
    rw [hflag]
    exact hh.flag
  admitted k hk := by
    obtain ⟨w, hw, hwh⟩ := hh.admitted k hk
    rw [hvisits]
    by_cases hkc : k = c
    · subst hkc
      obtain rfl : w = v := Option.some.inj (hw.symm.trans hv)
      exact ⟨f w, modify_self hv, hheard hwh⟩
    · exact ⟨w, (modify_ne hkc).trans hw, hwh⟩
  present k m hk hm := by
    rw [hvisits]
    rcases hholder m hm with hm | ⟨rfl, hl⟩
    · rcases hh.present k m hk hm with h | ⟨w, hw, hwl⟩
      · exact .inl h
      · have hmc : m ≠ c := by
          rintro rfl
          obtain rfl : w = v := Option.some.inj (hw.symm.trans hv)
          exact hstage hwl
        exact .inr ⟨w, (modify_ne hmc).trans hw, hwl⟩
    · exact .inr ⟨f v, modify_self hv, hl⟩
  ended k hk := by
    obtain ⟨w, hw, hwe⟩ := hh.ended k hk
    rw [hvisits]
    by_cases hkc : k = c
    · subst hkc
      obtain rfl : w = v := Option.some.inj (hw.symm.trans hv)
      exact ⟨f w, modify_self hv, hended hwe⟩
    · exact ⟨w, (modify_ne hkc).trans hw, hwe⟩
  first hnone k w hw := by
    rw [hvisits] at hw
    rcases modify_cases hv hw with ⟨-, hk⟩ | ⟨rfl, rfl⟩
    · exact hh.first hnone k w hk
    · exact hunheard (hh.first hnone k v hv)

theorem Heard.congr (hh : s.Heard last) (ht : s'.Tidy) (hunset : s'.debugger.Unset)
    (hpolicy : s'.breakWithoutClient = s.breakWithoutClient)
    (hflag : s'.debugger.listening = s.debugger.listening)
    (hholder : ∀ k, s'.holder = some k → s.holder = some k)
    (hvisits : s'.visits = s.visits ∨ s'.visits = s.visits ++ [({} : Visit)]) : s'.Heard last := by
  have hkeep : ∀ (k : ConnectionId) (w : Visit), s.visits[k]? = some w →
      s'.visits[k]? = some w := by
    intro k w hw
    rcases hvisits with h | h <;> rw [h]
    · exact hw
    · rw [List.getElem?_append_left (List.getElem?_eq_some_iff.1 hw).1]
      exact hw
  refine ⟨ht, hunset, hpolicy.trans hh.policy, by rw [hflag]; exact hh.flag, fun k hk => ?_,
    fun k m hk hm => ?_, fun k hk => ?_, fun hnone k w hw => ?_⟩
  · obtain ⟨w, hw, hwh⟩ := hh.admitted k hk
    exact ⟨w, hkeep k w hw, hwh⟩
  · exact (hh.present k m hk (hholder m hm)).imp_right fun ⟨w, hw, hwl⟩ => ⟨w, hkeep m w hw, hwl⟩
  · obtain ⟨w, hw, hwe⟩ := hh.ended k hk
    exact ⟨w, hkeep k w hw, hwe⟩
  · rcases hvisits with h | h <;> rw [h] at hw
    · exact hh.first hnone k w hw
    · rcases concat_cases hw with hw | ⟨-, rfl⟩
      · exact hh.first hnone k w hw
      · rfl

theorem Heard.listen (hh : s.Heard last) (ht : s'.Tidy) {o : Option ThreadId}
    (hv : s.visits[c]? = some ⟨.listen, o⟩)
    (hvisits : s'.visits = s.visits.modify c fun v => { v with stage := .spawn })
    (hunset : s'.debugger.Unset) (hpolicy : s'.breakWithoutClient = s.breakWithoutClient)
    (hflag : s'.debugger.listening = true) (hholder : s'.holder = s.holder) :
    s'.Heard (some (.admission c)) where
  tidy := ht
  unset := hunset
  policy := hpolicy.trans hh.policy
  flag := ⟨fun _ => ⟨c, rfl⟩, fun _ => hflag⟩
  admitted k hk := by
    obtain rfl : c = k := Store.admission.inj (Option.some.inj hk)
    rw [hvisits]
    exact ⟨_, modify_self hv, rfl⟩
  present k m hk hm := by
    obtain rfl : c = k := Store.admission.inj (Option.some.inj hk)
    have hc : s.holder = some c := (hh.tidy.kept c _ hv rfl).resolve_right fun h => (nomatch h.2)
    rw [hholder, hc] at hm
    exact .inl (Option.some.inj hm).symm
  ended k hk := nomatch hk
  first hnone := nomatch hnone

theorem Heard.quiet (hh : s.Heard last) (ht : s'.Tidy) (hv : s.visits[c]? = some v)
    (hvisits : s'.visits = s.visits.modify c fun v => { v with stage := .sweep })
    (hunset : s'.debugger.Unset)
    (hpolicy : s'.breakWithoutClient = s.breakWithoutClient)
    (hflag : s'.debugger.listening = s.breakWithoutClient) : s'.Heard (some (.teardown c)) where
  tidy := ht
  unset := hunset
  policy := hpolicy.trans hh.policy
  flag := by
    rw [hflag, hh.policy]
    exact ⟨fun h => (nomatch h), fun ⟨k, hk⟩ => (nomatch hk)⟩
  admitted k hk := nomatch hk
  present k m hk := nomatch hk
  ended k hk := by
    obtain rfl : c = k := Store.teardown.inj (Option.some.inj hk)
    rw [hvisits]
    exact ⟨_, modify_self hv, rfl⟩
  first hnone := nomatch hnone

theorem Heard.moves (hh : s.Heard last)
    (huses : ∀ st p last on next, (logic.step st p last).2 ≠ .use (.setListening on) next)
    (he : ∀ t on, e ≠ .turn (.call t (.setListening on))) (hm : Moves s e st s') :
    s'.Heard (st.or last) := by
  have ht := hh.tidy.moves hm
  have hu := hm.unset hh.unset huses he
  cases hm with
  | stay => exact hh
  | accept x hgate hfree => exact hh.congr ht hu rfl rfl (fun _ h => h) (.inr rfl)
  | claim b hv hfree =>
    refine hh.proceed ht hv rfl hu rfl rfl (fun k hk => .inr ⟨?_, rfl⟩) (fun h => nomatch h)
      (fun h => nomatch h) (fun _ => rfl) (by simp)
    exact (Option.some.inj hk).symm
  | refuse b hv _ =>
    exact hh.proceed ht hv rfl hu rfl rfl (fun _ h => .inl h) (fun h => nomatch h)
      (fun h => nomatch h) (fun _ => rfl) (by simp)
  | listen b hv => exact hh.listen ht hv rfl hu rfl rfl rfl
  | spawn hv =>
    exact hh.proceed ht hv rfl hu rfl rfl (fun _ h => .inl h) (fun _ => rfl) (fun h => nomatch h)
      (fun h => nomatch h) (by simp)
  | fail hv =>
    refine hh.proceed ht hv rfl hu rfl rfl (fun k hk => ?_) (fun _ => rfl)
      (fun h => nomatch h) (fun h => nomatch h) (by simp)
    have hnone : _ = none := holder_close s.slot
    exact absurd (hnone.symm.trans hk) (by simp)
  | @pass c t b text slot hv hslot =>
    exact hh.proceed ht hv rfl hu rfl rfl
      (fun k hk => .inl (hslot.symm.trans hk)) (fun _ => rfl) (fun h => nomatch h)
      (fun h => nomatch h) (by simp)
  | drop b slot hv hslot =>
    exact hh.congr ht hu rfl rfl (fun k hk => hslot.symm.trans hk) (.inl rfl)
  | lose b slot hv hslot =>
    exact hh.proceed ht hv rfl hu rfl rfl (fun k hk => .inl (hslot.symm.trans hk)) (fun _ => rfl)
      (fun h => nomatch h) (fun h => nomatch h) (by simp)
  | answered b hv _ =>
    exact hh.proceed ht hv rfl hu rfl rfl (fun _ h => .inl h) (fun _ => rfl) (fun h => nomatch h)
      (fun h => nomatch h) (by simp)
  | @release c o b hv =>
    refine hh.proceed ht hv rfl hu rfl rfl (fun k hk => ?_) (fun _ => rfl)
      (fun h => nomatch h) (fun h => nomatch h) (by simp)
    rcases holder_release s.slot c with ⟨-, hnone⟩ | ⟨-, hsame⟩
    · exact absurd (hnone.symm.trans hk) (by simp)
    · exact .inl (hsame.symm.trans hk)
  | shut b hv =>
    exact hh.proceed ht hv rfl hu rfl rfl (fun _ h => .inl h) (fun _ => rfl) (fun h => nomatch h)
      (fun h => nomatch h) (by simp)
  | @quiet c t b hv => exact hh.quiet ht hv rfl hu rfl rfl
  | finish b hv _ =>
    exact hh.proceed ht hv rfl hu rfl rfl (fun _ h => .inl h) (fun h => nomatch h)
      (fun _ => rfl) (fun h => nomatch h) (by simp)
  | closing hgate hfree => exact hh.congr ht hu rfl rfl (fun _ h => h) (.inl rfl)
  | close hgate =>
    refine hh.congr ht hu rfl rfl (fun k hk => ?_) (.inl rfl)
    have hnone : _ = none := holder_close s.slot
    exact absurd (hnone.symm.trans hk) (by simp)
  | turn turn _ =>
    refine hh.congr ht hu rfl (hh.unset.listening_take turn) (fun k hk => ?_) (.inl rfl)
    exact (holder_take s.debugger turn).symm.trans hk

theorem Initial.heard_run (h : s.Initial) (hu : Undisturbed logic es) :
    (s.run es).Heard (s.lastStore es) := by
  refine run_invariant (P := fun es s' => s'.Heard (s.lastStore es)) h.heard fun pre e _ he hh => ?_
  rw [lastStore_concat]
  exact hh.moves hu.uses (fun t on h => hu.calls t on (h ▸ he)) (step_moves (s.run pre) e)

/-! ## The three ways in which the flag and the slot part -/

theorem Moves.over (hm : Moves s e st s') (hv : s'.visits[c]? = some v) (hover : v.stage = .over) :
    (∃ w : Visit, s.visits[c]? = some w ∧
        (w.stage = .over ∨ w.stage = .claim ∨ w.stage = .sweep)) ∨
      ∃ o, e = .advance c false ∧ s.visits[c]? = some ⟨.spawn, o⟩ := by
  have hkeep : s.visits[c]? = some v → ∃ w : Visit, s.visits[c]? = some w ∧
      (w.stage = .over ∨ w.stage = .claim ∨ w.stage = .sweep) := fun h => ⟨v, h, .inl hover⟩
  -- the visits that do not come to their end
  have hother : ∀ {k : ConnectionId} {w : Visit} {f : Visit → Visit}, s.visits[k]? = some w →
      s'.visits = s.visits.modify k f → (f w).stage ≠ .over → s.visits[c]? = some v := by
    intro k w f hk hvisits hne
    rw [hvisits] at hv
    rcases modify_cases hk hv with ⟨-, h⟩ | ⟨rfl, rfl⟩
    · exact h
    · exact absurd hover hne
  cases hm with
  | stay | drop | closing | close | turn => exact .inl (hkeep hv)
  | accept x hgate hfree =>
    have hv : (s.visits ++ [({} : Visit)])[c]? = some v := hv
    rcases concat_cases hv with hv | ⟨-, rfl⟩
    · exact .inl (hkeep hv)
    · cases hover
  | claim b hk hfree => exact .inl (hkeep (hother hk rfl (by simp)))
  | listen b hk => exact .inl (hkeep (hother hk rfl (by simp)))
  | spawn hk => exact .inl (hkeep (hother hk rfl (by simp)))
  | pass b text slot hk hslot => exact .inl (hkeep (hother hk rfl (by simp)))
  | lose b slot hk hslot => exact .inl (hkeep (hother hk rfl (by simp)))
  | answered b hk _ => exact .inl (hkeep (hother hk rfl (by simp)))
  | release b hk => exact .inl (hkeep (hother hk rfl (by simp)))
  | shut b hk => exact .inl (hkeep (hother hk rfl (by simp)))
  | quiet b hk => exact .inl (hkeep (hother hk rfl (by simp)))
  | refuse b hk _ =>
    rcases modify_cases hk hv with ⟨-, h⟩ | ⟨rfl, -⟩
    · exact .inl (hkeep h)
    · exact .inl ⟨_, hk, .inr (.inl rfl)⟩
  | finish b hk _ =>
    rcases modify_cases hk hv with ⟨-, h⟩ | ⟨rfl, -⟩
    · exact .inl (hkeep h)
    · exact .inl ⟨_, hk, .inr (.inr rfl)⟩
  | @fail k o hk =>
    rcases modify_cases hk hv with ⟨-, h⟩ | ⟨rfl, -⟩
    · exact .inl (hkeep h)
    · exact .inr ⟨o, rfl, hk⟩

/-- The thread of a client could not be made. -/
def SpawnFails (s : Server host logic) (es : List Event) (c : ConnectionId) : Prop :=
  ∃ pre post o, es = pre ++ .advance c false :: post ∧ (s.run pre).visits[c]? = some ⟨.spawn, o⟩

/-- An admission that is over without having turned listening off is one that failed. -/
theorem Initial.spawnFails (h : s.Initial) (hu : Undisturbed logic es) :
    ∀ (c : ConnectionId) (v : Visit), s.lastStore es = some (.admission c) →
      (s.run es).visits[c]? = some v → v.stage = .over → s.SpawnFails es c := by
  suffices hall : (s.run es).Heard (s.lastStore es) ∧ ∀ (c : ConnectionId) (v : Visit),
      s.lastStore es = some (.admission c) → (s.run es).visits[c]? = some v → v.stage = .over →
      s.SpawnFails es c from hall.2
  refine run_invariant (P := fun es s' => s'.Heard (s.lastStore es) ∧
    ∀ (c : ConnectionId) (v : Visit), s.lastStore es = some (.admission c) →
      s'.visits[c]? = some v → v.stage = .over →
    s.SpawnFails es c) ⟨h.heard, fun c v hc => nomatch hc⟩ fun pre e _ he ⟨hh, hf⟩ => ?_
  have hm := step_moves (s.run pre) e
  rw [lastStore_concat]
  refine ⟨hh.moves hu.uses (fun t on h => hu.calls t on (h ▸ he)) hm, fun c v hlast hv hover => ?_⟩
  have hnot : ∀ w : Visit, s.lastStore pre = some (.admission c) →
      (s.run pre).visits[c]? = some w → w.stage.heard = true := by
    intro w hc hw
    obtain ⟨w', hw', hheard⟩ := hh.admitted c hc
    obtain rfl : w = w' := Option.some.inj (hw.symm.trans hw')
    exact hheard
  generalize (s.run pre).store? e = st at hm hlast
  generalize (s.run pre).step e = s' at hm hv
  cases st with
  | some x =>
    obtain rfl : x = .admission c := Option.some.inj hlast
    cases hm with
    | listen b hk =>
      obtain rfl := Option.some.inj ((modify_self hk).symm.trans hv)
      cases hover
  | none =>
    have hlast : s.lastStore pre = some (.admission c) := hlast
    rcases hm.over hv hover with ⟨w, hw, hwo | hwc | hws⟩ | ⟨o, rfl, hspawn⟩
    · obtain ⟨l, r, o, rfl, hspawn⟩ := hf c w hlast hw hwo
      exact ⟨l, r ++ [e], o, by rw [List.append_assoc, List.cons_append], hspawn⟩
    · have hheard := hnot w hlast hw
      rw [hwc] at hheard
      cases hheard
    · have hheard := hnot w hlast hw
      rw [hws] at hheard
      cases hheard
    · exact ⟨pre, [], o, rfl, hspawn⟩

/-- **Failed admission.** The last client that was admitted got no thread,
and nobody holds the slot. -/
def Abandoned (s : Server host logic) (es : List Event) : Prop :=
  (s.run es).holder = none ∧ ∃ c, s.lastStore es = some (.admission c) ∧ s.SpawnFails es c

/-- **Cut off.** The server has closed the slot on the client that it still serves. -/
def CutOff (s : Server host logic) (es : List Event) : Prop :=
  (s.run es).holder = none ∧ (s.run es).gate = .closed ∧ ∃ c, s.lastStore es = some (.admission c) ∧
    ∃ v : Visit, (s.run es).visits[c]? = some v ∧ (v.stage = .read ∨ v.stage = .dispatch)

/-- **Overtaken.** A client was admitted before the visit of another one turned listening off. -/
def Overtaken (s : Server host logic) (es : List Event) : Prop :=
  ∃ c k, (s.run es).holder = some c ∧ k ≠ c ∧ s.lastStore es = some (.teardown k)

/-- A server that listens without a client has lost one at the start or cut one off at the end. -/
theorem Initial.parted_of_unheld (h : s.Initial) (hu : Undisturbed logic es)
    (hadm : (s.run es).isAdmitting = false) (htear : (s.run es).isTearingDown = false)
    (hfree : (s.run es).holder = none) (hon : (s.run es).debugger.listening = true) :
    s.Abandoned es ∨ s.CutOff es := by
  have hh := h.heard_run hu
  obtain ⟨c, hlast⟩ := hh.flag.1 hon
  obtain ⟨v, hv, hheard⟩ := hh.admitted c hlast
  have hvg := admitting_eq_false.1 hadm c v hv
  have hvd := tearing_eq_false.1 htear c v hv
  have hserved : v.stage.holds = true → (s.run es).gate = .closed := by
    intro hholds
    rcases hh.tidy.kept c v hv hholds with hc | ⟨hcl, -⟩
    · rw [hfree] at hc
      cases hc
    · exact hcl
  cases hst : v.stage with
  | read => exact .inr ⟨hfree, hserved (by rw [hst]; rfl), c, hlast, v, hv, .inl hst⟩
  | dispatch => exact .inr ⟨hfree, hserved (by rw [hst]; rfl), c, hlast, v, hv, .inr hst⟩
  | claim | listen | spawn =>
    rw [hst] at hvg
    cases hvg
  | release | shut | quiet | sweep =>
    rw [hst] at hvd
    cases hvd
  | _ => exact .inl ⟨hfree, c, hlast, h.spawnFails hu c v hlast hv hst⟩

theorem Initial.gate_run (h : s.Initial) (hstop : .stop ∉ es) : (s.run es).gate = .opened := by
  refine run_invariant (P := fun _ s' => s'.gate = .opened) h.gate fun pre e _ he hg => ?_
  have hm := step_moves (s.run pre) e
  generalize (s.run pre).step e = s' at hm
  generalize (s.run pre).store? e = st at hm
  cases hm with
  | closing | close => exact absurd he hstop
  | _ => exact hg

/-- Before it is told to stop, and where every client gets its thread,
the server does not listen without a client. -/
theorem Initial.silent_of_unheld (h : s.Initial) (hu : Undisturbed logic es)
    (hspawn : ∀ c, .advance c false ∉ es) (hstop : .stop ∉ es) (hfree : (s.run es).holder = none)
    (hadm : (s.run es).isAdmitting = false) (htear : (s.run es).isTearingDown = false) :
    (s.run es).debugger.listening = false := by
  cases hon : (s.run es).debugger.listening with
  | false => rfl
  | true =>
    rcases h.parted_of_unheld hu hadm htear hfree hon with ⟨-, c, -, pre, post, o, heq, -⟩ |
      ⟨-, hcl, -⟩
    · exact absurd (by rw [heq]; simp) (hspawn c)
    · rw [h.gate_run hstop] at hcl
      cases hcl

/-- **Listening and the slot.** Where no client is let in and no lost one is dealt with, the server
listens exactly if a client holds the slot, but for the three ways in which the two part. -/
theorem listening_iff_held (h : s.Initial) (hu : Undisturbed logic es)
    (hadm : (s.run es).isAdmitting = false) (htear : (s.run es).isTearingDown = false) :
    ((s.run es).debugger.listening = true ↔ (s.run es).holder.isSome = true) ↔
      ¬ (s.Abandoned es ∨ s.CutOff es ∨ s.Overtaken es) := by
  have hh := h.heard_run hu
  have hgate := admitting_eq_false.1 hadm
  cases hholder : (s.run es).holder with
  | none =>
    have hdone : ¬ s.Overtaken es := by
      rintro ⟨c, k, hc, -⟩
      rw [hholder] at hc
      cases hc
    constructor
    · intro hiff hpart
      have hoff : ¬ ∃ c, s.lastStore es = some (.admission c) :=
        fun hlast => absurd (hiff.1 (hh.flag.2 hlast)) (by simp)
      rcases hpart with ⟨-, c, hlast, -⟩ | ⟨-, -, c, hlast, -⟩ | hover
      · exact hoff ⟨c, hlast⟩
      · exact hoff ⟨c, hlast⟩
      · exact hdone hover
    · intro hpart
      refine ⟨fun hon => absurd ?_ hpart, fun hsome => nomatch hsome⟩
      exact (h.parted_of_unheld hu hadm htear hholder hon).imp_right .inl
  | some c =>
    have hleft : ¬ s.Abandoned es := by
      rintro ⟨hnone, -⟩
      rw [hholder] at hnone
      cases hnone
    have hcut : ¬ s.CutOff es := by
      rintro ⟨hnone, -⟩
      rw [hholder] at hnone
      cases hnone
    constructor
    · rintro hiff (hpart | hpart | ⟨-, k, -, -, hlast⟩)
      · exact hleft hpart
      · exact hcut hpart
      · obtain ⟨m, hm⟩ := hh.flag.1 (hiff.2 rfl)
        rw [hlast] at hm
        cases hm
    · intro hpart
      refine ⟨fun _ => rfl, fun _ => hh.flag.2 ?_⟩
      obtain ⟨v, hv, hholds⟩ := hh.tidy.owner c hholder
      have hvg := hgate c v hv
      cases hlast : s.lastStore es with
      | none =>
        rw [Stage.atGate_of_holds hholds (hh.first hlast c v hv)] at hvg
        cases hvg
      | some x =>
        cases x with
        | admission k => exact ⟨k, rfl⟩
        | teardown k =>
          refine absurd (.inr (.inr ⟨c, k, hholder, ?_, hlast⟩)) hpart
          rintro rfl
          obtain ⟨w, hw, hended⟩ := hh.ended k hlast
          obtain rfl : v = w := Option.some.inj (hv.symm.trans hw)
          rw [Stage.ended_of_holds hholds] at hended
          cases hended

end Server

namespace Rehearsal

open Server (Event Undisturbed)

/-- A server that waits for its first client. -/
def idleServer : Server host Protocol.logic where
  debugger :=
    { host := ({} : PlannedHost), logic := ({} : BreakpointTable), sink := ({} : Server.Slot),
      listening := false }

theorem idleServer_initial : idleServer.Initial where
  visits := rfl
  gate := rfl
  holder := rfl
  silent := rfl
  policy := rfl
  unset t on hmem := by simp [idleServer, Debugger.thread] at hmem

theorem undisturbed {es : List Event} (h : ∀ e ∈ es, ∀ t op, e ≠ .turn (.call t op)) :
    Undisturbed Protocol.logic es where
  calls t on hmem := h _ hmem t _ rfl
  uses st p last on next hu := by
    rcases Protocol.step_use hu with ⟨text, v, hop, -⟩ | ⟨hop, -⟩
    · cases hop
    · exact absurd hop (by simp [Operation.isAsked])

/-- A client is let in, but its thread cannot be made. -/
def failedSpawn : List Event :=
  [.accept {}, .advance 0 true, .advance 0 true, .advance 0 false]

/-- The server stops while it serves a client. -/
def stopped : List Event :=
  [.accept {}, .advance 0 true, .advance 0 true, .advance 0 true, .stop, .stop]

/-- A second client is let in after the first one gave the slot back, and before its visit ends. -/
def overlap : List Event :=
  [.accept {}, .advance 0 true, .advance 0 true, .advance 0 true, .advance 0 true, .advance 0 true,
    .accept {}, .advance 1 true, .advance 1 true, .advance 1 true, .advance 0 true,
    .advance 0 true] ++
  .replicate 5 (.turn (.step 0)) ++ [.advance 0 true]

/-- **Counterexample.** Not in every run does the server listen exactly if a client holds the slot:
it goes on listening after an admission that failed. -/
theorem listening_parts : ¬ ∀ es, Undisturbed Protocol.logic es →
    (idleServer.run es).isAdmitting = false → (idleServer.run es).isTearingDown = false →
      ((idleServer.run es).debugger.listening = true ↔
        (idleServer.run es).holder.isSome = true) := by
  intro h
  exact absurd (h failedSpawn (undisturbed (by simp [failedSpawn])) (by decide +kernel)
    (by decide +kernel)) (by decide +kernel)

/-- Each of the three ways is one that a server can go. -/
theorem parting_ways : idleServer.Abandoned failedSpawn ∧ idleServer.CutOff stopped ∧
    idleServer.Overtaken overlap := by
  refine ⟨⟨by decide +kernel, 0, by decide +kernel, failedSpawn.take 3, [], none,
    rfl, by decide +kernel⟩, ⟨by decide +kernel, by decide +kernel, 0, by decide +kernel,
      ⟨.read, some 0⟩, by decide +kernel, .inl rfl⟩,
    1, 0, by decide +kernel, by decide, by decide +kernel⟩

theorem served_client_heard :
    ¬ (idleServer.Abandoned (stopped.take 4) ∨ idleServer.CutOff (stopped.take 4) ∨
      idleServer.Overtaken (stopped.take 4)) :=
  (Server.listening_iff_held idleServer_initial (undisturbed (by simp [stopped]))
    (by decide +kernel) (by decide +kernel)).1 (by decide +kernel)

end Rehearsal

end ScriptDebug
