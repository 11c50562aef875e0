import ScriptDebug.Proofs.Handler

/-!
# What a call of the protocol sees

Between the steps of a call other threads run, but the contexts that the call looks at are shielded.
So what it read of a context stays true: a context that was found paused is paused until the access
to its stack ends, and the state and the location in a listing belong together.
-/

namespace ScriptDebug

/-- **Coherent.** A listed context has a location exactly when it is paused. -/
def ContextInfo.Coherent (i : ContextInfo) : Prop := i.location.isSome ↔ i.state = .paused

/-- The execution whose paused stack an operation looks into. -/
def Operation.handle? : Operation → Option Handle
  | .load h _ | .evaluate h _ | .listVariables _ h _ | .fetchVariable _ h _ _ _ => some h
  | _ => none

/-- Whether an action looks at a context. -/
def Action.looks {S : Setup} : Action S → Bool
  | .inspect .. | .describe .. | .describeLocation .. => true
  | _ => false

variable {host : Host} {sink : Sink}

/-- Whether an access to the host is one that an operation makes. -/
def Operation.makes (op : Operation) : Action (Protocol.setup host sink) → Prop
  | .host _ => (∃ h s, op = .evaluate h s) ∨ ∃ h s, op = .load h s
  | .enumerate kind h frame _ _ => op = .listVariables kind h frame
  | .fetch kind h frame index levels => op = .fetchVariable kind h frame index levels
  | _ => False

namespace Debugger

section Act

variable {S : Setup} {d e : Debugger S} {t u : ThreadId} {c : ContextId} {turn : Turn}
  {a b : Action S} {rest todo more : List (Action S)} {last ans : Answer} {x : Thread S}

@[simp] theorem shielded_setThread : (d.setThread t x).Shielded t c ↔ d.Shielded t c := by
  unfold Shielded
  constructor <;> intro h u hu
  · have := h u hu
    rwa [thread_setThread_ne hu] at this
  · rw [thread_setThread_ne hu]
    exact h u hu

/-- What is known of the contexts that an action looks at. -/
def Sees (d : Debugger S) (t : ThreadId) : Action S → Prop
  | .inspect c op => d.Shielded t c ∧ ∃ x, d.contexts[c]? = some x ∧ op.handle? = some x.handle
  | .describe cs done => (∀ c ∈ cs, d.Shielded t c) ∧ ∀ i ∈ done, i.Coherent
  | .describeLocation c state cs done =>
    (∀ k ∈ c :: cs, d.Shielded t k) ∧ (∃ x, d.contexts[c]? = some x ∧ x.state = state) ∧
      ∀ i ∈ done, i.Coherent
  | _ => True

theorem sees_of_not_looks (hb : b.looks = false) : d.Sees t b := by
  cases b with
  | inspect | describe | describeLocation => cases hb
  | _ => trivial

theorem Sees.take (hs : d.Sees t a) (hd : d.Disciplined)
    (hp : ∀ u c e, .pauseAt c e ∉ (d.thread u).agenda) (ht : d.Holds t) (hturn : turn ≠ .step t) :
    (d.take turn).Sees t a := by
  cases a with
  | inspect c op =>
    obtain ⟨hsh, x, hx, hop⟩ := hs
    obtain ⟨y, hy, hh, -⟩ := hsh.stance_take hd hp ht hturn hx
    exact ⟨hsh.take ht turn, y, hy, by rw [hh, hop]⟩
  | describe cs done => exact ⟨fun c hc => (hs.1 c hc).take ht turn, hs.2⟩
  | describeLocation c state cs done =>
    obtain ⟨hsh, ⟨x, hx, hst⟩, hdone⟩ := hs
    obtain ⟨y, hy, -, hyst⟩ := (hsh c List.mem_cons_self).stance_take hd hp ht hturn hx
    refine ⟨fun k hk => (hsh k hk).take ht turn, ⟨y, hy, ?_⟩, hdone⟩
    rw [← hst]
    exact congrArg Prod.fst hyst
  | _ => trivial

/-- What comes in place of an action sees what the action saw. -/
theorem Sees.act (hs : d.Sees t a) (hd : d.Orderly)
    (h : d.act t last a = some (e, b :: more, ans)) : (e.setThread t x).Sees t b := by
  have hreg : ∀ c, c ∈ d.registered → (d.setThread t x).Shielded t c :=
    fun c hc => shielded_setThread.2 (hd.shielded hc t)
  have hlook : ∀ h c op, d.lookup h = some c → op.handle? = some h →
      (d.setThread t x).Sees t (.inspect c op) := by
    intro h c op hl hop
    have hmem : (h, c) ∈ d.registry := Ascending.mem_of_get? hl
    obtain ⟨y, hy, hh, -⟩ := hd.entry h c hmem
    exact ⟨hreg c (mem_registered.2 ⟨h, hmem⟩), y, hy, by rw [hop, hh]⟩
  cases a with
  | begin op =>
    cases op with
    | contexts =>
      cases h
      exact ⟨hreg, fun i hi => absurd hi List.not_mem_nil⟩
    | load | evaluate | listVariables | fetchVariable =>
      simp only [Debugger.act, beginOperation, beginLook] at h
      split at h
      · cases h
      · rename_i c hl
        cases h
        exact hlook _ c _ hl rfl
    | _ =>
      have hl := act_leads h
      exact sees_of_not_looks (by grind [Leads, OperationLeads, Action.dispatch, Action.looks])
  | describe cs done =>
    cases cs with
    | nil => cases h
    | cons c cs =>
      simp only [Debugger.act] at h
      split at h
      · cases h
        exact ⟨fun k hk => shielded_setThread.2 (hs.1 k (List.mem_cons_of_mem _ hk)), hs.2⟩
      · rename_i y hy
        cases h
        exact ⟨fun k hk => shielded_setThread.2 (hs.1 k hk), ⟨y, hy, rfl⟩, hs.2⟩
  | describeLocation c state cs done =>
    obtain ⟨hsh, ⟨y, hy, hst⟩, hdone⟩ := hs
    have hcs : ∀ k ∈ cs, (d.setThread t x).Shielded t k :=
      fun k hk => shielded_setThread.2 (hsh k (List.mem_cons_of_mem _ hk))
    simp only [Debugger.act, hy] at h
    cases h
    refine ⟨hcs, fun i hi => ?_⟩
    rcases List.mem_append.1 hi with hi | hi
    · exact hdone i hi
    · obtain rfl := List.mem_singleton.1 hi
      have hc := (hd.consistent y (List.mem_of_getElem? hy)).1
      unfold ContextInfo.Coherent
      rw [Option.isSome_map, ← hst]
      exact hc
  | inspect k op =>
    have hl := act_leads h
    exact sees_of_not_looks (by cases op <;> grind [Leads, Operation.look, Action.looks])
  | resumeEach cs n =>
    have hl := act_leads h
    exact sees_of_not_looks (by cases cs <;> grind [Leads, Action.looks])
  | _ =>
    have hl := act_leads h
    exact sees_of_not_looks (by grind [Leads, Action.dispatch, Action.looks])

theorem sees_of_inert {d : Debugger (Protocol.setup host sink)}
    {a : Action (Protocol.setup host sink)} (h : a.isAtomic = false) : d.Sees t a := by
  cases a with
  | inspect | describe | describeLocation => exact absurd h (by simp [Action.isAtomic])
  | _ => trivial

theorem Leads.use_of_logic (h : d.Leads a (b :: more)) {p : S.logic.Point}
    (hp : .logic p ∈ more) : ∃ q s last op next,
      a = .logic q ∧ (S.logic.step s q last).2 = .use op next ∧ b = .begin op ∧
        more = [.logic next] := by
  cases a with
  | logic q =>
    obtain hnil | ⟨s, last, op, next, hu, htodo⟩ := h
    · cases hnil
    · obtain ⟨rfl, rfl⟩ := List.cons_eq_cons.1 htodo
      exact ⟨q, s, last, op, next, rfl, hu, rfl, rfl⟩
  | begin op => cases op <;> exfalso <;> grind [Leads, OperationLeads, Action.dispatch]
  | resumeEach cs n => cases cs <;> exfalso <;> grind [Leads]
  | describe cs done => cases cs <;> exfalso <;> grind [Leads]
  | inspect k op => cases op <;> exfalso <;> grind [Leads, Operation.look]
  | _ => exfalso; grind [Leads, Action.dispatch]

/-- Where an answer that lists contexts comes from. -/
theorem act_answer_contexts {infos : List ContextInfo}
    (h : d.act t last a = some (e, todo, .contexts infos)) :
    (a = .describe [] infos ∧ todo = []) ∨
      ((a = .lock ∨ a = .unlock) ∧ todo = [] ∧ last = .contexts infos) ∨
      a = .give (.contexts infos) := by
  cases a with
  | begin op =>
    cases op <;> simp only [Debugger.act, beginOperation, beginLook, Operation.refuse] at h <;>
      grind
  | resumeEach cs n => cases cs <;> simp only [Debugger.act] at h <;> grind
  | describe cs done => cases cs <;> simp only [Debugger.act] at h <;> grind
  | inspect k op => cases op <;> simp only [Debugger.act, Operation.refuse] at h <;> grind
  | _ =>
    simp only [Debugger.act] at h
    grind

end Act

/-! ## Listings -/

section Run

variable {d : Debugger (Protocol.setup host sink)} {σ : Schedule} {t : ThreadId} {n : Nat}

/-- Whether a thread is in a call of the client logic. -/
def InCall {S : Setup} (d : Debugger S) (t : ThreadId) : Prop :=
  ∃ p, .logic p ∈ (d.thread t).agenda

/-- **Sighted.** In a call, what a thread is about to look at is seen,
and what was listed is coherent. -/
structure Sighted (d : Debugger (Protocol.setup host sink)) (t : ThreadId) : Prop where
  head : ∀ a rest, (d.thread t).agenda = a :: rest → (∃ p, .logic p ∈ rest) → d.Sees t a
  answer : ∀ infos, d.InCall t → (d.thread t).answer = .contexts infos → ∀ i ∈ infos, i.Coherent

theorem Sighted.step {d' : Debugger (Protocol.setup host sink)} (hs : d.Sighted t)
    (hd : d.Orderly) (hp : (d.thread t).agenda.Pairwise fun a b => a.above b = true)
    (h : d.step t = some d') : d'.Sighted t := by
  obtain ⟨a, rest, e, todo, ans, hag, hact, rfl, hself, -⟩ := step_cases h
  have hl := act_leads hact
  have habove : ∀ b ∈ rest, a.above b = true := by
    rw [hag] at hp
    exact (List.pairwise_cons.1 hp).1
  constructor
  · intro b more hb hcall
    rw [hself] at hb
    cases todo with
    | nil =>
      -- the next action has waited below
      have hmem : b ∈ rest := by
        have hb : rest = b :: more := hb
        rw [hb]
        exact List.mem_cons_self
      cases b with
      | host | logic => trivial
      | _ => exact sees_of_inert (by simpa [Action.above] using habove _ hmem)
    | cons b' todo =>
      cases hb
      by_cases hc : ∃ p, .logic p ∈ rest
      · exact (hs.head a rest hag hc).act hd hact
      · -- the call begins with this step
        have hin : ∃ p, .logic p ∈ todo := by
          obtain ⟨p, hp⟩ := hcall
          rcases List.mem_append.1 hp with hp | hp
          · exact ⟨p, hp⟩
          · exact absurd ⟨p, hp⟩ hc
        obtain ⟨p, hp⟩ := hin
        obtain ⟨-, -, -, op, -, -, -, rfl, -⟩ := hl.use_of_logic hp
        trivial
  · intro infos hcall hans i hi
    rw [hself] at hans
    have hans : ans = .contexts infos := hans
    subst hans
    obtain ⟨p, hp⟩ := hcall
    rw [hself] at hp
    rcases act_answer_contexts hact with ⟨rfl, rfl⟩ | ⟨ha, rfl, hlast⟩ | rfl
    · exact (hs.head _ rest hag ⟨p, hp⟩).2 i hi
    · have hcall : d.InCall t := ⟨p, by rw [hag]; exact List.mem_cons_of_mem _ hp⟩
      exact hs.answer infos hcall hlast i hi
    · obtain rfl : todo = [] := hl
      exact absurd (habove _ hp)
        (by simp [Action.above, Action.isInner, Action.isRaised, Action.isAsked])

theorem Sighted.take (hs : d.Sighted t) (hd : d.Disciplined)
    (hp : ∀ u c e, .pauseAt c e ∉ (d.thread u).agenda) {turn : Turn} (hturn : turn ≠ .step t) :
    (d.take turn).Sighted t := by
  rcases thread_take_ne d hturn with hthr | ⟨op, -, -, hthr⟩
  · constructor
    · intro a rest hag hcall
      rw [hthr] at hag
      obtain ⟨p, hmem⟩ := hcall
      have ht : d.Holds t := hd.holds_of_logic (by rw [hag]; exact List.mem_cons_of_mem _ hmem)
      exact (hs.head a rest hag ⟨p, hmem⟩).take hd hp ht hturn
    · intro infos hcall hans
      unfold InCall at hcall
      rw [hthr] at hcall hans
      exact hs.answer infos hcall hans
  · -- a thread that gets an operation is in no call
    constructor
    · intro a rest hag hcall
      rw [hthr] at hag
      cases hag
      obtain ⟨p, hmem⟩ := hcall
      exact absurd hmem List.not_mem_nil
    · intro infos hcall
      obtain ⟨p, hmem⟩ := hcall
      rw [hthr] at hmem
      exact absurd hmem (by simp)

theorem Initial.sighted (hd : d.Initial) (ho : HandsOff (Protocol.setup host sink) σ) (n : Nat)
    (t : ThreadId) : (d.instant σ n).Sighted t := by
  induction n with
  | zero =>
    constructor
    · intro a rest hag
      rw [instant_zero, hd.idle t] at hag
      cases hag
    · intro infos hcall
      obtain ⟨p, hmem⟩ := hcall
      rw [instant_zero, hd.idle t] at hmem
      exact absurd hmem List.not_mem_nil
  | succ n ih =>
    rw [instant_succ]
    by_cases hturn : σ n = .step t
    · rw [hturn]
      show (((d.instant σ n).step t).getD (d.instant σ n)).Sighted t
      cases hst : (d.instant σ n).step t with
      | none => exact ih
      | some d' => exact ih.step (hd.orderly.instant σ n) (hd.pairwise_above n t) hst
    · exact ih.take (hd.disciplined.instant σ n) (fun u c e => ho.pauseAt_not_mem hd n u c e) hturn

/-- **Listings.** Whatever listing of the contexts the client logic is to
answer with is coherent. -/
theorem Initial.coherent (hd : d.Initial) (ho : HandsOff (Protocol.setup host sink) σ) {n : Nat}
    {t : ThreadId} (hcall : (d.instant σ n).InCall t) {infos : List ContextInfo}
    (hans : ((d.instant σ n).thread t).answer = .contexts infos) : ∀ i ∈ infos, i.Coherent :=
  (hd.sighted ho n t).answer infos hcall hans

end Run

end Debugger

end ScriptDebug
