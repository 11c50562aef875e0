import ScriptDebug.Proofs.Minding

/-!
# The crew of the demo threads

`Crew` is what holds of a debugger and of the workers over it at all times, whoever takes a turn: a
worker that goes on with its run, the command thread, or others on threads of their own that keep to
executions of their own. What the command thread is about is told apart from this, and comes in
later.
-/

namespace ScriptDebug

variable {logic : Logic} {sink : Sink}

namespace Demo

/-- **Badge** of a worker: what never changes about it. -/
def Worker.badge (w : Worker) : Handle × ThreadId := (w.handle, w.thread)

/-- The executions of workers. -/
def handles (ws : List Worker) : List Handle := ws.map (·.handle)

/-- The threads of workers. -/
def threads (ws : List Worker) : List ThreadId := ws.map (·.thread)

theorem map_modify_work {α : Type} {f : Worker → α} (hf : ∀ w work, f { w with work } = f w)
    (ws : List Worker) (i : Nat) (work : Work) :
    (ws.modify i fun w => { w with work }).map f = ws.map f := by
  induction ws generalizing i with
  | nil => cases i <;> rfl
  | cons w ws ih =>
    cases i with
    | zero => exact congrArg (· :: _) (hf w work)
    | succ i => exact congrArg (f w :: ·) (ih i)

theorem handles_modify (ws : List Worker) (i : Nat) (work : Work) :
    handles (ws.modify i fun w => { w with work }) = handles ws :=
  map_modify_work (fun _ _ => rfl) ws i work

theorem threads_modify (ws : List Worker) (i : Nat) (work : Work) :
    threads (ws.modify i fun w => { w with work }) = threads ws :=
  map_modify_work (fun _ _ => rfl) ws i work

theorem mem_modify_work {ws : List Worker} {i : Nat} {w v : Worker} {work : Work}
    (hnodup : (threads ws).Nodup) (hi : ws[i]? = some w)
    (hv : v ∈ ws.modify i fun w => { w with work }) :
    v = { w with work } ∨ v ∈ ws ∧ v.thread ≠ w.thread := by
  obtain ⟨j, hj⟩ := List.mem_iff_getElem?.1 hv
  rw [List.getElem?_modify] at hj
  by_cases hij : i = j
  · subst hij
    rw [hi] at hj
    simp only [if_true, Option.map_eq_map, Option.map_some, Option.some.injEq] at hj
    exact .inl hj.symm
  · simp only [if_neg hij, Option.map_eq_map] at hj
    have hj : ws[j]? = some v := by simpa using hj
    refine .inr ⟨List.mem_of_getElem? hj, fun hth => hij ?_⟩
    have hlt : i < (threads ws).length := by
      rw [threads, List.length_map]
      exact (List.getElem?_eq_some_iff.1 hi).1
    exact (List.getElem?_inj hlt hnodup).1 (by simp [threads, hi, hj, hth])

end Demo

namespace Debugger

variable {F : Handle → Prop} {d₀ d e d' : Debugger (Demo.setup logic sink)} {t : ThreadId}
  {op : Operation} {ws : List Demo.Worker} {w : Demo.Worker} {h : Handle} {regs hooks : List Handle}

/-- **Crew.** All threads but the command thread keep to executions of others or mind their own, and
every worker is steered; contexts are consistent, in order, and none of those that were made since
is left behind. -/
structure Crew (F : Handle → Prop) (d₀ d : Debugger (Demo.setup logic sink))
    (ws : List Demo.Worker) : Prop where
  abides : ∀ t, t ≠ 0 → ∀ a ∈ (d.thread t).agenda, a.Abides F
  started : 0 < d.threads.length
  length : d₀.contexts.length ≤ d.contexts.length
  consistent : ∀ x ∈ d.contexts, x.Consistent
  ascends : d.Ascends
  tidy : Tidy F d₀.contexts.length d (d.thread 0).agenda
  steered : ∀ w ∈ ws, Steered F d₀ d w
  threads : (Demo.threads ws).Nodup
  handles : (Demo.handles ws).Nodup

/-! ## Turns of threads -/

/-- **A step of another thread** than the command thread leaves its executions alone. -/
theorem Crew.step_other (hcrew : Crew F d₀ d ws) (hlogic : logic.Abides F)
    (hch : Changed F d₀ d regs hooks) (ht : t ≠ 0) (hs : d.step t = some d') :
    Crew F d₀ d' ws ∧ d.Respects F d' ∧ Script.Machine.next d'.host = Script.Machine.next d.host ∧
      d'.thread 0 = d.thread 0 := by
  -- the thread is that of a worker, which goes on with its run, or of somebody else
  have hsteered : ∀ w ∈ ws, w.thread = t → Steered F d₀ d' w := by
    rintro w hw rfl
    exact ((hcrew.steered w hw).step hlogic hch hs).1
  obtain ⟨a, rest, e, todo, ans, hag, hact, rfl, hself, hne⟩ := step_cases hs
  have habides : a.Abides F := hcrew.abides t ht a (by rw [hag]; exact List.mem_cons_self)
  have hr := act_respects hact habides
  have hascends : e.Ascends := hcrew.ascends.act hact
  have hnext := act_next hact
  have hr' : d.Respects F (e.setThread t ⟨todo ++ rest, ans⟩) :=
    ⟨⟨hr.context, hr.knows⟩, hr.lookup, hr.isHooked, hr.old⟩
  have hlen : (e.setThread t ⟨todo ++ rest, ans⟩).threads.length = d.threads.length := by
    simp only [setThread, List.length_set, act_threads hact]
  refine ⟨⟨fun u hu b hb => ?_, hlen ▸ hcrew.started, Nat.le_trans hcrew.length hr.length_le,
    fun x hx => act_consistent hact hcrew.consistent x hx, hascends, ?_, fun w hw => ?_,
    hcrew.threads, hcrew.handles⟩, hr', hnext, hne 0 ht.symm⟩
  · by_cases hut : u = t
    · subst hut
      rw [hself] at hb
      rcases List.mem_append.1 hb with hb | hb
      · exact (act_leads hact).abides hlogic habides b hb
      · exact hcrew.abides u hu b (by rw [hag]; exact List.mem_cons_of_mem a hb)
    · rw [hne u hut] at hb
      exact hcrew.abides u hu b hb
  · rw [hne 0 ht.symm]
    exact hcrew.tidy.respects hr'
  · by_cases hwt : w.thread = t
    · exact hsteered w hw hwt
    · exact (hcrew.steered w hw).mono hr'.toPreserves hlen.ge (hne _ hwt)

/-- **A step of the command thread** leaves the workers alone. -/
theorem Crew.step_own (hcrew : Crew F d₀ d ws) (hs : d.step 0 = some d') : Crew F d₀ d' ws := by
  obtain ⟨a, rest, e, todo, ans, hag, hact, rfl, hself, hne⟩ := step_cases hs
  have hp := act_preserves hact
  have hascends : e.Ascends := hcrew.ascends.act hact
  have hp' : d.Preserves (e.setThread 0 ⟨todo ++ rest, ans⟩) := ⟨hp.context, hp.knows⟩
  have hlen : (e.setThread 0 ⟨todo ++ rest, ans⟩).threads.length = d.threads.length := by
    simp only [setThread, List.length_set, act_threads hact]
  refine ⟨fun u hu b hb => ?_, hlen ▸ hcrew.started, Nat.le_trans hcrew.length hp.length_le,
    fun x hx => act_consistent hact hcrew.consistent x hx, hascends, ?_, fun w hw => ?_,
    hcrew.threads, hcrew.handles⟩
  · rw [hne u hu] at hb
    exact hcrew.abides u hu b hb
  · rw [hself]
    have htidy := hcrew.tidy
    rw [hag] at htidy
    exact fun c y => htidy.act hact c y
  · have hw' := hcrew.steered w hw
    exact hw'.mono hp' hlen.ge (hne _ (Nat.ne_of_gt hw'.pos))

theorem Crew.wakeEarly (hcrew : Crew F d₀ d ws) (t : ThreadId) (c : ContextId) :
    Crew F d₀ (d.wakeEarly t c) ws := by
  have hr := respects_wakeEarly F d t c
  have hsame : (d.wakeEarly t c).threads = d.threads ∧ (d.wakeEarly t c).registry = d.registry := by
    unfold Debugger.wakeEarly
    split <;> exact ⟨rfl, rfl⟩
  have hth : ∀ u, (d.wakeEarly t c).thread u = d.thread u := fun u => by
    unfold thread
    rw [hsame.1]
  refine ⟨fun u hu b hb => hcrew.abides u hu b (hth u ▸ hb), hsame.1 ▸ hcrew.started,
    Nat.le_trans hcrew.length hr.length_le, fun y hy => ?_, ?_, ?_, fun w hw => ?_, hcrew.threads,
    hcrew.handles⟩
  · unfold Debugger.wakeEarly at hy
    split at hy
    · rename_i x hx
      rcases List.mem_or_eq_of_mem_set hy with hy | rfl
      · exact hcrew.consistent y hy
      · exact (hcrew.consistent x (List.mem_of_getElem? hx)).wake t
    · exact hcrew.consistent y hy
  · unfold Ascends
    rw [hsame.2]
    exact hcrew.ascends
  · rw [hth 0]
    exact hcrew.tidy.respects hr
  · exact (hcrew.steered w hw).mono hr.toPreserves (hsame.1 ▸ Nat.le_refl _) (hth _)

/-! ## Threads and operations -/

/-- Only threads differ. -/
structure SameBut (d e : Debugger (Demo.setup logic sink)) : Prop where
  registry : e.registry = d.registry
  contexts : e.contexts = d.contexts
  isHooked : ∀ h, Script.Machine.isHooked e.host h = Script.Machine.isHooked d.host h
  knows : ∀ {h}, Script.Machine.knows d.host h = true → Script.Machine.knows e.host h = true

theorem SameBut.respects (hsame : d.SameBut e) (F : Handle → Prop) : d.Respects F e :=
  respects_of_eq hsame.registry hsame.contexts hsame.isHooked hsame.knows

theorem sameBut_call (d : Debugger (Demo.setup logic sink)) (t : ThreadId) (op : Operation) :
    d.SameBut (d.call t op) :=
  ⟨rfl, rfl, fun _ => rfl, id⟩

theorem Crew.congr (hcrew : Crew F d₀ d ws) (hsame : d.SameBut e)
    (hlen : d.threads.length ≤ e.threads.length)
    (habides : ∀ t, t ≠ 0 → ∀ a ∈ (e.thread t).agenda, a.Abides F)
    (hclose : ∀ c, .close c ∈ (d.thread 0).agenda → .close c ∈ (e.thread 0).agenda)
    (hworkers : ∀ w ∈ ws, e.thread w.thread = d.thread w.thread) : Crew F d₀ e ws where
  abides := habides
  started := Nat.lt_of_lt_of_le hcrew.started hlen
  length := hsame.contexts ▸ hcrew.length
  consistent := hsame.contexts ▸ hcrew.consistent
  ascends := by
    unfold Ascends
    rw [hsame.registry]
    exact hcrew.ascends
  tidy := (hcrew.tidy.respects (hsame.respects F)).mono hclose
  steered w hw := (hcrew.steered w hw).mono (hsame.respects F).toPreserves hlen (hworkers w hw)
  threads := hcrew.threads
  handles := hcrew.handles

theorem Crew.call_own (hcrew : Crew F d₀ d ws) (hidle : (d.thread 0).agenda = []) (op : Operation) :
    Crew F d₀ (d.call 0 op) ws := by
  refine hcrew.congr (sameBut_call d 0 op) (by simp [call, setThread]) (fun u hu => ?_)
    (fun c hc => ?_) fun w hw => ?_
  · rw [thread_call_ne hu]
    exact hcrew.abides u hu
  · rw [hidle] at hc
    cases hc
  · exact thread_call_ne (Nat.ne_of_gt (hcrew.steered w hw).pos) op

/-- Another thread is given an operation that keeps to executions of others. -/
theorem Crew.call_other (hcrew : Crew F d₀ d ws) (ht : t ≠ 0) (hws : t ∉ Demo.threads ws)
    (hop : op.Abides F) :
    Crew F d₀ (d.call t op) ws := by
  refine hcrew.congr (sameBut_call d t op) (by simp [call, setThread]) (fun u hu b hb => ?_)
    (fun c hc => ?_) fun w hw => thread_call_ne (fun hwt => hws (List.mem_map.2 ⟨w, hw, hwt⟩)) op
  · rcases d.agenda_call t u op with hth | ⟨-, hth⟩ <;> rw [hth] at hb
    · exact hcrew.abides u hu b hb
    · obtain rfl := List.mem_singleton.1 hb
      exact hop
  · rw [thread_call_ne ht.symm]
    exact hc

theorem thread_spawn (d : Debugger (Demo.setup logic sink)) (op : Operation) (u : ThreadId) :
    (d.spawn op).thread u = d.thread u ∨
    u = d.threads.length ∧ (d.spawn op).thread u = ⟨[.begin op], .none⟩ := by
  unfold thread spawn
  rcases Nat.lt_trichotomy u d.threads.length with hlt | rfl | hgt
  · exact .inl (by rw [List.getElem?_append_left hlt])
  · exact .inr ⟨rfl, by rw [List.getElem?_concat_length]; rfl⟩
  · refine .inl ?_
    rw [List.getElem?_eq_none (by rw [List.length_append]; exact hgt),
      List.getElem?_eq_none (Nat.le_of_lt hgt)]

theorem Crew.spawn (hcrew : Crew F d₀ d ws) (hop : op.Abides F) : Crew F d₀ (d.spawn op) ws := by
  have hold : ∀ {u}, u < d.threads.length → (d.spawn op).thread u = d.thread u := fun hu =>
    (d.thread_spawn op _).resolve_right fun h => Nat.ne_of_lt hu h.1
  refine hcrew.congr ⟨rfl, rfl, fun _ => rfl, id⟩ (by simp [Debugger.spawn]) (fun u hu b hb => ?_)
    (fun c hc => ?_) fun w hw => hold (hcrew.steered w hw).lt
  · rcases d.thread_spawn op u with hth | ⟨-, hth⟩ <;> rw [hth] at hb
    · exact hcrew.abides u hu b hb
    · obtain rfl := List.mem_singleton.1 hb
      exact hop
  · rw [hold hcrew.started]
    exact hc

/-! ## Workers come and go on -/

theorem sameBut_create (d : Debugger (Demo.setup logic sink)) (name : String) :
    d.SameBut { d with host := (Script.Machine.create d.host name).1 } where
  registry := rfl
  contexts := rfl
  isHooked _ := rfl
  knows {h} hk := by
    show (Ascending.get? h (Ascending.put _ _ _)).isSome = true
    by_cases hh : h = ⟨Script.Machine.next d.host⟩
    · subst hh
      rw [Ascending.get?_put_self]
      rfl
    · rw [Ascending.get?_put_ne hh]
      exact hk

theorem Crew.create (hcrew : Crew F d₀ d ws) (name : String) :
    Crew F d₀ { d with host := (Script.Machine.create d.host name).1 } ws :=
  hcrew.congr (d.sameBut_create name) (Nat.le_refl _) hcrew.abides (fun _ => id) fun _ _ => rfl

/-- **A worker comes:** it has a new thread, and an execution that is registered since. -/
theorem Crew.addWorker (hcrew : Crew F d₀ d ws) (hch : Changed F d₀ d regs hooks) (hreg : h ∈ regs)
    (hnew : h ∉ Demo.handles ws) :
    Crew F d₀ { d with threads := d.threads ++ [{}] }
      (ws ++ [{ handle := h, thread := d.threads.length }]) := by
  have hcongr : Crew F d₀ { d with threads := d.threads ++ [{}] } ws :=
    hcrew.congr ⟨rfl, rfl, fun _ => rfl, id⟩ (by simp)
      (fun u hu => by rw [thread_append]; exact hcrew.abides u hu)
      (fun c hc => by rw [thread_append]; exact hc) fun w _ => thread_append d w.thread
  have hlt : ∀ t ∈ Demo.threads ws, t < d.threads.length := by
    intro t ht
    obtain ⟨w, hw, rfl⟩ := List.mem_map.1 ht
    exact (hcrew.steered w hw).lt
  refine { hcongr with steered := fun w hw => ?_, threads := ?_, handles := ?_ }
  · rcases List.mem_append.1 hw with hw | hw
    · exact hcongr.steered w hw
    · obtain rfl := List.mem_singleton.1 hw
      obtain ⟨c, -, hsince⟩ := hch.registered h hreg
      refine ⟨hcrew.started, by simp, (hch.free h hreg).1, (hch.free h hreg).2, ⟨c, hsince⟩, ?_⟩
      show (Debugger.thread { d with threads := d.threads ++ [{}] } d.threads.length).agenda = []
      rw [thread_append, thread, List.getElem?_eq_none (Nat.le_refl _)]
      rfl
  · simp only [Demo.threads, List.map_append, List.map_cons, List.map_nil]
    refine List.nodup_append.2 ⟨hcrew.threads, by simp, fun t ht u hu htu => ?_⟩
    obtain rfl := List.mem_singleton.1 hu
    exact Nat.ne_of_lt (hlt t ht) htu
  · simp only [Demo.handles, List.map_append, List.map_cons, List.map_nil]
    refine List.nodup_append.2 ⟨hcrew.handles, by simp, fun x hx y hy hxy => ?_⟩
    obtain rfl := List.mem_singleton.1 hy
    exact hnew (hxy ▸ hx)

/-- **A worker goes on** to other work, and its agenda is that of the work. -/
theorem Crew.goTo {i : Nat} {work : Demo.Work} (hcrew : Crew F d₀ d ws) (hi : ws[i]? = some w)
    (hag : d.Agenda F d₀.contexts.length { w with work }) :
    Crew F d₀ d (ws.modify i fun w => { w with work }) where
  abides := hcrew.abides
  started := hcrew.started
  length := hcrew.length
  consistent := hcrew.consistent
  ascends := hcrew.ascends
  tidy := hcrew.tidy
  steered v hv := by
    rcases Demo.mem_modify_work hcrew.threads hi hv with rfl | ⟨hv, -⟩
    · have hw := hcrew.steered w (List.mem_of_getElem? hi)
      exact ⟨hw.pos, hw.lt, hw.free, hw.untouched, hw.context, hag⟩
    · exact hcrew.steered v hv
  threads := by rw [Demo.threads_modify]; exact hcrew.threads
  handles := by rw [Demo.handles_modify]; exact hcrew.handles

theorem Crew.callRun {i : Nat} (hcrew : Crew F d₀ d ws) (hi : ws[i]? = some w)
    (hlook : w.work = .look) :
    Crew F d₀ (d.call w.thread (.run w.handle)) (ws.modify i fun w => { w with work := .run }) := by
  have hw := hcrew.steered w (List.mem_of_getElem? hi)
  have hidle : (d.thread w.thread).agenda = [] := by
    have hag := hw.agenda
    unfold Agenda at hag
    rwa [hlook] at hag
  have hself := thread_call_self hw.lt (.run w.handle)
  have hp := ((d.sameBut_call w.thread (.run w.handle)).respects F).toPreserves
  have hrun : (d.call w.thread (.run w.handle)).Agenda F d₀.contexts.length
      { w with work := .run } := by
    show _ = _ ∨ _
    rw [hself]
    exact .inl rfl
  refine ⟨fun u hu b hb => ?_, by simpa [call, setThread] using hcrew.started, hcrew.length,
    hcrew.consistent, hcrew.ascends, ?_, fun v hv => ?_, by
    rw [Demo.threads_modify]; exact hcrew.threads,
    by rw [Demo.handles_modify]; exact hcrew.handles⟩
  · rcases d.agenda_call w.thread u (.run w.handle) with hth | ⟨-, hth⟩ <;> rw [hth] at hb
    · exact hcrew.abides u hu b hb
    · obtain rfl := List.mem_singleton.1 hb
      trivial
  · rw [thread_call_ne (Nat.ne_of_lt hw.pos)]
    exact hcrew.tidy
  · have hlen : d.threads.length ≤ (d.call w.thread (.run w.handle)).threads.length := by
      simp [call, setThread]
    rcases Demo.mem_modify_work hcrew.threads hi hv with rfl | ⟨hv, hne⟩
    · exact ⟨hw.pos, Nat.lt_of_lt_of_le hw.lt hlen, hw.free, hw.untouched,
        hw.context.imp fun _ hc => hc.mono hp, hrun⟩
    · exact (hcrew.steered v hv).mono hp hlen (thread_call_ne hne _)

end Debugger

end ScriptDebug
