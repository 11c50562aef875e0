import ScriptDebug.Proofs.Members
import ScriptDebug.Proofs.Requests

/-!
# Feeding a listing back

What a session lists as its breakpoints can be sent back, item by item.

1. The JSON form of a breakpoint that a client can name reads as that breakpoint
   (`Breakpoint.read_json`), and only such breakpoints are ever set (`Debugger.sound_instant`).
2. A command that only concerns the breakpoints is answered by one reply, over any host and along
   either route, and the table is as the command leaves it (`exchange_local`). A dialogue is one
   exchange after the other.
3. A dialogue that sets or clears items knows its table by what is set (`Serves.sets`,
   `Serves.clears`); as there is one table for a set of breakpoints, neither the order nor
   repetitions are seen (`listing_feeds_back`).
-/

namespace ScriptDebug

namespace Breakpoint

variable {b : Breakpoint} {j : Json}

/-- Whether a client can name the breakpoint: line numbers have 32 bits. -/
def InRange : Breakpoint → Prop
  | .line _ n => -0x80000000 ≤ n ∧ n ≤ 0x7fffffff
  | .function _ => True

/-- **Written and read**, a breakpoint is the same. -/
theorem read_json (h : b.InRange) : Breakpoint.read b.json = .ok b := by
  cases b with
  | line file line =>
    have hnumber : Json.asSigned (.ofInt line) = .ok line := by
      unfold InRange at h
      simp [Json.asSigned, Json.asInteger, Json.ofInt, h]
    have hread : ofJson? (json (.line file line)) = some (.line file line) := by
      simp [ofJson?, json, Json.member?, hnumber]
    unfold read
    rw [hread]
  | function name =>
    have hread : ofJson? (json (.function name)) = some (.function name) := by
      simp [ofJson?, json, Json.member?]
    unfold read
    rw [hread]

theorem inRange_of_asSigned {line : Int} {file : String} (h : Json.asSigned j = .ok line) :
    (Breakpoint.line file line).InRange := by
  unfold Json.asSigned Json.asInteger at h
  split at h
  · split at h
    · rename_i hrange
      cases h
      simpa [InRange] using hrange
    · cases h
  · cases h

theorem inRange_of_read (h : Breakpoint.read j = .ok b) : b.InRange := by
  unfold read at h
  split at h
  · rename_i c hc
    cases h
    unfold ofJson? at hc
    split at hc
    · split at hc
      · rename_i hnumber
        cases hc
        exact inRange_of_asSigned hnumber
      · cases hc
        trivial
      · cases hc
    · cases hc
      trivial
    · cases hc
  · cases h

theorem json_injective : Function.Injective Breakpoint.json := by
  intro b c h
  cases b <;> cases c <;> simp_all [json, Json.ofInt]

theorem sorted_json (b : Breakpoint) : b.json.sorted = b.json := by
  cases b with
  | line file line =>
    show Json.object (Ascending.put "linenum" _ [("filename", .string file)]) = _
    unfold Ascending.put
    rw [if_neg (by decide), if_neg (by decide)]
    rfl
  | function name => rfl

end Breakpoint

theorem Json.sortedItems_breakpoints (bs : List Breakpoint) :
    Json.sortedItems (bs.map Breakpoint.json) = bs.map Breakpoint.json := by
  induction bs with
  | nil => rfl
  | cons b bs ih =>
    show b.json.sorted :: Json.sortedItems (bs.map Breakpoint.json) = _
    rw [b.sorted_json, ih]
    rfl

/-- **Sound.** A table in order, of breakpoints that a client can name. -/
structure BreakpointTable.Sound (table : BreakpointTable) : Prop where
  ordered : table.Ordered
  inRange : ∀ b, table.contains b = true → b.InRange

theorem BreakpointTable.sound_empty : Sound {} where
  ordered := ordered_empty
  inRange b hb := absurd hb (by simp [contains_empty])

/-! ## Requests for a command -/

namespace Protocol

variable {command : String} {data j : Json} {b : Breakpoint} {table after : BreakpointTable}

/-- **Asks.** A JSON value is read as a request with a command and its arguments. -/
def Asks (command : String) (data j : Json) : Prop :=
  ∃ q, Request.record.read j = .ok q ∧ q.command = command ∧ q.data = data

theorem Asks.readCommand (h : Asks command data j) :
    ∃ q : Request, q.command = command ∧ q.data = data ∧ readCommand j = q.toCommand := by
  obtain ⟨q, hread, hcommand, hdata⟩ := h
  refine ⟨q, hcommand, hdata, ?_⟩
  unfold Protocol.readCommand
  rw [hread]
  rfl

theorem Asks.readCommand_break (h : Asks "break" b.json j) (hb : b.InRange) :
    Protocol.readCommand j = .ok (.setBreakpoint b) := by
  obtain ⟨q, hcommand, hdata, hread⟩ := h.readCommand
  rw [hread]
  simp only [Request.toCommand, hcommand, Request.arguments, hdata, Breakpoint.read_json hb]
  rfl

theorem Asks.readCommand_clear (h : Asks "clear" b.json j) (hb : b.InRange) :
    Protocol.readCommand j = .ok (.clearBreakpoint b) := by
  obtain ⟨q, hcommand, hdata, hread⟩ := h.readCommand
  rw [hread]
  simp only [Request.toCommand, hcommand, Request.arguments, hdata, Breakpoint.read_json hb]
  rfl

theorem Asks.readCommand_breakpoints (h : Asks "breakpoints" data j) :
    Protocol.readCommand j = .ok .listBreakpoints := by
  obtain ⟨q, hcommand, -, hread⟩ := h.readCommand
  rw [hread]
  simp only [Request.toCommand, hcommand]

theorem answer_local {c : Command} {r : Except Refusal Json}
    (hread : Protocol.readCommand j = .ok c) (hlocal : executeLocal table c = some (after, r))
    (route : Route) :
    answer table route j = (after, deliver route (.of r (some j))) := by
  unfold answer
  rw [hread]
  cases c with
  | use op => cases hlocal
  | _ => simp only [hlocal]

/-- **Carries.** A request comes as it is from a caller, or as the text of a message. -/
inductive Carries (j : Json) : Route → Operation → Prop
  | caller : Carries j .caller (.request j)
  | message {text : String} (h : Json.parse text = .ok j) : Carries j .message (.message text)

/-- **Passes on.** An operation that carries a request for a command along a route. -/
def PassesOn (route : Route) (command : String) (op : Operation) (data : Json) : Prop :=
  ∃ j, Carries j route op ∧ Asks command data j

end Protocol

/-- **Takes.** The sink takes every text, whatever was sent before. -/
def Sink.Takes (sink : Sink) (s : sink.State) : Prop :=
  ∀ (sent : List String) (text : String),
    (sink.send (sent.foldl (fun s x => (sink.send s x).1) s) text).2 = .ok ()

theorem Sink.Takes.now {sink : Sink} {s : sink.State} (h : sink.Takes s) (text : String) :
    (sink.send s text).2 = .ok () :=
  h [] text

theorem Sink.Takes.next {sink : Sink} {s : sink.State} (h : sink.Takes s) (text : String) :
    sink.Takes (sink.send s text).1 :=
  fun sent => h (text :: sent)

namespace Debugger

open Protocol (Command Refusal Reply Route Carries Asks PassesOn readCommand executeLocal deliver)

variable {host : Host} {sink : Sink} {d e f : Debugger (Protocol.setup host sink)} {t : ThreadId}
  {op : Operation} {ops : List Operation} {j data : Json} {items given : List Json}
  {route : Route} {r : Reply} {rs : List Reply} {b : Breakpoint}

/-! ## Exchanges -/

/-- **Exchange.** A thread that is left alone works off a request, and there is one reply: it is
what the caller is answered, and nothing is sent; or it is what is sent. -/
inductive Exchange (t : ThreadId) (d : Debugger (Protocol.setup host sink)) :
    Operation → Reply → Debugger (Protocol.setup host sink) → Prop
  | answered {j : Json} {r : Reply} {e : Debugger (Protocol.setup host sink)}
      (hend : d.Finishes t (.request j) e (.text r.json.text)) (hsink : e.sink = d.sink) :
      Exchange t d (.request j) r (e.setThread t ⟨[], .text r.json.text⟩)
  | sent {text : String} {r : Reply} {e : Debugger (Protocol.setup host sink)}
      (hend : d.Finishes t (.message text) (e.told r.json.text) .none) (hsink : e.sink = d.sink) :
      Exchange t d (.message text) r ((e.told r.json.text).setThread t ⟨[], .none⟩)

/-- **Dialogue.** One exchange after the other. -/
inductive Dialogue (t : ThreadId) :
    Debugger (Protocol.setup host sink) → List Operation → List Reply →
    Debugger (Protocol.setup host sink) → Prop
  | nil (d : Debugger (Protocol.setup host sink)) : Dialogue t d [] [] d
  | cons {d e f : Debugger (Protocol.setup host sink)} {op : Operation}
      {ops : List Operation} {r : Reply} {rs : List Reply} (hfirst : Exchange t d op r e)
      (hrest : Dialogue t e ops rs f) :
      Dialogue t d (op :: ops) (r :: rs) f

/-- **Serves.** A thread that requests can be given to: no other one holds the lock, and the sink
takes the replies if they are sent. -/
structure Serves (d : Debugger (Protocol.setup host sink)) (t : ThreadId)
    (route : Route) : Prop where
  thread : t < d.threads.length
  opened : d.Open t
  takes : route = .message → sink.Takes d.sink

/-- **A command on the breakpoints** is answered by one reply,
and leaves the table that it should. -/
theorem exchange_local {c : Command} {after : BreakpointTable} {x : Except Refusal Json}
    (hserves : d.Serves t route) (hcarry : Carries j route op) (hread : readCommand j = .ok c)
    (hlocal : executeLocal d.breakpoints c = some (after, x)) :
    ∃ e, Exchange t d op (.of x (some j)) e ∧ e.breakpoints = after ∧ e.Serves t route := by
  have hanswer := Protocol.answer_local hread hlocal
  -- the state but for the thread, and what is sent
  let e : Debugger (Protocol.setup host sink) :=
    { (d.entered t).setBreakpoints after with dispatch := d.dispatch }
  cases hcarry with
  | caller =>
    have hcall : ∀ last, Works t (d.entered t) last [.logic (.called (.request j))]
        ((d.entered t).setBreakpoints after)
        (.verdict (.ok { text := (Reply.of x (some j)).json.text })) :=
      fun last => works_done (hanswer .caller)
    have hworks : Works t d .none [.begin (.request j)] e (.text (Reply.of x (some j)).json.text) :=
      .of_act rfl ((works_dispatch hserves.opened .none hcall rfl).append (works_act rfl))
    refine ⟨_, .answered (hworks.finishes hserves.thread) rfl, rfl, ?_, hserves.opened,
      hserves.takes⟩
    show t < (d.threads.set t _).length
    rw [List.length_set]
    exact hserves.thread
  | @message text hparse =>
    have htakes := hserves.takes rfl
    have hcall : ∀ last, Works t (d.entered t) last [.logic (.called (.message text))]
        (((d.entered t).setBreakpoints after).told (Reply.of x (some j)).json.text)
        (.verdict (.ok {})) := by
      intro last
      have hstep : Protocol.step (d.entered t).breakpoints (.called (.message text)) last =
          (after, deliver .message (.of x (some j))) := by
        simp only [Protocol.step, Protocol.enter, hparse]
        exact hanswer .message
      have hsend := works_sendJson (t := t) hstep
      rw [show (sink.send (d.entered t).sink (Reply.of x (some j)).json.text).2 = .ok
        () from htakes.now _] at hsend
      exact hsend
    have hworks : Works t d .none [.begin (.message text)]
        (e.told (Reply.of x (some j)).json.text) .none :=
      .of_act rfl ((works_dispatch hserves.opened .none hcall rfl).append (works_act rfl))
    refine ⟨_, .sent (hworks.finishes hserves.thread) rfl, rfl, ?_, hserves.opened,
      fun _ => htakes.next _⟩
    show t < (d.threads.set t _).length
    rw [List.length_set]
    exact hserves.thread

/-! ## Dialogues -/

theorem Serves.exchange_break (hserves : d.Serves t route) (hb : b.InRange)
    (hop : PassesOn route "break" op b.json) :
    ∃ r e, Exchange t d op r e ∧ r.code = 0 ∧ e.breakpoints = (d.breakpoints.add b).1 ∧
      e.Serves t route := by
  obtain ⟨j, hcarry, hasks⟩ := hop
  obtain ⟨e, hexchange, htable, he⟩ :=
    exchange_local hserves hcarry (hasks.readCommand_break hb) rfl
  exact ⟨_, e, hexchange, rfl, htable, he⟩

theorem Serves.exchange_clear (hserves : d.Serves t route) (hb : b.InRange)
    (hset : d.breakpoints.contains b = true) (hop : PassesOn route "clear" op b.json) :
    ∃ r e, Exchange t d op r e ∧ r.code = 0 ∧ e.breakpoints = (d.breakpoints.remove b).1 ∧
      e.Serves t route := by
  obtain ⟨j, hcarry, hasks⟩ := hop
  have hlocal : executeLocal d.breakpoints (.clearBreakpoint b) =
      some ((d.breakpoints.remove b).1, .ok b.json) := by
    show some ((d.breakpoints.remove b).1, if (d.breakpoints.remove b).2 then _ else _) = _
    rw [BreakpointTable.snd_remove, if_pos hset]
  obtain ⟨e, hexchange, htable, he⟩ :=
    exchange_local hserves hcarry (hasks.readCommand_clear hb) hlocal
  exact ⟨_, e, hexchange, rfl, htable, he⟩

/-- **Setting** items one after the other sets them beside what was set. -/
theorem Serves.sets (hserves : d.Serves t route) (hordered : d.breakpoints.Ordered)
    (hgiven : ∀ x ∈ given, ∃ b : Breakpoint, b.InRange ∧ b.json = x)
    (hops : List.Forall₂ (PassesOn route "break") ops given) :
    ∃ rs e, Dialogue t d ops rs e ∧ (∀ r ∈ rs, r.code = 0) ∧ e.Serves t route ∧
      e.breakpoints.Ordered ∧
      ∀ c, e.breakpoints.contains c = true ↔ c.json ∈ given ∨ d.breakpoints.contains c = true := by
  induction hops generalizing d with
  | nil => exact ⟨[], d, .nil d, by simp, hserves, hordered, by simp⟩
  | @cons op x ops given hop hops ih =>
    obtain ⟨b, hb, rfl⟩ := hgiven x List.mem_cons_self
    obtain ⟨r, e, hfirst, hcode, htable, he⟩ := hserves.exchange_break hb hop
    obtain ⟨rs, f, hrest, hcodes, hf, hordered', hset⟩ :=
      ih he (htable ▸ hordered.add b) fun y hy => hgiven y (List.mem_cons_of_mem _ hy)
    refine ⟨r :: rs, f, .cons hfirst hrest, List.forall_mem_cons.2 ⟨hcode, hcodes⟩, hf,
      hordered', fun c => ?_⟩
    rw [hset, htable, BreakpointTable.contains_add, List.mem_cons, Breakpoint.json_injective.eq_iff]
    tauto

/-- **Clearing** different items that are set, one after the other, clears them and nothing else. -/
theorem Serves.clears (hserves : d.Serves t route) (hordered : d.breakpoints.Ordered)
    (hnodup : given.Nodup)
    (hgiven : ∀ x ∈ given, ∃ b : Breakpoint, (b.InRange ∧ d.breakpoints.contains b = true) ∧
      b.json = x)
    (hops : List.Forall₂ (PassesOn route "clear") ops given) :
    ∃ rs e, Dialogue t d ops rs e ∧ (∀ r ∈ rs, r.code = 0) ∧ e.Serves t route ∧
      e.breakpoints.Ordered ∧
      ∀ c, e.breakpoints.contains c = true ↔ c.json ∉ given ∧ d.breakpoints.contains c = true := by
  induction hops generalizing d with
  | nil => exact ⟨[], d, .nil d, by simp, hserves, hordered, by simp⟩
  | @cons op x ops given hop hops ih =>
    obtain ⟨b, ⟨hb, hset⟩, rfl⟩ := hgiven x List.mem_cons_self
    obtain ⟨hfresh, hnodup⟩ := List.nodup_cons.1 hnodup
    obtain ⟨r, e, hfirst, hcode, htable, he⟩ := hserves.exchange_clear hb hset hop
    -- the items that are left are not the one just cleared, so they are still set
    have hleft : ∀ y ∈ given, ∃ c : Breakpoint, (c.InRange ∧ e.breakpoints.contains c = true) ∧
        c.json = y := by
      intro y hy
      obtain ⟨c, ⟨hc, hcset⟩, rfl⟩ := hgiven y (List.mem_cons_of_mem _ hy)
      have hne : c ≠ b := by
        rintro rfl
        exact hfresh hy
      refine ⟨c, ⟨hc, ?_⟩, rfl⟩
      rw [htable]
      exact BreakpointTable.contains_remove.2 ⟨hne, hcset⟩
    obtain ⟨rs, f, hrest, hcodes, hf, hordered', hkept⟩ :=
      ih he (htable ▸ hordered.remove b) hnodup hleft
    refine ⟨r :: rs, f, .cons hfirst hrest, List.forall_mem_cons.2 ⟨hcode, hcodes⟩, hf,
      hordered', fun c => ?_⟩
    rw [hkept, htable, BreakpointTable.contains_remove, List.mem_cons,
      Breakpoint.json_injective.eq_iff]
    tauto

/-! ## The listing -/

/-- The forms of the breakpoints that are set, which is what a listing shows. -/
def breakpointForms (d : Debugger (Protocol.setup host sink)) : List Json :=
  d.breakpoints.all.map Breakpoint.json

/-- **Listed.** Whoever asks for the breakpoints is replied the items. -/
def Listed (d : Debugger (Protocol.setup host sink)) (t : ThreadId) (route : Route)
    (items : List Json) : Prop :=
  ∀ op data j, Carries j route op → Asks "breakpoints" data j →
    ∃ e, Exchange t d op ⟨0, .array items, some j⟩ e

/-- **Accepts.** However a command is passed on for each item in turn, it succeeds every time, and
leads to what is wanted. -/
def Accepts (d : Debugger (Protocol.setup host sink)) (t : ThreadId) (route : Route)
    (command : String) (items : List Json)
    (Wanted : Debugger (Protocol.setup host sink) → Prop) : Prop :=
  ∀ ops, List.Forall₂ (PassesOn route command) ops items →
    ∃ rs e, Dialogue t d ops rs e ∧ (∀ r ∈ rs, r.code = 0) ∧ Wanted e

theorem Serves.lists (hserves : d.Serves t route) : d.Listed t route d.breakpointForms := by
  intro op data j hcarry hasks
  obtain ⟨e, hexchange, -, -⟩ := exchange_local hserves hcarry hasks.readCommand_breakpoints rfl
  exact ⟨e, hexchange⟩

/-- **Sound along every schedule.** -/
theorem sound_instant (h : d.breakpoints.Sound) (σ : Schedule) (n : Nat) :
    (d.instant σ n).breakpoints.Sound := by
  refine table_instant (P := BreakpointTable.Sound) (fun _ p last h => ?_) h σ n
  refine Protocol.step_keeps BreakpointTable.sound_empty (fun table b data h hread => ?_)
    (fun table b h => ?_) h p last
  · refine ⟨h.ordered.add b, fun c hc => ?_⟩
    rcases BreakpointTable.contains_add.1 hc with rfl | hc
    · exact Breakpoint.inRange_of_read hread
    · exact h.inRange c hc
  · exact ⟨h.ordered.remove b, fun c hc => h.inRange c (BreakpointTable.contains_remove.1 hc).2⟩

/-- An item of the listing is the form of what is set. -/
theorem mem_breakpointForms (h : d.breakpoints.Ordered) {x : Json} :
    x ∈ d.breakpointForms ↔ ∃ b, d.breakpoints.contains b = true ∧ b.json = x := by
  unfold breakpointForms
  rw [List.mem_map]
  simp only [h.mem_all]

theorem json_mem_breakpointForms (h : d.breakpoints.Ordered) :
    b.json ∈ d.breakpointForms ↔ d.breakpoints.contains b = true := by
  rw [mem_breakpointForms h]
  constructor
  · rintro ⟨c, hc, heq⟩
    exact Breakpoint.json_injective heq ▸ hc
  · exact fun hb => ⟨b, hb, rfl⟩

/-- **Listings can be fed back.** At any time of a session that starts without breakpoints, the
items that a listing shows read as the breakpoints that are set, and are written as they are. Passed
on in any order as what to clear, each is cleared, and nothing is listed any more. Passed on as what
to set, in any order and any number of times, to a session without breakpoints, they are listed
there as they were here. -/
theorem listing_feeds_back {d : Debugger (Protocol.setup host sink)} (hnone : d.breakpoints = {})
    (σ : Schedule) (n : Nat) :
    (d.instant σ n).breakpointForms.map Breakpoint.read = (d.instant σ n).breakpoints.all.map .ok ∧
    (∀ request, (Reply.mk 0 (.array (d.instant σ n).breakpointForms) request).json.member? "value" =
      some (.array (d.instant σ n).breakpointForms)) ∧
    (∀ t route, (d.instant σ n).Serves t route →
      (d.instant σ n).Listed t route (d.instant σ n).breakpointForms ∧
      ∀ items, items.Perm (d.instant σ n).breakpointForms →
        (d.instant σ n).Accepts t route "clear" items fun e => e.Listed t route []) ∧
    ∀ {host' : Host} {sink' : Sink} (d' : Debugger (Protocol.setup host' sink')) t route,
      d'.breakpoints = {} → d'.Serves t route →
      ∀ items, (∀ x, x ∈ items ↔ x ∈ (d.instant σ n).breakpointForms) →
        d'.Accepts t route "break" items fun e => e.Listed t route
          (d.instant σ n).breakpointForms := by
  have hsound : (d.instant σ n).breakpoints.Sound :=
    sound_instant (hnone ▸ BreakpointTable.sound_empty) σ n
  generalize d.instant σ n = d at hsound
  have hordered := hsound.ordered
  have hitem {x : Json} (hx : x ∈ d.breakpointForms) :
      ∃ b : Breakpoint, (b.InRange ∧ d.breakpoints.contains b = true) ∧ b.json = x := by
    obtain ⟨b, hb, rfl⟩ := (mem_breakpointForms hordered).1 hx
    exact ⟨b, ⟨hsound.inRange b hb, hb⟩, rfl⟩
  refine ⟨?_, fun request => ?_,
    fun t route hserves => ⟨hserves.lists, fun items hperm ops hops => ?_⟩,
    fun {host' sink'} d' t route hempty hserves items hsame ops hops => ?_⟩
  · unfold breakpointForms
    rw [List.map_map]
    refine List.map_congr_left fun b hb => ?_
    exact Breakpoint.read_json (hsound.inRange b (hordered.mem_all.1 hb))
  · have hsorted : (Json.array d.breakpointForms).sorted = .array d.breakpointForms :=
      congrArg Json.array (Json.sortedItems_breakpoints _)
    unfold Reply.json
    rw [hsorted]
    rfl
  · have hnodup : items.Nodup :=
      hperm.nodup_iff.2 (hordered.nodup_all.map Breakpoint.json_injective)
    obtain ⟨rs, e, hdialogue, hcodes, he, hordered', hleft⟩ :=
      hserves.clears hordered hnodup (fun x hx => hitem (hperm.mem_iff.1 hx)) hops
    have hcleared : e.breakpointForms = [] := by
      refine List.eq_nil_iff_forall_not_mem.2 fun x hx => ?_
      obtain ⟨c, hc, rfl⟩ := (mem_breakpointForms hordered').1 hx
      obtain ⟨hfresh, hset⟩ := (hleft c).1 hc
      exact hfresh (hperm.mem_iff.2 ((json_mem_breakpointForms hordered).2 hset))
    exact ⟨rs, e, hdialogue, hcodes, hcleared ▸ he.lists⟩
  · have hstart : d'.breakpoints.Ordered := hempty ▸ BreakpointTable.ordered_empty
    have hgiven : ∀ x ∈ items, ∃ b : Breakpoint, b.InRange ∧ b.json = x := by
      intro x hx
      obtain ⟨b, ⟨hb, -⟩, heq⟩ := hitem ((hsame x).1 hx)
      exact ⟨b, hb, heq⟩
    obtain ⟨rs, e, hdialogue, hcodes, he, hordered', hset⟩ := hserves.sets hstart hgiven hops
    have htable : e.breakpoints = d.breakpoints := by
      refine hordered'.ext hordered fun c => ?_
      rw [hset, hsame, json_mem_breakpointForms hordered, hempty]
      simp [BreakpointTable.contains_empty]
    have hlisted : e.breakpointForms = d.breakpointForms := by
      unfold breakpointForms
      rw [htable]
    exact ⟨rs, e, hdialogue, hcodes, hlisted ▸ he.lists⟩

end Debugger

namespace Rehearsal

open Debugger (Turn Schedule)

theorem takes_of_capture (s : SinkState) (h : s.mode = .capture) : sink.Takes s := by
  intro sent text
  induction sent generalizing s with
  | nil =>
    show (SinkState.send s text).2 = .ok ()
    simp only [SinkState.send, h]
  | cons x sent ih =>
    have hnext : SinkState.mode (SinkState.send s x).1 = .capture := by
      simp only [SinkState.send, h]
    exact ih (SinkState.send s x).1 hnext

/-- A caller passes a request on, and is answered. -/
def asking (command : String) (b : Breakpoint) : List Turn :=
  .call 0 (.request (Protocol.Request.json ⟨none, command, b.json⟩)) :: List.replicate 8 (.step 0)

/-- A function and a line are set. -/
def marking : Schedule :=
  .ofTurns (asking "break" (.function "step") ++ asking "break" (.line "demo.lua" 12))

/-- The two breakpoints that were set are listed; they are cleared in any order, and set anew with
one of them given twice. -/
theorem marking_fed_back : attendedSession.breakpoints = {} ∧
    (attendedSession.instant marking 18).Accepts 0 .message "clear"
      [(Breakpoint.function "step").json, (Breakpoint.line "demo.lua" 12).json]
      (fun e => e.Listed 0 .message []) ∧
    attendedSession.Accepts 0 .message "break"
      [(Breakpoint.function "step").json, (Breakpoint.line "demo.lua" 12).json,
        (Breakpoint.function "step").json]
      (fun e => e.Listed 0 .message [(Breakpoint.line "demo.lua" 12).json,
        (Breakpoint.function "step").json]) := by
  obtain ⟨-, -, hclear, hset⟩ := Debugger.listing_feeds_back (d := attendedSession) rfl marking 18
  have htable : (attendedSession.instant marking 18).breakpoints =
      ⟨[("demo.lua", [12])], ["step"]⟩ := rfl
  have hlisting : (attendedSession.instant marking 18).breakpointForms =
      [(Breakpoint.line "demo.lua" 12).json, (Breakpoint.function "step").json] := by
    unfold Debugger.breakpointForms
    rw [htable]
    rfl
  rw [hlisting] at hclear hset
  have hserves : (attendedSession.instant marking 18).Serves 0 .message :=
    ⟨Nat.zero_lt_one, Debugger.open_of_free rfl, fun _ => takes_of_capture _ rfl⟩
  refine ⟨rfl, (hclear 0 .message hserves).2 _ (.swap ..), hset attendedSession 0 .message rfl
    ⟨Nat.zero_lt_one, Debugger.open_of_free rfl, fun _ => takes_of_capture _ rfl⟩ _ fun x => ?_⟩
  simp only [List.mem_cons, List.not_mem_nil, or_false]
  tauto

end Rehearsal

end ScriptDebug
