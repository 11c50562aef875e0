import ScriptDebug.Demo
import ScriptDebug.Proofs.Hooking

/-!
# What others leave alone

Whoever uses a debugger may keep to some executions `F`: he registers and withdraws no others, and
installs and removes the hooks of no others (`Abides`). If the client logic keeps to them as well,
as the JSON protocol does (`Protocol.logic_abides`), everything that comes of such an operation
keeps to them (`Leads.abides`), and every step of it leaves the registrations and the hooks of all
other executions as they are (`act_respects`). Whatever anybody does, contexts and execution threads
stay (`Preserves`).
-/

namespace ScriptDebug

/-- **Abides.** An operation registers and withdraws none but the given executions. -/
def Operation.Abides (F : Handle → Prop) : Operation → Prop
  | .start h _ | .stop h | .attach h _ | .detach h => F h
  | _ => True

/-- Whether an operation runs an execution, or raises its hook. -/
def Operation.raises : Operation → Bool
  | .hook .. | .run _ => true
  | _ => false

/-- An action registers and withdraws none but the given executions,
and leaves the hooks of all others alone. -/
def Action.Abides {S : Setup} (F : Handle → Prop) : Action S → Prop
  | .begin op => op.Abides F
  | .install h | .uninstall h => F h
  | _ => True

/-- Client logic keeps to the given executions, and runs none. -/
def Logic.Abides (F : Handle → Prop) (logic : Logic) : Prop :=
  ∀ s p last op next, (logic.step s p last).2 = .use op next → op.Abides F ∧ op.raises = false

/-- **The JSON protocol** keeps to whatever executions: it registers, withdraws and runs none. -/
theorem Protocol.logic_abides (F : Handle → Prop) : Protocol.logic.Abides F := by
  intro s p last op next hu
  rcases Protocol.step_use hu with ⟨text, v, rfl, -⟩ | ⟨hasked, -⟩
  · exact ⟨trivial, rfl⟩
  · cases op <;> first | exact ⟨trivial, rfl⟩ | cases hasked

/-! ## What comes in the place of an action -/

namespace Debugger

section Leads

variable {S : Setup} {F : Handle → Prop} {d : Debugger S} {a b : Action S}
  {todo : List (Action S)} {h : Handle}

theorem Leads.install (hl : d.Leads a todo) (hmem : .install h ∈ todo) :
    ∃ name, a = .begin (.attach h name) := by
  cases a with
  | begin op =>
    cases op with
    | attach x name =>
      obtain rfl : todo = _ := hl
      obtain rfl : h = x := by simpa using hmem
      exact ⟨name, rfl⟩
    | _ => exfalso; grind [Leads, OperationLeads, Action.dispatch]
  | resumeEach cs n => cases cs <;> exfalso <;> grind [Leads]
  | describe cs done => cases cs <;> exfalso <;> grind [Leads]
  | inspect k op => cases op <;> exfalso <;> grind [Leads, Operation.look]
  | _ => exfalso; grind [Leads, Action.dispatch]

theorem Leads.uninstall (hl : d.Leads a todo) (hmem : .uninstall h ∈ todo) :
    a = .begin (.detach h) := by
  cases a with
  | begin op => cases op <;> grind [Leads, OperationLeads, Action.dispatch]
  | resumeEach cs n => cases cs <;> grind [Leads]
  | describe cs done => cases cs <;> grind [Leads]
  | inspect k op => cases op <;> grind [Leads, Operation.look]
  | _ => grind [Leads, Action.dispatch]

theorem Leads.abides (hlogic : S.logic.Abides F) (hl : d.Leads a todo) (ha : a.Abides F) :
    ∀ b ∈ todo, b.Abides F := by
  intro b hb
  cases b with
  | begin op =>
    rcases hl.begin hb with
      ⟨x, name, rfl, rfl⟩ | ⟨x, rfl | rfl, rfl⟩ | ⟨code, x, report, rfl, rfl⟩ |
        ⟨p, s, last, next, rfl, hu⟩
    · exact ha
    · exact ha
    · exact ha
    · trivial
    · exact (hlogic s p last op next hu).1
  | install h =>
    obtain ⟨name, rfl⟩ := hl.install hb
    exact ha
  | uninstall h =>
    obtain rfl := hl.uninstall hb
    exact ha
  | _ => trivial

end Leads

end Debugger

/-! ## What stays -/

namespace Script.Machine

theorem next_onFrames (m : Machine) (h : Handle) (f : List Frame → List Frame) :
    (m.onFrames h f).next = m.next := by
  unfold onFrames
  split <;> rfl

theorem next_obey (m : Machine) (h : Handle) (i : Instruction) : (m.obey h i).1.next = m.next := by
  cases i with
  | enter | reach | leave => exact next_onFrames ..
  | tell | callNative | returnNative => rfl
  | execute s budget =>
    cases s with
    | declare => exact next_onFrames ..
    | assign => rfl
    | call line target =>
      show (m.execute h budget (.call line target)).1.next = m.next
      simp only [execute]
      split <;> rfl

theorem next_step (m : Machine) (code : Code) : (m.step code).1.next = m.next := by
  cases code with
  | expression => rfl
  | file h path =>
    show (m.load h path).1.next = m.next
    rw [m.load_eq]
  | agenda h todo =>
    cases todo with
    | nil => rfl
    | cons i todo =>
      rw [step_agenda]
      exact m.next_obey h i

end Script.Machine

namespace Debugger

variable {logic : Logic} {sink : Sink} {F : Handle → Prop}
  {d e f : Debugger (Demo.setup logic sink)} {t : ThreadId} {last ans : Answer}
  {a : Action (Demo.setup logic sink)} {todo : List (Action (Demo.setup logic sink))}
  {c : ContextId} {x : Context} {h : Handle}

/-- **Preserves.** Contexts stay, under their handles, and closed for good;
and execution threads stay. -/
structure Preserves (d e : Debugger (Demo.setup logic sink)) : Prop where
  context : ∀ {c : ContextId} {x : Context}, d.contexts[c]? = some x →
    ∃ y, e.contexts[c]? = some y ∧ y.handle = x.handle ∧ (x.closed = true → y.closed = true)
  knows : ∀ {h : Handle}, Script.Machine.knows d.host h = true →
    Script.Machine.knows e.host h = true

/-- **Respects.** The registrations and the hooks of all but the given executions stay, and no
context of theirs is made. -/
structure Respects (F : Handle → Prop) (d e : Debugger (Demo.setup logic sink)) : Prop
    extends Preserves d e where
  lookup : ∀ {h : Handle}, ¬ F h → e.lookup h = d.lookup h
  isHooked : ∀ {h : Handle}, ¬ F h →
    Script.Machine.isHooked e.host h = Script.Machine.isHooked d.host h
  old : ∀ {c : ContextId} {y : Context}, e.contexts[c]? = some y → ¬ F y.handle →
    ∃ x, d.contexts[c]? = some x

theorem closed_of_act (hact : d.act t last (.close c) = some (e, todo, ans))
    (hx : d.contexts[c]? = some x) :
    ∃ y, e.contexts[c]? = some y ∧ y.handle = x.handle ∧ y.closed = true := by
  simp only [act, hx] at hact
  cases hact
  exact ⟨x.close.1, by rw [getElem?_setContext, if_pos rfl, hx]; rfl, rfl, rfl⟩

theorem act_preserves (hact : d.act t last a = some (e, todo, ans)) : d.Preserves e where
  context {c x} hx := by
    by_cases ha : a = .close c
    · subst ha
      obtain ⟨y, hy, hh, hclosed⟩ := closed_of_act hact hx
      exact ⟨y, hy, hh, fun _ => hclosed⟩
    · obtain ⟨y, hy, hh, -, -, hclosed⟩ := act_context hact hx
      exact ⟨y, hy, hh, (hclosed ha).trans⟩
  knows := act_knows hact

theorem Preserves.length_le (hp : d.Preserves e) : d.contexts.length ≤ e.contexts.length := by
  by_contra hlt
  obtain ⟨y, hy, -⟩ := hp.context (List.getElem?_eq_getElem (Nat.lt_of_not_le hlt))
  exact Nat.lt_irrefl _ (List.getElem?_eq_some_iff.1 hy).1

theorem act_next (hact : d.act t last a = some (e, todo, ans)) :
    Script.Machine.next e.host = Script.Machine.next d.host := by
  rcases act_host hact with heq | ⟨x, -, heq⟩ | ⟨x, -, heq⟩ | ⟨code, -, heq⟩ <;> rw [heq]
  · show (Script.Machine.installHook d.host x).1.next = _
    unfold Script.Machine.installHook
    split <;> rfl
  · show (Script.Machine.removeHook d.host x).1.next = _
    unfold Script.Machine.removeHook
    split <;> rfl
  · exact Script.Machine.next_step d.host code

/-- **An action that abides** leaves all other executions alone. -/
theorem act_respects (hact : d.act t last a = some (e, todo, ans)) (ha : a.Abides F) :
    d.Respects F e where
  toPreserves := act_preserves hact
  lookup {h} hh := by
    unfold Debugger.lookup
    rcases act_registry hact with hr | ⟨x, name, rfl, -, hr, -⟩ | ⟨x, c, rfl, -, hr, -⟩ <;> rw [hr]
    · exact Ascending.get?_put_ne (by rintro rfl; exact hh ha) ..
    · exact Ascending.get?_remove_ne (by rintro rfl; exact hh ha) ..
  isHooked {h} hh := by
    have hinstall : a ≠ .install h := by
      rintro rfl
      exact hh ha
    have huninstall : a ≠ .uninstall h := by
      rintro rfl
      exact hh ha
    rw [Bool.eq_iff_iff]
    exact ⟨fun he => ((isHooked_of_act hact he).resolve_right fun hr => hinstall hr.1).2,
      isHooked_act hact huninstall⟩
  old {c y} hy hh := by
    cases hx : d.contexts[c]? with
    | some x => exact ⟨x, rfl⟩
    | none =>
      obtain ⟨x, name, rfl, rfl, -⟩ := started_of_new hact hx hy
      exact absurd ha hh

theorem respects_of_eq (hreg : e.registry = d.registry) (hctx : e.contexts = d.contexts)
    (hhooked : ∀ h, Script.Machine.isHooked e.host h = Script.Machine.isHooked d.host h)
    (hknows : ∀ {h}, Script.Machine.knows d.host h = true → Script.Machine.knows e.host h = true) :
    d.Respects F e where
  context {c x} hx := ⟨x, by rw [hctx]; exact hx, rfl, id⟩
  knows := hknows
  lookup _ := by unfold Debugger.lookup; rw [hreg]
  isHooked _ := hhooked _
  old {c y} hy _ := ⟨y, by rw [← hctx]; exact hy⟩

theorem respects_wakeEarly (F : Handle → Prop) (d : Debugger (Demo.setup logic sink)) (t : ThreadId)
    (c : ContextId) :
    d.Respects F (d.wakeEarly t c) := by
  unfold wakeEarly
  split
  · rename_i x hx
    refine ⟨⟨fun {k y} hy => ?_, id⟩, fun _ => rfl, fun _ => rfl, fun {k y} hy _ => ?_⟩
    · obtain ⟨z, hz, rfl | rfl⟩ := context_wake t hx hy <;> exact ⟨_, hz, rfl, id⟩
    · obtain ⟨z, hz, -⟩ := context_of_wake hx hy
      exact ⟨z, hz⟩
  · exact respects_of_eq rfl rfl (fun _ => rfl) id

end Debugger

end ScriptDebug
