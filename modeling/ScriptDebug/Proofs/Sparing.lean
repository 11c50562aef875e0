import ScriptDebug.Proofs.Calls
import ScriptDebug.Proofs.Effects
import ScriptDebug.Proofs.Outcome
import ScriptDebug.Proofs.Course

/-!
# What runs change

1. Only the code that runs an execution thread changes its frames (`act_spares`), and only runs and
   files that are loaded change the globals (`act_globals`).
2. `raised` and `assigned` record what a thread tells the hook of an execution, and which globals it
   assigns in running it; a thread that runs nothing leaves both as they are (`records_of_does`).
3. `OnlyRun` and `Calm` say of a state that no other run, or nothing else, is in the way of a run;
   both can be computed.
-/

namespace ScriptDebug

/-! ## What the machine keeps -/

namespace Script

/-- The execution thread that code runs. -/
def Code.execution? : Code → Option Handle
  | .agenda h _ => some h
  | _ => none

/-- The global that an instruction assigns. -/
def Instruction.assigned? : Instruction → Option Variable
  | .execute (.assign _ name v) _ => some (name, v)
  | _ => none

/-- The global that the next step of a run assigns. -/
def Code.assigns? (h : Handle) : Code → Option Variable
  | .agenda x (i :: _) => if x = h then i.assigned? else none
  | _ => none

theorem Program.assigned?_of_strokesOf {p : Program} {i : Instruction} {s : Stroke}
    {l : List Stroke} (h : p.strokesOf i = s :: l) : s.assigned? = i.assigned? := by
  cases i with
  | execute st budget => cases st <;> cases h <;> rfl
  | _ => cases h; rfl

namespace Machine

variable {m m' : Machine} {h x : Handle}

/-- **Spares.** The program and an execution thread are left alone. -/
structure Spares (m : Machine) (h : Handle) (m' : Machine) : Prop where
  program : m'.program = m.program
  execution : m'.execution? h = m.execution? h

theorem Spares.refl (m : Machine) (h : Handle) : m.Spares h m := ⟨rfl, rfl⟩

theorem Spares.frames (hs : m.Spares h m') : m'.frames h = m.frames h := by
  unfold Machine.frames
  rw [hs.execution]

theorem Spares.knows (hs : m.Spares h m') : m'.knows h = m.knows h := by
  unfold Machine.knows
  rw [hs.execution]

theorem spares_onFrames (hne : x ≠ h) (f : List Frame → List Frame) :
    m.Spares h (m.onFrames x f) := by
  unfold onFrames
  split
  · exact ⟨rfl, Ascending.get?_put_ne (Ne.symm hne) ..⟩
  · exact .refl m h

theorem spares_onFrame (hne : x ≠ h) (f : Frame → Frame) : m.Spares h (m.onFrame x f) :=
  spares_onFrames hne _

theorem spares_obey (hne : x ≠ h) (i : Instruction) : m.Spares h (m.obey x i).1 := by
  cases i with
  | enter | leave => exact spares_onFrames hne _
  | reach => exact spares_onFrame hne _
  | tell | callNative | returnNative => exact .refl m h
  | execute s budget =>
    cases s with
    | declare => exact spares_onFrame hne _
    | assign => exact ⟨rfl, rfl⟩
    | call line target =>
      show m.Spares h (m.execute x budget (.call line target)).1
      simp only [execute]
      split <;> exact .refl m h

theorem step_agenda (m : Machine) (h : Handle) (i : Instruction) (todo : List Instruction) :
    m.step (.agenda h (i :: todo)) = ((m.obey h i).1,
      match (m.obey h i).2.1 with
      | some r => .raise h r (.agenda h ((m.obey h i).2.2 ++ todo))
      | none => .next (.agenda h ((m.obey h i).2.2 ++ todo))) := by
  rcases hobey : m.obey h i with ⟨m', r, todo'⟩
  simp only [step, hobey]
  cases r <;> rfl

theorem spares_step {code : Code} (hne : code.execution? ≠ some h) :
    m.Spares h (m.step code).1 := by
  cases code with
  | expression => exact .refl m h
  | file x path =>
    show m.Spares h (m.load x path).1
    rw [m.load_eq]
    exact ⟨rfl, rfl⟩
  | agenda x todo =>
    cases todo with
    | nil => exact .refl m h
    | cons i todo =>
      rw [step_agenda]
      exact spares_obey (fun hx => hne (congrArg some hx)) i

theorem knows_step (hk : m.knows h = true) (code : Code) : (m.step code).1.knows h = true := by
  by_cases hne : code.execution? = some h
  · cases code with
    | agenda x todo =>
      obtain rfl := Option.some.inj hne
      cases todo with
      | nil => exact hk
      | cons i todo =>
        obtain ⟨s, silent, -, hcarries, -⟩ := obey_strokes hk i
        rw [step_agenda]
        exact hcarries.knows
    | _ => cases hne
  · exact (spares_step hne).knows.trans hk

/-- Whether code loads a file. -/
def loads (m : Machine) : Code → Bool
  | .file h path => (m.load h path).2.isOk
  | _ => false

theorem globals_step {code : Code} (hrun : code.execution? = none) (hload : m.loads code = false) :
    (m.step code).1.globals = m.globals := by
  cases code with
  | expression => rfl
  | agenda => cases hrun
  | file x path =>
    show (m.load x path).1.globals = m.globals
    cases hresult : (m.load x path).2 with
    | ok =>
      have hloads : m.loads (.file x path) = (m.load x path).2.isOk := rfl
      rw [hload, hresult] at hloads
      cases hloads
    | error f => rw [(load_of_error hresult).2]

end Machine

end Script

/-! ## What an action does to the machine -/

/-- The report that is raised for an execution. -/
def HostMove.raised? {κ ν : Type} (h : Handle) : HostMove κ ν → Option Hook.Report
  | .raise x r _ => if x = h then some r else none
  | _ => none

section Action

variable {S : Setup}

/-- A run raises nothing for other executions. -/
theorem Script.Machine.raised?_step {m : Script.Machine} {x h : Handle} (hne : x ≠ h)
    (todo : List Script.Instruction) : (m.step (.agenda x todo)).2.raised? h = none := by
  cases todo with
  | nil => rfl
  | cons i todo =>
    rw [step_agenda]
    cases (m.obey x i).2.1 with
    | none => rfl
    | some r => simp [HostMove.raised?, hne]

/-- What an action tells the hook of an execution. -/
def Action.tells? (host : S.host.State) (h : Handle) : Action S → Option Hook.Report
  | .host code => (S.host.step host code).2.raised? h
  | _ => none

theorem Debugger.act_host {d e : Debugger S} {t : ThreadId} {last ans : Answer} {a : Action S}
    {todo : List (Action S)} (hact : d.act t last a = some (e, todo, ans)) :
    e.host = d.host ∨ (∃ x, a = .install x ∧ e.host = (S.host.installHook d.host x).1) ∨
      (∃ x, a = .uninstall x ∧ e.host = (S.host.removeHook d.host x).1) ∨
      ∃ code, a = .host code ∧ e.host = (S.host.step d.host code).1 := by
  cases a with
  | begin op =>
    cases op <;> simp only [act, beginOperation, beginLook] at hact <;> (repeat' split at hact) <;>
      cases hact <;> exact .inl rfl
  | install x =>
    simp only [act] at hact
    (repeat' split at hact) <;> cases hact
    · rename_i hinstall
      exact .inr (.inl ⟨x, rfl, by rw [hinstall]⟩)
    · rename_i hinstall
      exact .inr (.inl ⟨x, rfl, by rw [hinstall]⟩)
    · exact .inl rfl
  | uninstall x =>
    cases hact
    exact .inr (.inr (.inl ⟨x, rfl, rfl⟩))
  | host code =>
    simp only [act] at hact
    split at hact <;> cases hact <;> exact .inr (.inr (.inr ⟨code, rfl, rfl⟩))
  | resumeEach cs n =>
    cases cs <;> simp only [act] at hact <;> (repeat' split at hact) <;> cases hact <;>
      exact .inl rfl
  | describe cs done =>
    cases cs <;> simp only [act] at hact <;> (repeat' split at hact) <;> cases hact <;>
      exact .inl rfl
  | _ =>
    simp only [act] at hact
    (repeat' split at hact) <;> cases hact <;> exact .inl rfl

theorem Debugger.act_of_raise {d : Debugger S} {t : ThreadId} {last : Answer}
    {code next : S.host.Code} {host : S.host.State} {h : Handle} {r : Hook.Report}
    (hstep : S.host.step d.host code = (host, .raise h r next)) :
    d.act t last (.host code) =
    some ({ d with host }, [.begin (.hook h r), .host next], .none) := by
  simp only [act, hstep]

theorem Debugger.act_of_next {d : Debugger S} {t : ThreadId} {last : Answer}
    {code next : S.host.Code} {host : S.host.State}
    (hstep : S.host.step d.host code = (host, .next next)) :
    d.act t last (.host code) = some ({ d with host }, [.host next], .none) := by
  simp only [act, hstep]

end Action

variable {logic : Logic} {sink : Sink}

/-- The execution thread that an action runs. -/
def Action.execution? : Action ⟨Script.host, logic, sink⟩ → Option Handle
  | .begin (.run h) => some h
  | .host code => Script.Code.execution? code
  | _ => none

/-- Whether an action loads a file. -/
def Action.loads (m : Script.Machine) : Action ⟨Script.host, logic, sink⟩ → Bool
  | .host code => m.loads code
  | _ => false

/-- The global that an action assigns in a run of an execution thread. -/
def Action.assigns? (h : Handle) : Action ⟨Script.host, logic, sink⟩ → Option Script.Variable
  | .host code => Script.Code.assigns? h code
  | _ => none

namespace Debugger

variable {d e : Debugger ⟨Script.host, logic, sink⟩} {σ : Schedule} {t u : ThreadId} {h : Handle}
  {last ans : Answer} {a : Action ⟨Script.host, logic, sink⟩}
  {as rest todo : List (Action ⟨Script.host, logic, sink⟩)} {i k n r : Nat}

theorem act_spares (hact : d.act t last a = some (e, todo, ans)) (hne : a.execution? ≠ some h) :
    Script.Machine.Spares d.host h e.host := by
  rcases act_host hact with heq | ⟨x, rfl, heq⟩ | ⟨x, rfl, heq⟩ | ⟨code, rfl, heq⟩ <;> rw [heq]
  · exact .refl _ h
  · show Script.Machine.Spares d.host h (Script.Machine.installHook d.host x).1
    unfold Script.Machine.installHook
    split <;> exact ⟨rfl, rfl⟩
  · show Script.Machine.Spares d.host h (Script.Machine.removeHook d.host x).1
    unfold Script.Machine.removeHook
    split <;> exact ⟨rfl, rfl⟩
  · exact Script.Machine.spares_step hne

theorem act_knows (hact : d.act t last a = some (e, todo, ans))
    (hk : Script.Machine.knows d.host h = true) :
    Script.Machine.knows e.host h = true := by
  by_cases hne : a.execution? = some h
  · rcases act_host hact with heq | ⟨x, rfl, -⟩ | ⟨x, rfl, -⟩ | ⟨code, rfl, heq⟩
    · rw [heq]
      exact hk
    · cases hne
    · cases hne
    · rw [heq]
      exact Script.Machine.knows_step hk code
  · exact (act_spares hact hne).knows.trans hk

theorem act_globals (hact : d.act t last a = some (e, todo, ans)) (hrun : a.execution? = none)
    (hload : a.loads d.host = false) :
    e.host.globals = d.host.globals := by
  rcases act_host hact with heq | ⟨x, rfl, heq⟩ | ⟨x, rfl, heq⟩ | ⟨code, rfl, heq⟩ <;> rw [heq]
  · show (Script.Machine.installHook d.host x).1.globals = _
    unfold Script.Machine.installHook
    split <;> rfl
  · show (Script.Machine.removeHook d.host x).1.globals = _
    unfold Script.Machine.removeHook
    split <;> rfl
  · exact Script.Machine.globals_step hrun hload

/-! ## What a run does -/

theorem act_run (hk : Script.Machine.knows d.host h = true) :
    d.act t last (.begin (.run h)) =
      some (d, [.host (.agenda h (Script.Machine.agenda d.host)),
        .give (.ran (.ok ()))], .none) := by
  have hrun : Script.host.run d.host h = _ := if_pos hk
  simp only [act, beginOperation]
  split
  · rename_i hfails
    cases hrun.symm.trans hfails
  · rename_i hok
    cases hrun.symm.trans hok
    rfl

theorem act_run_unknown (hk : Script.Machine.knows d.host h = false) :
    d.act t last (.begin (.run h)) = some (d, [], .ran (.error (.unknownExecution h))) := by
  have hrun : Script.host.run d.host h = _ := if_neg (Bool.eq_false_iff.1 hk)
  simp only [act, beginOperation]
  split
  · rename_i hfails
    cases hrun.symm.trans hfails
    rfl
  · rename_i hok
    cases hrun.symm.trans hok

/-- **One step of a run:** an instruction is obeyed,
and the hook is called where it tells something. -/
theorem act_agenda (i : Script.Instruction) (more : List Script.Instruction) :
    let m : Script.Machine := d.host
    d.act t last (.host (.agenda h (i :: more))) = some ({ d with host := (m.obey h i).1 },
      ((m.obey h i).2.1.map fun r => .begin (.hook h r)).toList ++
      [.host (.agenda h ((m.obey h i).2.2 ++ more))],
      .none) := by
  intro m
  have hstep := m.step_agenda h i more
  cases hr : (m.obey h i).2.1 with
  | none =>
    rw [hr] at hstep
    exact act_of_next hstep
  | some r =>
    rw [hr] at hstep
    exact act_of_raise hstep

/-! ## What is recorded of a run -/

/-- What is recorded from one turn up to another. -/
def recorded {α : Type} (f : Nat → Option α) (k n : Nat) : List α :=
  (List.range' k (n - k)).filterMap f

theorem recorded_self {α : Type} (f : Nat → Option α) (k : Nat) : recorded f k k = [] := by
  simp [recorded]

theorem recorded_succ {α : Type} (f : Nat → Option α) (hkn : k ≤ n) :
    recorded f k (n + 1) = recorded f k n ++ (f n).toList := by
  unfold recorded
  rw [Nat.succ_sub hkn, List.range'_concat, List.filterMap_append, Nat.one_mul,
    Nat.add_sub_cancel' hkn]
  cases hf : f n <;> simp [hf]

/-- The action whose turn it is on a thread. -/
def actionAt {S : Setup} (d : Debugger S) (σ : Schedule) (t : ThreadId) (n : Nat) :
    Option (Action S) :=
  match σ n with
  | .step u => if u = t then ((d.instant σ n).thread t).agenda.head? else none
  | _ => none

/-- What a thread tells the hook of an execution at a turn, and the frames at that time. -/
def tellsAt (d : Debugger ⟨Script.host, logic, sink⟩) (σ : Schedule) (t : ThreadId)
    (h : Handle) (n : Nat) :
    Option (Hook.Report × List Script.Frame) :=
  ((d.actionAt σ t n).bind (·.tells? (d.instant σ n).host h)).map
    (·, Script.Machine.frames (d.instant σ n).host h)

/-- The global that a thread assigns at a turn, in a run of an execution. -/
def assignsAt (d : Debugger ⟨Script.host, logic, sink⟩) (σ : Schedule) (t : ThreadId)
    (h : Handle) (n : Nat) :
    Option Script.Variable :=
  (d.actionAt σ t n).bind (·.assigns? h)

/-- Whether a file is loaded at a turn. -/
def loadsAt (d : Debugger ⟨Script.host, logic, sink⟩) (σ : Schedule) (n : Nat) : Bool :=
  match σ n with
  | .step u => (d.actionAt σ u n).any (·.loads (d.instant σ n).host)
  | _ => false

/-- **Raised.** The hook events that a thread raises for an execution, from one turn up to another,
each with the frames at that time. -/
def raised (d : Debugger ⟨Script.host, logic, sink⟩) (σ : Schedule) (t : ThreadId)
    (h : Handle) (k n : Nat) :
    List (Hook.Report × List Script.Frame) :=
  recorded (d.tellsAt σ t h) k n

/-- **Assigned.** The globals that a thread assigns in runs of an execution,
from one turn up to another. -/
def assigned (d : Debugger ⟨Script.host, logic, sink⟩) (σ : Schedule) (t : ThreadId)
    (h : Handle) (k n : Nat) :
    List Script.Variable :=
  recorded (d.assignsAt σ t h) k n

theorem Does.actionAt {S : Setup} {d : Debugger S} {a : Action S} {as : List (Action S)}
    (hd : d.Does σ n t a as) : d.actionAt σ t n = some a := by
  simp only [Debugger.actionAt, hd.turn, hd.agenda, if_true, List.head?_cons]

theorem Does.of_host {S : Setup} {d : Debugger S} {code : S.host.Code} {as : List (Action S)}
    (hturn : σ n = .step t) (hag : ((d.instant σ n).thread t).agenda = .host code :: as) :
    d.Does σ n t (.host code) as := by
  refine ⟨hturn, hag, ?_⟩
  simp only [Debugger.step, hag, Debugger.act]
  split <;> rfl

theorem records_of_not_does (hno : ¬ ∃ a as, d.Does σ n t a as) :
    d.tellsAt σ t h n = none ∧ d.assignsAt σ t h n = none := by
  have hhost : ∀ code, d.actionAt σ t n ≠ some (.host code) := by
    intro code hcode
    unfold Debugger.actionAt at hcode
    split at hcode
    · rename_i u hturn
      split at hcode
      · rename_i hut
        subst hut
        obtain ⟨as, hag⟩ : ∃ as, ((d.instant σ n).thread u).agenda = .host code :: as :=
          List.head?_eq_some_iff.1 hcode
        exact hno ⟨.host code, as, .of_host hturn hag⟩
      · cases hcode
    · cases hcode
  unfold tellsAt assignsAt
  cases ha : d.actionAt σ t n with
  | none => exact ⟨rfl, rfl⟩
  | some a =>
    cases a with
    | host code => exact absurd ha (hhost code)
    | _ => exact ⟨rfl, rfl⟩

/-- An action that runs no execution tells its hook nothing and assigns nothing in it. -/
theorem records_of_does (hd : d.Does σ n t a as) (hne : a.execution? ≠ some h) :
    d.tellsAt σ t h n = none ∧ d.assignsAt σ t h n = none := by
  unfold tellsAt assignsAt
  rw [hd.actionAt, Option.bind_some, Option.bind_some]
  cases a with
  | host code =>
    cases code with
    | expression | file => exact ⟨rfl, rfl⟩
    | agenda x todo =>
      have hx : x ≠ h := fun hx => hne (congrArg some hx)
      refine ⟨congrArg (Option.map _) (Script.Machine.raised?_step hx todo), ?_⟩
      cases todo with
      | nil => rfl
      | cons i todo => exact if_neg hx
  | _ => exact ⟨rfl, rfl⟩

/-! ## No other run -/

/-- **The only run** of some executions is one on a thread. -/
def OnlyRun (d : Debugger ⟨Script.host, logic, sink⟩) (which : Handle → Bool)
    (t : ThreadId) : Prop :=
  ∀ u, (d.thread u).agenda.countP (fun a => a.execution?.any which) ≤ if u = t then 1 else 0

/-- **Calm.** At a turn there is no other run than that of a thread, and no file loads. -/
structure Calm (d : Debugger ⟨Script.host, logic, sink⟩) (σ : Schedule) (t : ThreadId)
    (n : Nat) : Prop where
  only : (d.instant σ n).OnlyRun (fun _ => true) t
  unloaded : d.loadsAt σ n = false

theorem onlyRun_iff {which : Handle → Bool} : d.OnlyRun which t ↔ ∀ u < d.threads.length,
    (d.thread u).agenda.countP (fun a => a.execution?.any which) ≤ if u = t then 1 else 0 := by
  refine ⟨fun h u _ => h u, fun h u => ?_⟩
  by_cases hu : u < d.threads.length
  · exact h u hu
  · have hnil : (d.thread u).agenda = [] := by
      by_contra hne
      exact hu (lt_length_of_agenda hne)
    rw [hnil]
    exact Nat.zero_le _

instance (which : Handle → Bool) : Decidable (d.OnlyRun which t) :=
  decidable_of_iff _ onlyRun_iff.symm

instance : Decidable (d.Calm σ t n) :=
  decidable_of_iff ((d.instant σ n).OnlyRun (fun _ => true) t ∧ d.loadsAt σ n = false)
    ⟨fun h => ⟨h.1, h.2⟩, fun h => ⟨h.only, h.unloaded⟩⟩

theorem OnlyRun.mono {which which' : Handle → Bool} (h : d.OnlyRun which t)
    (himp : ∀ x, which' x = true → which x = true) : d.OnlyRun which' t := by
  intro u
  refine Nat.le_trans (List.countP_mono_left fun a _ ha => ?_) (h u)
  cases hx : a.execution? with
  | none =>
    rw [hx] at ha
    cases ha
  | some x =>
    rw [hx] at ha
    exact himp x ha

theorem OnlyRun.other {which : Handle → Bool} (h : d.OnlyRun which t) (hut : u ≠ t)
    (ha : a ∈ (d.thread u).agenda) :
    a.execution?.any which = false := by
  have hzero : (d.thread u).agenda.countP (fun a => a.execution?.any which) = 0 := by
    have hle := h u
    rw [if_neg hut] at hle
    exact Nat.le_zero.1 hle
  exact Bool.eq_false_iff.2 (List.countP_eq_zero.1 hzero a ha)

theorem OnlyRun.beside {which : Handle → Bool} {b : Action ⟨Script.host, logic, sink⟩}
    (h : d.OnlyRun which t) (hag : (d.thread t).agenda = as ++ b :: rest)
    (hb : b.execution?.any which = true) (ha : a ∈ as ++ rest) :
    a.execution?.any which = false := by
  have hle := h t
  simp only [hag, List.countP_append, List.countP_cons, hb, if_true] at hle
  have hzero : (as ++ rest).countP (fun a => a.execution?.any which) = 0 := by
    rw [List.countP_append]
    omega
  exact Bool.eq_false_iff.2 (List.countP_eq_zero.1 hzero a ha)

end Debugger

end ScriptDebug
