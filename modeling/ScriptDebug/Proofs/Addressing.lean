import ScriptDebug.Proofs.Reread
import ScriptDebug.Proofs.Tokens
import ScriptDebug.Protocol.Command

/-!
# Addressing contexts

A client names a context by the token of its handle or by its number. Both forms survive the trip to
the client and back (`names_read_back`): each is read from its own text, and as the handle that it
was written for. So two handles never share a token, and a request means the same whichever form
stands in it.
-/

namespace ScriptDebug

variable {α : Type} {j k : Json} {key : String}

namespace Json

/-- A member may take another value that sets the same field to the same. -/
theorem Record.setMembers_congr (r : Record α)
    (h : ∀ f, r.field? key = some f → ∀ a, r.set a f.name j = r.set a f.name k)
    (before behind : List (String × Json)) (done : α) (seen : List String) :
    r.setMembers done seen (before ++ (key, j) :: behind) = r.setMembers done seen
      (before ++ (key, k) :: behind) := by
  induction before generalizing done seen with
  | nil =>
    simp only [List.nil_append, setMembers]
    cases hf : r.field? key with
    | none => rfl
    | some f => simp only [h f hf]
  | cons m before ih => simp only [List.cons_append, setMembers, ih]

theorem find?_congr {l m : List (String × Json)} {name : String} (hname : key ≠ name) :
    ((l ++ (key, j) :: m).find? fun x => x.1 == name) =
    (l ++ (key, k) :: m).find? fun x => x.1 == name := by
  have hkey : (key == name) = false := beq_false_of_ne hname
  simp only [List.find?_append, List.find?_cons, hkey]

end Json

namespace Protocol

/-- **Place of a context** in the arguments of a request: a member of an object,
or the first item of an array. -/
inductive ContextPlace where
  | member (before behind : List (String × Json))
  | item (behind : List Json)

/-- The arguments with a context named. -/
def ContextPlace.named (name : Json) : ContextPlace → Json
  | .member before behind => .object (before ++ ("context", name) :: behind)
  | .item behind => .array (name :: behind)

variable {place : ContextPlace}

/-- A record that starts with a context reads two names of one context alike. -/
theorem read_named (place : ContextPlace) (r : Json.Record α)
    (hfirst : r.fields.head? = some ⟨"context", none, true⟩)
    (h : ∀ a, r.set a "context" j = r.set a "context" k) :
    r.read (place.named j) = r.read (place.named k) := by
  obtain ⟨fields, hfields⟩ := List.head?_eq_some_iff.1 hfirst
  cases place with
  | member before behind =>
    have hfield : ∀ f, r.field? "context" = some f → ∀ a, r.set a f.name j = r.set a f.name k := by
      intro f hf
      obtain rfl : Json.Field.mk "context" none true = f := by
        simpa [Json.Record.field?, hfields] using hf
      exact h
    simp only [ContextPlace.named, Json.Record.read, Json.Record.setMembers_congr r hfield]
  | item behind =>
    simp only [ContextPlace.named, Json.Record.read, hfields, Json.Record.setItems, h,
      List.length_cons]

theorem readBreakpoint_named (place : ContextPlace) (j k : Json) :
    Breakpoint.read (place.named j) = Breakpoint.read (place.named k) := by
  have hmember : ∀ name, "context" ≠ name →
      (place.named j).member? name = (place.named k).member? name := by
    intro name hname
    cases place with
    | member before behind => exact congrArg (Option.map _) (Json.find?_congr hname)
    | item behind => rfl
  simp only [Breakpoint.read, Breakpoint.ofJson?, hmember "filename" (by decide),
    hmember "linenum" (by decide), hmember "funcname" (by decide)]

/-- **Names of one context** mean the same in every request: it asks for the same,
or is refused alike. -/
theorem toCommand_named (h : Json.asHandle j = Json.asHandle k) (id : Option Json)
    (command : String) :
    Request.toCommand ⟨id, command, place.named j⟩ =
    Request.toCommand ⟨id, command, place.named k⟩ := by
  have hcontext := read_named place ContextArgs.record rfl fun a => congrArg (· >>= _) h
  have heval := read_named place EvalArgs.record rfl fun a => congrArg (· >>= _) h
  have hframe := read_named place FrameArgs.record rfl fun a => congrArg (· >>= _) h
  have hvariable := read_named place VariableArgs.record rfl fun a => congrArg (· >>= _) h
  have hset := read_named place SetVariableArgs.record rfl fun a => congrArg (· >>= _) h
  have hload := read_named place LoadArgs.record rfl fun a => congrArg (· >>= _) h
  simp only [Request.toCommand, Request.listing, Request.showing, Request.setting,
    Request.arguments, hcontext, heval, hframe, hvariable, hset, hload,
    readBreakpoint_named place j k]

end Protocol

namespace Handle

variable {h k : Handle}

theorem asHandle_json (h : Handle) : Json.asHandle h.json = .ok h := by
  rw [json, Json.asHandle, parse_token]
  rfl

theorem asHandle_ofNat (h : Handle) : Json.asHandle (.ofNat h.raw.toNat) = .ok h := by
  rw [Json.ofNat, Json.asHandle, if_pos (Int.natCast_nonneg _), Int.toNat_natCast, ofNat_toNat]

theorem isPlain_of_mem_token (h : Handle) : ∀ c ∈ h.token.toList, Json.IsPlain c := by
  have hdigit : ∀ c d, Text.digitIn? 16 c = some d → Json.IsPlain c := by
    intro c d hc
    simp only [Text.digitIn?, Option.filter_eq_some_iff, Text.digitValue?] at hc
    have hlow : 48 ≤ c.toNat ∧ c.toNat ≠ 92 := by
      split_ifs at hc <;> grind
    refine ⟨Nat.le_trans (by decide) hlow.1, ?_, ?_⟩
    · rintro rfl
      exact absurd hlow.1 (by decide)
    · rintro rfl
      exact hlow.2 rfl
  have hmark : ∀ c ∈ ['0', 'x'], Json.IsPlain c := by
    simp only [List.forall_mem_cons, List.not_mem_nil, false_imp_iff, implies_true, and_true]
    exact ⟨⟨by decide, by decide, by decide⟩, ⟨by decide, by decide, by decide⟩⟩
  rw [toList_token]
  exact List.forall_mem_append.2
    ⟨hmark, (Text.spells_toDigits (by decide) (by decide) _).forall_mem (by decide) hdigit⟩

/-- **Every handle survives the trip.** -/
theorem names_read_back (h : Handle) :
    parse h.token = .ok h ∧ parse (toString h.raw.toNat) = .ok h ∧
      (Json.parse h.json.text = .ok h.json ∧ Json.asHandle h.json = .ok h) ∧
      (Json.parse (Json.ofNat h.raw.toNat).text = .ok (.ofNat h.raw.toNat) ∧
        Json.asHandle (.ofNat h.raw.toNat) = .ok h) ∧
      (∀ k : Handle, k.token = h.token → k = h) ∧
      ∀ (place : Protocol.ContextPlace) (id : Option Json) (command : String),
        Protocol.Request.toCommand ⟨id, command, place.named h.json⟩ =
          Protocol.Request.toCommand ⟨id, command, place.named (.ofNat h.raw.toNat)⟩ := by
  refine ⟨parse_token h, parse_numeral h,
    ⟨Json.parse_text_string (isPlain_of_mem_token h), asHandle_json h⟩,
    ⟨Json.parse_text_ofNat h.raw.toNat_lt, asHandle_ofNat h⟩, fun k hk => ?_,
    fun place id command => ?_⟩
  · have hparse := parse_token k
    rw [hk, parse_token h] at hparse
    exact (Except.ok.inj hparse).symm
  · exact Protocol.toCommand_named ((asHandle_json h).trans (asHandle_ofNat h).symm) id command

end Handle

end ScriptDebug
