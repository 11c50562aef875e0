import Mathlib.Data.Nat.Digits.Defs
import ScriptDebug.Handle
import ScriptDebug.Proofs.Cutting

/-!
# Tokens of handles

What digits of a base denote is said apart from how they are read: each digit counts, and the digits
together are the number with those digits (`Spells`).

1. Digits are read as the number that they spell (`ofDigits?_eq_some_iff`), and a number is written
   in digits that spell it (`spells_toDigits`).
2. A text is read as a handle if, blanks around it aside, it is hexadecimal digits behind `0x` or
   `0X`, or decimal digits; a plus sign before the digits is read over, too (`parse_eq_ok_iff`). So
   tokens are read just by their grammar if and only if they carry no plus sign
   (`reads_by_grammar_iff`; `signed_tokens_read` has the others).
3. Both the token and the decimal numeral of a handle are read as that handle (`parse_token`,
   `parse_numeral`).
-/

namespace ScriptDebug.Text

variable {base d n m : Nat} {c : Char} {cs : List Char} {ds : List Nat}

/-! ## Digits -/

theorem toNat_hexDigit (h : d < 16) : (hexDigit d).toNat = if d < 10 then 48 + d else 87 + d := by
  have hall : ∀ i : Fin 16, (hexDigit i).toNat = if i.1 < 10 then 48 + i.1 else 87 + i.1 := by
    decide
  exact hall ⟨d, h⟩

theorem toNat_toLower (c : Char) :
    c.toLower.toNat = if 65 ≤ c.toNat ∧ c.toNat ≤ 90 then c.toNat + 32 else c.toNat := by
  unfold Char.toLower
  split
  · rename_i h
    have hlow : 65 ≤ c.val.toNat := UInt32.le_iff_toNat_le.1 h.1
    have hhigh : c.val.toNat ≤ 90 := UInt32.le_iff_toNat_le.1 h.2
    rw [if_pos ⟨hlow, hhigh⟩]
    show (c.val + 32).toNat = c.val.toNat + 32
    rw [UInt32.toNat_add]
    exact Nat.mod_eq_of_lt (show c.val.toNat + 32 < 4294967296 by omega)
  · rename_i h
    rw [if_neg]
    exact fun hc => h ⟨UInt32.le_iff_toNat_le.2 hc.1, UInt32.le_iff_toNat_le.2 hc.2⟩

theorem digitIn?_eq_some_iff (hb : base ≤ 16) :
    digitIn? base c = some d ↔ d < base ∧ c.toLower = hexDigit d := by
  have hlower : d < 16 → (c.toLower = hexDigit d ↔
      (if 65 ≤ c.toNat ∧ c.toNat ≤ 90 then c.toNat + 32 else c.toNat) =
      if d < 10 then 48 + d else 87 + d) := by
    intro hd
    rw [← Char.toNat_inj, toNat_toLower, toNat_hexDigit hd]
  simp only [digitIn?, Option.filter_eq_some_iff, digitValue?, decide_eq_true_eq]
  constructor
  · rintro ⟨hval, hlt⟩
    refine ⟨hlt, (hlower (by omega)).2 ?_⟩
    clear hlower
    split_ifs at hval ⊢ <;> cases hval <;> omega
  · rintro ⟨hlt, heq⟩
    have heq := (hlower (by omega)).1 heq
    clear hlower
    refine ⟨?_, hlt⟩
    split_ifs at heq ⊢
    all_goals first | exact congrArg some (by omega) | omega

/-- **Digits.** Characters that are digits of a base, in either case,
and what each of them counts. -/
def AreDigits (base : Nat) (cs : List Char) (ds : List Nat) : Prop :=
  (∀ d ∈ ds, d < base) ∧ cs.map Char.toLower = ds.map hexDigit

/-- **Spells.** One or more digits denote a number,
the first digit being the most significant one. -/
def Spells (base : Nat) (cs : List Char) (n : Nat) : Prop :=
  cs ≠ [] ∧ ∃ ds, AreDigits base cs ds ∧ Nat.ofDigits base ds.reverse = n

theorem areDigits_nil : AreDigits base [] ds ↔ ds = [] := by
  constructor
  · rintro ⟨-, hmap⟩
    exact List.map_eq_nil_iff.1 hmap.symm
  · rintro rfl
    exact ⟨by simp, rfl⟩

theorem areDigits_cons (hb : base ≤ 16) : AreDigits base (c :: cs) ds ↔
    ∃ d rest, digitIn? base c = some d ∧ AreDigits base cs rest ∧ ds = d :: rest := by
  constructor
  · rintro ⟨hlt, hmap⟩
    cases ds with
    | nil => cases hmap
    | cons d rest =>
      obtain ⟨hd, hrest⟩ := List.forall_mem_cons.1 hlt
      obtain ⟨hc, hmap⟩ := List.cons_eq_cons.1 hmap
      exact ⟨d, rest, (digitIn?_eq_some_iff hb).2 ⟨hd, hc⟩, ⟨hrest, hmap⟩, rfl⟩
  · rintro ⟨d, rest, hc, ⟨hrest, hmap⟩, rfl⟩
    obtain ⟨hd, hc⟩ := (digitIn?_eq_some_iff hb).1 hc
    exact ⟨List.forall_mem_cons.2 ⟨hd, hrest⟩, List.cons_eq_cons.2 ⟨hc, hmap⟩⟩

theorem AreDigits.length (h : AreDigits base cs ds) : ds.length = cs.length := by
  have hlength := congrArg List.length h.2
  rw [List.length_map, List.length_map] at hlength
  exact hlength.symm

theorem digitsFrom?_eq_some_iff (hb : base ≤ 16) : digitsFrom? base 0 cs = some n ↔
    ∃ ds, AreDigits base cs ds ∧ Nat.ofDigits base ds.reverse = n := by
  induction cs generalizing n with
  | nil =>
    simp only [digitsFrom?, areDigits_nil, exists_eq_left, List.reverse_nil, Nat.ofDigits_nil,
      Option.some.injEq]
  | cons c cs ih =>
    simp only [digitsFrom?, areDigits_cons hb, Option.bind_eq_some_iff, Nat.mul_zero, Nat.zero_add]
    constructor
    · rintro ⟨d, hc, hcs⟩
      rw [digitsFrom?_eq_map, Option.map_eq_some_iff] at hcs
      obtain ⟨m, hm, rfl⟩ := hcs
      obtain ⟨rest, hrest, rfl⟩ := ih.1 hm
      refine ⟨d :: rest, ⟨d, rest, hc, hrest, rfl⟩, ?_⟩
      rw [List.reverse_cons, Nat.ofDigits_append, Nat.ofDigits_singleton,
        List.length_reverse, hrest.length]
      exact Nat.add_comm _ _
    · rintro ⟨-, ⟨d, rest, hc, hrest, rfl⟩, rfl⟩
      refine ⟨d, hc, ?_⟩
      rw [digitsFrom?_eq_map, ih.2 ⟨rest, hrest, rfl⟩, Option.map_some, List.reverse_cons,
        Nat.ofDigits_append, Nat.ofDigits_singleton, List.length_reverse, hrest.length]
      exact congrArg some (Nat.add_comm _ _)

/-- **Reading digits** gives the number that they spell, if they do. -/
theorem ofDigits?_eq_some_iff (hb : base ≤ 16) : ofDigits? base cs = some n ↔ Spells base cs n := by
  by_cases hcs : cs = []
  · subst hcs
    simp [ofDigits?, Spells]
  · rw [ofDigits?_eq base hcs, digitsFrom?_eq_some_iff hb]
    exact ⟨fun h => ⟨hcs, h⟩, And.right⟩

theorem isBlank_of_digitIn? (h : digitIn? base c = some d) : isBlank c = false := by
  simp only [digitIn?, Option.filter_eq_some_iff, digitValue?] at h
  simp only [isBlank]
  split_ifs at h <;> grind

theorem Spells.forall_mem {p : Char → Prop} (h : Spells base cs n) (hb : base ≤ 16)
    (hp : ∀ c d, digitIn? base c = some d → p c) : ∀ c ∈ cs, p c := by
  obtain ⟨-, ds, hds, -⟩ := h
  induction cs generalizing ds with
  | nil => simp
  | cons c cs ih =>
    obtain ⟨d, rest, hc, hrest, -⟩ := (areDigits_cons hb).1 hds
    exact List.forall_mem_cons.2 ⟨hp c d hc, ih rest hrest⟩

theorem Spells.isBlank (h : Spells base cs n) (hb : base ≤ 16) : ∀ c ∈ cs, Text.isBlank c = false :=
  h.forall_mem hb fun _ _ => isBlank_of_digitIn?

theorem Spells.head_ne_plus (h : Spells base ('+' :: cs) n) (hb : base ≤ 16) : False := by
  obtain ⟨-, ds, hds, -⟩ := h
  obtain ⟨d, rest, hplus, -⟩ := (areDigits_cons hb).1 hds
  have hnone : digitIn? base '+' = none := rfl
  rw [hnone] at hplus
  cases hplus

/-- A numeral is digits, or a plus sign and digits. -/
theorem ofNumeral?_eq_some_iff (hb : base ≤ 16) :
    ofNumeral? base cs = some n ↔ Spells base cs n ∨ ∃ ds, cs = '+' :: ds ∧ Spells base ds n := by
  unfold ofNumeral?
  split
  · rename_i ds
    rw [ofDigits?_eq_some_iff hb]
    constructor
    · exact fun h => .inr ⟨ds, rfl, h⟩
    · rintro (h | ⟨ds', heq, h⟩)
      · exact (h.head_ne_plus hb).elim
      · obtain ⟨-, rfl⟩ := List.cons_eq_cons.1 heq
        exact h
  · rename_i hplus
    rw [ofDigits?_eq_some_iff hb]
    constructor
    · exact .inl
    · rintro (h | ⟨ds, rfl, -⟩)
      · exact h
      · exact absurd rfl (hplus ds)

/-! ## Writing -/

theorem hexDigit_eq_digitChar : ∀ {d : Nat}, d < 16 → hexDigit d = d.digitChar := by
  have hall : ∀ i : Fin 16, hexDigit i = (i : Nat).digitChar := by decide
  exact fun {d} hd => hall ⟨d, hd⟩

theorem toLower_hexDigit {d : Nat} (hd : d < 16) : (hexDigit d).toLower = hexDigit d := by
  have hall : ∀ i : Fin 16, (hexDigit i).toLower = hexDigit i := by decide
  exact hall ⟨d, hd⟩

theorem hexChars_eq_toDigits (n : Nat) : hexChars n = Nat.toDigits 16 n := by
  induction n using Nat.strongRecOn with
  | ind n ih =>
    rw [hexChars, Nat.toDigits_eq_if (by decide)]
    split
    · rename_i hn
      rw [hexDigit_eq_digitChar hn]
    · rename_i hn
      rw [ih (n / 16) (by omega), hexDigit_eq_digitChar (Nat.mod_lt n (by decide))]

theorem areDigits_toDigits (hb : 1 < base) (hb' : base ≤ 16) (n : Nat) :
    ∃ ds, AreDigits base (Nat.toDigits base n) ds ∧ Nat.ofDigits base ds.reverse = n := by
  have hone : ∀ {d}, d < base → AreDigits base [d.digitChar] [d] := by
    intro d hd
    have hd' : d < 16 := Nat.lt_of_lt_of_le hd hb'
    refine ⟨by simpa using hd, ?_⟩
    rw [← hexDigit_eq_digitChar hd']
    exact congrArg (· :: []) (toLower_hexDigit hd')
  induction n using Nat.strongRecOn with
  | ind n ih =>
    rw [Nat.toDigits_eq_if hb]
    split
    · rename_i hn
      exact ⟨[n], hone hn, Nat.ofDigits_singleton ..⟩
    · rename_i hn
      obtain ⟨ds, ⟨hlt, hmap⟩, hds⟩ := ih (n / base) (Nat.div_lt_self (by omega) hb)
      obtain ⟨hlt', hmap'⟩ := hone (Nat.mod_lt n (by omega))
      refine ⟨ds ++ [n % base], ⟨List.forall_mem_append.2 ⟨hlt, hlt'⟩, ?_⟩, ?_⟩
      · rw [List.map_append, List.map_append, hmap, hmap']
      · rw [List.reverse_append, List.reverse_singleton, List.singleton_append,
          Nat.ofDigits_cons, hds]
        exact Nat.mod_add_div n base

/-- **Digits written** spell the number. -/
theorem spells_toDigits (hb : 1 < base) (hb' : base ≤ 16) (n : Nat) :
    Spells base (Nat.toDigits base n) n := by
  refine ⟨?_, areDigits_toDigits hb hb' n⟩
  rw [Nat.toDigits_eq_if hb]
  split <;> simp

end ScriptDebug.Text

namespace ScriptDebug.Handle

variable {n : Nat} {c : Char} {cs : List Char} {h k : Handle} {s : String} {m : Malformed}

/-! ## The grammar of tokens -/

/-- **Token of a number:** hexadecimal digits behind `0x` or `0X`, or decimal digits. -/
def IsToken (cs : List Char) (n : Nat) : Prop :=
  (∃ ds, (cs = '0' :: 'x' :: ds ∨ cs = '0' :: 'X' :: ds) ∧ Text.Spells 16 ds n) ∨
    Text.Spells 10 cs n

/-- A token of a number with a plus sign before its digits. -/
def IsSigned (cs : List Char) (n : Nat) : Prop :=
  (∃ ds, (cs = '0' :: 'x' :: '+' :: ds ∨ cs = '0' :: 'X' :: '+' :: ds) ∧ Text.Spells 16 ds n) ∨
    ∃ ds, cs = '+' :: ds ∧ Text.Spells 10 ds n

/-- What stands behind `0x` is no decimal numeral. -/
theorem not_spells_of_mark (hc : Text.digitIn? 10 c = none) (cs : List Char) (n : Nat) :
    ¬ Text.Spells 10 ('0' :: c :: cs) n := by
  rintro ⟨-, ds, hds, -⟩
  obtain ⟨d, rest, -, hrest, -⟩ := (Text.areDigits_cons (by decide)).1 hds
  obtain ⟨d', rest', hd', -⟩ := (Text.areDigits_cons (by decide)).1 hrest
  rw [hc] at hd'
  cases hd'

theorem numeral?_eq_some_iff : numeral? cs = some n ↔ IsToken cs n ∨ IsSigned cs n := by
  unfold numeral? IsToken IsSigned
  split
  · rename_i ds
    have hx : Text.digitIn? 10 'x' = none := rfl
    simp [Text.ofNumeral?_eq_some_iff, not_spells_of_mark hx]
  · rename_i ds
    have hX : Text.digitIn? 10 'X' = none := rfl
    simp [Text.ofNumeral?_eq_some_iff, not_spells_of_mark hX]
  · rename_i hx hX
    rw [Text.ofNumeral?_eq_some_iff (by decide)]
    constructor
    · exact Or.imp .inr .inr
    · rintro ((⟨ds, rfl | rfl, -⟩ | h) | ⟨ds, rfl | rfl, -⟩ | h)
      · exact absurd rfl (hx ds)
      · exact absurd rfl (hX ds)
      · exact .inl h
      · exact absurd rfl (hx _)
      · exact absurd rfl (hX _)
      · exact .inr h

theorem ofNat_toNat (h : Handle) : ofNat h.raw.toNat = h := by
  unfold ofNat
  simp

theorem toNat_ofNat (hn : n < 0x10000000000000000) : (ofNat n).raw.toNat = n :=
  UInt64.toNat_ofNat_of_lt' hn

/-- **A text is read as a handle** if, blanks aside, it is a token of its number,
perhaps with a plus sign. -/
theorem parse_eq_ok_iff : parse s = .ok h ↔
    IsToken (Text.trimChars s.toList) h.raw.toNat ∨
    IsSigned (Text.trimChars s.toList) h.raw.toNat := by
  rw [← numeral?_eq_some_iff]
  unfold parse
  cases hnum : numeral? (Text.trimChars s.toList) with
  | none => simp
  | some n =>
    dsimp only
    split
    · rename_i hn
      rw [Except.ok.injEq, Option.some.injEq]
      constructor
      · rintro rfl
        exact (toNat_ofNat hn).symm
      · rintro rfl
        exact ofNat_toNat h
    · rename_i hn
      have hne : n ≠ h.raw.toNat := by
        rintro rfl
        exact hn h.raw.toNat_lt
      simp [hne]

/-- **A text that is read as no handle** is an error that carries it, blanks aside. -/
theorem parse_eq_error_iff : parse s = .error m ↔ m = ⟨Text.trim s⟩ ∧ ∀ h, parse s ≠ .ok h := by
  have herror : ∀ m, parse s = .error m → m = ⟨Text.trim s⟩ := by
    intro m hm
    unfold parse at hm
    split at hm
    · split at hm
      · cases hm
      · exact (Except.error.inj hm).symm
    · exact (Except.error.inj hm).symm
  cases hs : parse s with
  | error e =>
    rw [herror e hs]
    simp [eq_comm]
  | ok h => simp

theorem IsSigned.not_isToken (hs : IsSigned cs n) (k : Nat) : ¬ IsToken cs k := by
  rintro (⟨ds, hcs, hds⟩ | hcs)
  · obtain ⟨ds', rfl | rfl, -⟩ | ⟨ds', rfl, -⟩ := hs
    · obtain rfl : ds = '+' :: ds' := by simpa [eq_comm] using hcs
      exact hds.head_ne_plus (by decide)
    · obtain rfl : ds = '+' :: ds' := by simpa [eq_comm] using hcs
      exact hds.head_ne_plus (by decide)
    · simp at hcs
  · obtain ⟨ds', rfl | rfl, -⟩ | ⟨ds', rfl, -⟩ := hs
    · exact not_spells_of_mark rfl _ _ hcs
    · exact not_spells_of_mark rfl _ _ hcs
    · exact hcs.head_ne_plus (by decide)

/-- **Tokens are read by their grammar** if and only if they carry no plus sign: any other text is
read as a handle exactly if it is the token of its number, and is an error that carries the text
otherwise. -/
theorem reads_by_grammar_iff (s : String) :
    ((∀ h, parse s = .ok h ↔ IsToken (Text.trimChars s.toList) h.raw.toNat) ∧
      ∀ m, parse s = .error m ↔
        m = ⟨Text.trim s⟩ ∧ ∀ h : Handle, ¬ IsToken (Text.trimChars s.toList) h.raw.toNat) ↔
    ∀ h : Handle, ¬ IsSigned (Text.trimChars s.toList) h.raw.toNat := by
  constructor
  · rintro ⟨hok, -⟩ h hs
    exact hs.not_isToken _ ((hok h).1 (parse_eq_ok_iff.2 (.inr hs)))
  · intro hs
    have hok : ∀ h, parse s = .ok h ↔ IsToken (Text.trimChars s.toList) h.raw.toNat := fun h =>
      parse_eq_ok_iff.trans (or_iff_left (hs h))
    refine ⟨hok, fun m => parse_eq_error_iff.trans ?_⟩
    simp only [hok, ne_eq]

/-- **A plus sign is read over**, before decimal digits and behind `0x`. -/
theorem signed_tokens_read : parse "0x+1f" = .ok ⟨31⟩ ∧ parse "+5" = .ok ⟨5⟩ ∧
    ∀ n, ¬ IsToken "0x+1f".toList n ∧ ¬ IsToken "+5".toList n := by
  have hhex : IsSigned "0x+1f".toList 31 :=
    .inl ⟨['1', 'f'], .inl (by decide), (Text.ofDigits?_eq_some_iff (by decide)).1 rfl⟩
  have hdecimal : IsSigned "+5".toList 5 :=
    .inr ⟨['5'], by decide, (Text.ofDigits?_eq_some_iff (by decide)).1 rfl⟩
  exact ⟨parse_eq_ok_iff.2 (.inr hhex), parse_eq_ok_iff.2 (.inr hdecimal),
    fun n => ⟨hhex.not_isToken n, hdecimal.not_isToken n⟩⟩

/-! ## There and back -/

theorem toList_token (h : Handle) : h.token.toList = '0' :: 'x' :: Nat.toDigits 16 h.raw.toNat := by
  rw [token, Text.hexToken, String.toList_ofList, Text.hexChars_eq_toDigits]

theorem toList_numeral (n : Nat) : (toString n).toList = Nat.toDigits 10 n := by
  rw [Nat.toString_eq_ofList_toDigits, String.toList_ofList]

/-- **The token of a handle** names it. -/
theorem parse_token (h : Handle) : parse h.token = .ok h := by
  have hspells : Text.Spells 16 _ _ := Text.spells_toDigits (by decide) (by decide) h.raw.toNat
  have hmark : ∀ c ∈ ['0', 'x'], Text.isBlank c = false := by
    rintro c (_ | ⟨_, _ | ⟨_, ⟨⟩⟩⟩) <;> decide
  have htrim : Text.trimChars h.token.toList = h.token.toList := by
    rw [toList_token]
    exact Text.trimChars_eq_self (List.forall_mem_append.2 ⟨hmark, hspells.isBlank (by decide)⟩)
  rw [parse_eq_ok_iff, htrim, toList_token]
  exact .inl (.inl ⟨_, .inl rfl, hspells⟩)

/-- **The decimal numeral of a handle** names it. -/
theorem parse_numeral (h : Handle) : parse (toString h.raw.toNat) = .ok h := by
  have hspells : Text.Spells 10 _ _ := Text.spells_toDigits (by decide) (by decide) h.raw.toNat
  rw [parse_eq_ok_iff, toList_numeral, Text.trimChars_eq_self (hspells.isBlank (by decide))]
  exact .inl (.inr hspells)

end ScriptDebug.Handle
