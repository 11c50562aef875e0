import Mathlib.Data.List.TakeWhile
import ScriptDebug.Proofs.Assigning

/-!
# Comments in quoted texts

The evaluator and the reader of script files share their literals, but a line of a file is cut at
its first two minus signs before anything is read, also between quotes. So a literal means the same
to both if and only if it has no two minus signs in a row (`assigned_as_evaluated_iff`); only a
quoted text may have them (`literal?_eq_some`).
-/

namespace ScriptDebug

namespace Script

variable {c : Char} {cs l t : List Char} {name path text s : String} {v w : Value}
  {m : Machine} {h : Handle}

/-! ## Comments -/

/-- **Commented.** Two minus signs in a row. -/
def Commented (cs : List Char) : Prop := ['-', '-'] <:+: cs

instance (cs : List Char) : Decidable (Commented cs) :=
  inferInstanceAs (Decidable (['-', '-'] <:+: cs))

theorem beforeComment_cons (hc : ¬ ['-', '-'] <+: c :: cs) :
    beforeComment (c :: cs) = c :: beforeComment cs := by
  rw [beforeComment]
  rintro rest rfl rfl
  exact hc ⟨rest, rfl⟩

theorem beforeComment_cons_of_ne (hc : c ≠ '-') (cs : List Char) :
    beforeComment (c :: cs) = c :: beforeComment cs :=
  beforeComment_cons fun hstart => hc (List.cons_prefix_cons.1 hstart).1.symm

theorem beforeComment_append (hl : '-' ∉ l) (cs : List Char) :
    beforeComment (l ++ cs) = l ++ beforeComment cs := by
  induction l with
  | nil => rfl
  | cons c l ih =>
    obtain ⟨hc, hl⟩ := not_or.1 (mt List.mem_cons.2 hl)
    rw [List.cons_append, beforeComment_cons_of_ne (Ne.symm hc), ih hl, List.cons_append]

theorem beforeComment_of_not_mem (hcs : '-' ∉ cs) : beforeComment cs = cs := by
  have happend := beforeComment_append hcs []
  simpa only [List.append_nil, beforeComment] using happend

/-- **A line up to its comment** is the whole line, or what is before the first two minus signs. -/
theorem beforeComment_spec (cs : List Char) :
    (¬ Commented cs ∧ beforeComment cs = cs) ∨
      ∃ r, cs = beforeComment cs ++ '-' :: '-' :: r ∧ ¬ Commented (beforeComment cs ++ ['-']) := by
  induction cs with
  | nil => exact .inl ⟨by decide, rfl⟩
  | cons c cs ih =>
    by_cases hstart : ['-', '-'] <+: c :: cs
    · obtain ⟨r, hr⟩ := hstart
      have hnil : beforeComment (c :: cs) = [] := hr ▸ rfl
      rw [hnil]
      exact .inr ⟨r, hr.symm, by decide⟩
    · rw [beforeComment_cons hstart]
      rcases ih with ⟨hno, hsame⟩ | ⟨r, hr, hfirst⟩
      · refine .inl ⟨fun hc => ?_, by rw [hsame]⟩
        exact (List.infix_cons_iff.1 hc).elim hstart hno
      · refine .inr ⟨r, congrArg (c :: ·) hr, fun hc => ?_⟩
        refine (List.infix_cons_iff.1 hc).elim (fun hprefix => hstart ?_) hfirst
        -- the minus sign behind the front is also in the line
        rw [hr]
        exact hprefix.trans ⟨'-' :: r, by simp⟩

theorem beforeComment_eq_self_iff : beforeComment cs = cs ↔ ¬ Commented cs := by
  rcases beforeComment_spec cs with ⟨hno, hsame⟩ | ⟨r, hr, -⟩
  · exact iff_of_true hsame hno
  · refine iff_of_false (fun hsame => ?_)
      (not_not_intro ⟨beforeComment cs, r, by rw [List.append_assoc]; exact hr.symm⟩)
    rw [hsame] at hr
    exact absurd (congrArg List.length hr) (by simp)

theorem length_beforeComment_lt (hcs : Commented cs) : (beforeComment cs).length < cs.length := by
  rcases beforeComment_spec cs with ⟨hno, -⟩ | ⟨r, hr, -⟩
  · exact absurd hcs hno
  · have hlength := congrArg List.length hr
    simp only [List.length_append, List.length_cons] at hlength
    omega

/-! ## Literals without comments -/

theorem not_mem_of_exponentFrom? {n e : Nat} (he : Text.exponentFrom? n cs = some e) :
    '-' ∉ cs := by
  induction cs generalizing n with
  | nil => exact List.not_mem_nil
  | cons c cs ih =>
    rw [Text.exponentFrom?] at he
    obtain ⟨d, hd, he⟩ := Option.bind_eq_some_iff.1 he
    rw [List.mem_cons, not_or]
    refine ⟨?_, ih he⟩
    rintro rfl
    cases hd

theorem not_mem_of_ofExponent? {e : Nat} (he : Text.ofExponent? cs = some e) : '-' ∉ cs := by
  unfold Text.ofExponent? at he
  split at he
  · cases he
  · exact not_mem_of_exponentFrom? he

theorem exponent?_eq_some {e : Int} (he : exponent? cs = some e) :
    cs = [] ∨ ∃ c r, (c = 'e' ∨ c = 'E') ∧ '-' ∉ r ∧ (cs = c :: r ∨ cs = c :: '-' :: r) := by
  unfold exponent? at he
  split at he
  · exact .inl rfl
  all_goals simp only [Option.ite_none_right_eq_some, Option.map_eq_some_iff, Option.bind_eq_bind,
    Option.bind_eq_some_iff] at he
  · obtain ⟨hletter, _, ⟨n, hn, -⟩, -⟩ := he
    exact .inr ⟨_, _, hletter, by simpa using not_mem_of_ofExponent? hn, .inl rfl⟩
  · obtain ⟨hletter, n, hn, -⟩ := he
    exact .inr ⟨_, _, hletter, not_mem_of_ofExponent? hn, .inr rfl⟩
  · obtain ⟨hletter, _, ⟨n, hn, -⟩, -⟩ := he
    exact .inr ⟨_, _, hletter, not_mem_of_ofExponent? hn, .inl rfl⟩

theorem beforeComment_of_exponent? {e : Int} (he : exponent? cs = some e) :
    beforeComment cs = cs := by
  rcases exponent?_eq_some he with rfl | ⟨c, r, hletter, hr, hcs⟩
  · rfl
  · have hc : c ≠ '-' := by rcases hletter with rfl | rfl <;> decide
    rcases hcs with rfl | rfl <;> rw [beforeComment_cons_of_ne hc]
    · rw [beforeComment_of_not_mem hr]
    · rw [beforeComment_cons, beforeComment_of_not_mem hr]
      exact fun hstart => hr ((List.cons_prefix_cons.1 hstart).2.subset (List.mem_cons_self ..))

theorem not_mem_takeWhile_isDigit (cs : List Char) : '-' ∉ cs.takeWhile isDigit := fun hmem =>
  absurd (List.mem_takeWhile_imp hmem) (by decide)

/-- Behind digits, what is cut off is cut off behind them all. -/
theorem beforeComment_digits (hrest : beforeComment (cs.dropWhile isDigit) = cs.dropWhile isDigit) :
    beforeComment cs = cs := by
  have happend := beforeComment_append (not_mem_takeWhile_isDigit cs) (cs.dropWhile isDigit)
  rwa [hrest, List.takeWhile_append_dropWhile] at happend

theorem beforeComment_of_decimal? {x : Float} (hx : decimal? cs = some x) :
    beforeComment cs = cs := by
  refine beforeComment_digits ?_
  unfold decimal? at hx
  simp only at hx
  split at hx
  · rename_i n e hn he
    split at he
    · rename_i rest hrest
      rw [hrest, beforeComment_cons_of_ne (by decide),
        beforeComment_digits (beforeComment_of_exponent? he)]
    · exact beforeComment_of_exponent? he
  · cases hx

theorem unsigned?_minus (cs : List Char) : unsigned? ('-' :: cs) = none := by
  have hword : ∀ w : String, String.ofList (('-' :: cs).map Char.toLower) = w →
      w.toList.head? = some '-' := by
    rintro w rfl
    rw [String.toList_ofList]
    rfl
  unfold unsigned?
  split
  · exact absurd (hword _ ‹_›) (by decide)
  · exact absurd (hword _ ‹_›) (by decide)
  · exact absurd (hword _ ‹_›) (by decide)
  · rfl

theorem beforeComment_of_unsigned? {x : Float} (hx : unsigned? cs = some x) :
    beforeComment cs = cs := by
  -- lower case keeps a minus sign
  have hword : ∀ w : String, String.ofList (cs.map Char.toLower) = w → '-' ∉ w.toList →
      '-' ∉ cs := by
    rintro w rfl hno hmem
    rw [String.toList_ofList] at hno
    exact hno (List.mem_map_of_mem (f := Char.toLower) hmem)
  unfold unsigned? at hx
  split at hx
  · exact beforeComment_of_not_mem (hword _ ‹_› (by decide))
  · exact beforeComment_of_not_mem (hword _ ‹_› (by decide))
  · exact beforeComment_of_not_mem (hword _ ‹_› (by decide))
  · exact beforeComment_of_decimal? hx

theorem beforeComment_of_number? {x : Float} (hx : number? cs = some x) :
    beforeComment cs = cs := by
  unfold number? at hx
  split at hx
  · rename_i cs
    obtain ⟨y, hy, -⟩ := Option.map_eq_some_iff.1 hx
    rw [beforeComment_cons, beforeComment_of_unsigned? hy]
    rintro ⟨r, hr⟩
    cases hr
    cases (unsigned?_minus r).symm.trans hy
  · split at hx
    · exact beforeComment_of_decimal? hx
    · cases hx
  · cases hx

theorem unquote?_eq_some {quote : Char} {inner : List Char} (h : unquote? quote cs = some inner) :
    cs = quote :: (inner ++ [quote]) := by
  unfold unquote? at h
  split at h
  · cases h
  · split at h
    · rename_i hends
      cases h
      obtain ⟨rfl, hlast⟩ := hends
      rw [List.dropLast_append_getLast? _ hlast]
    · cases h

/-- **A literal** is a text between quotes, or it has no comment in it. -/
theorem literal?_eq_some (hlit : literal? t = some v) :
    (∃ q inner, (q = '"' ∨ q = '\'') ∧ t = q :: (inner ++ [q]) ∧ v = .text (String.ofList inner)) ∨
      beforeComment t = t ∧ ∀ s, v ≠ .text s := by
  have hword : ∀ w : String, String.ofList t = w → '-' ∉ w.toList → beforeComment t = t := by
    rintro w rfl hno
    rw [String.toList_ofList] at hno
    exact beforeComment_of_not_mem hno
  unfold literal? at hlit
  split at hlit
  · cases hlit
    exact .inr ⟨hword _ ‹_› (by decide), by simp⟩
  · cases hlit
    exact .inr ⟨hword _ ‹_› (by decide), by simp⟩
  · cases hlit
    exact .inr ⟨hword _ ‹_› (by decide), by simp⟩
  · split at hlit
    · cases hlit
      exact .inl ⟨'"', _, .inl rfl, unquote?_eq_some ‹_›, rfl⟩
    · split at hlit
      · cases hlit
        exact .inl ⟨'\'', _, .inr rfl, unquote?_eq_some ‹_›, rfl⟩
      · obtain ⟨x, hx, rfl⟩ := Option.map_eq_some_iff.1 hlit
        exact .inr ⟨beforeComment_of_number? hx, by simp⟩

theorem length_of_literal_text (hlit : literal? t = some (.text s)) : t.length = s.length + 2 := by
  rcases literal?_eq_some hlit with ⟨q, inner, -, rfl, hv⟩ | ⟨-, hno⟩
  · cases hv
    simp
  · exact absurd rfl (hno s)

/-- A literal up to its comment starts with what is no blank. -/
theorem beforeComment_literal (htrim : Text.trimChars t = t) (hlit : literal? t = some v) :
    ∃ a u, beforeComment t = a :: u ∧ Text.isBlank a = false := by
  rcases literal?_eq_some hlit with ⟨q, inner, hq, rfl, -⟩ | ⟨hsame, -⟩
  · have hminus : q ≠ '-' := by rcases hq with rfl | rfl <;> decide
    exact ⟨q, _, beforeComment_cons_of_ne hminus _, by rcases hq with rfl | rfl <;> decide⟩
  · cases t with
    | nil => cases hlit
    | cons a u => exact ⟨a, u, hsame, Text.isBlank_of_trimmed htrim⟩

/-! ## One line -/

/-- The line that assigns what is written to a name. -/
def lineOf (name : String) (t : List Char) : List Char := name.toList ++ " = ".toList ++ t

/-- What is read behind the equals sign of such a line: the line is trimmed when it is cut,
and its right side again. -/
def keptOf (t : List Char) : List Char := Text.trimChars (Text.trimChars (beforeComment t))

theorem length_keptOf_lt (ht : Commented t) : (keptOf t).length < t.length :=
  Nat.lt_of_le_of_lt (Nat.le_trans (Text.length_trimChars_le _) (Text.length_trimChars_le _))
    (length_beforeComment_lt ht)

theorem keptOf_eq_self (ht : ¬ Commented t) (htrim : Text.trimChars t = t) : keptOf t = t := by
  rw [keptOf, beforeComment_eq_self_iff.2 ht, htrim, htrim]

theorem contentOf_lineOf (hname : isName name.toList = true) (htrim : Text.trimChars t = t)
    (hlit : literal? t = some v) :
    contentOf (lineOf name t) = lineOf name (Text.trimChars (beforeComment t)) := by
  obtain ⟨a, u, hu, ha⟩ := beforeComment_literal htrim hlit
  have hminus : '-' ∉ name.toList ++ " = ".toList := by
    rw [List.mem_append, not_or]
    exact ⟨not_mem_of_isName hname (by decide), by decide⟩
  obtain ⟨c, rest, hcons, -⟩ := isName_cons hname
  have hc : Text.isBlank c = false := isBlank_of_isName hname (hcons ▸ List.mem_cons_self ..)
  rw [contentOf, lineOf, beforeComment_append hminus, hu, hcons, lineOf, hcons]
  exact Text.trimChars_append hc ha (rest ++ " = ".toList) u

theorem assignment?_lineOf (hname : isName name.toList = true) (t : List Char) :
    assignment? (lineOf name t) = (literal? (Text.trimChars t)).map (name, ·) := by
  have hsep : '=' ∉ name.toList ++ [' '] := by
    rw [List.mem_append, not_or]
    exact ⟨not_mem_of_isName hname (by decide), by decide⟩
  have hleft : Text.trimChars (name.toList ++ [' ']) = name.toList := by
    rw [Text.trimChars_padRight (by decide)]
    exact Text.trimChars_eq_self fun c hc => isBlank_of_isName hname hc
  have hright : Text.trimChars (' ' :: t) = Text.trimChars t :=
    Text.trimChars_padLeft (l := [' ']) (by decide) t
  have hsplit : lineOf name t = (name.toList ++ [' ']) ++ '=' :: ' ' :: t := by simp [lineOf]
  unfold assignment?
  rw [hsplit, Text.splitOnce_append hsep]
  simp only [Option.bind_eq_bind, Option.bind_some, hleft, hright, hname, if_true,
    String.ofList_toList]
  cases literal? (Text.trimChars t) <;> rfl

/-- **The line of a literal** assigns what is left of it, if this is a literal,
and is not legible otherwise. -/
theorem assignment?_contentOf_lineOf (hname : isName name.toList = true)
    (htrim : Text.trimChars t = t) (hlit : literal? t = some v) :
    assignment? (contentOf (lineOf name t)) = (literal? (keptOf t)).map (name, ·) := by
  rw [contentOf_lineOf hname htrim hlit, assignment?_lineOf hname, keptOf]

theorem not_legible_lineOf (hname : isName name.toList = true) (htrim : Text.trimChars t = t)
    (hlit : literal? t = some v) (hkept : literal? (keptOf t) = none) :
    ¬ Legible (lineOf name t) := by
  rw [legible_iff, assignment?_contentOf_lineOf hname htrim hlit, hkept,
    contentOf_lineOf hname htrim hlit]
  simp [lineOf]

namespace Machine

/-- **A literal** evaluates to its value. -/
theorem evaluate_literal (htrim : Text.trimChars t = t) (hlit : literal? t = some v) (m : Machine)
    (h : Handle) :
    m.evaluate h (String.ofList t) = .ok v := by
  have hreturn : ¬ "return ".toList <+: t := by
    rintro ⟨r, rfl⟩
    have hhead : ∀ w ∈ ["nil", "true", "false"], w.toList.head? ≠ some 'r' := by decide
    have hnone : literal? ('r' :: ("eturn ".toList ++ r)) = none :=
      literal?_eq_none (by decide) fun hmem => hhead _ hmem (by rw [String.toList_ofList]; rfl)
    cases hnone.symm.trans hlit
  have hexpression : expressionOf (String.ofList t) = t := by
    cases t with
    | nil => cases hlit
    | cons c cs =>
      have hw : Written (c :: cs) (String.ofList (c :: cs)) :=
        ⟨[], [], by decide, by decide, .inl (by simp)⟩
      exact hw.expressionOf_eq htrim hreturn
  simp only [evaluate, hexpression, hlit]

variable (hknows : m.knows h = true) (hread : m.files.readText path = .ok text)

include hknows hread

theorem load_of_sets {line : List Char} (hlines : Text.lines text = [line])
    (hsets : Sets line name w) :
    m.load h path = (m.assign name w, .ok ()) := by
  have hlegible : ∀ l ∈ Text.lines text, Legible l := by
    rw [hlines]
    exact List.forall_mem_singleton.2 (.inr ⟨name, w, hsets⟩)
  rw [load_of_legible hknows hread hlegible, hlines, settings_cons, assignment?_eq_some_iff.2 hsets]
  rfl

/-- **A literal with two minus signs** in a row is a text,
and never the one that its line assigns. -/
theorem load_of_commented (hlines : Text.lines text = [lineOf name t])
    (hname : isName name.toList = true) (htrim : Text.trimChars t = t) (hlit : literal? t = some v)
    (ht : Commented t) :
    (∃ s, v = .text s) ∧ ((∃ f, m.load h path = (m, .error f) ∧ f.code = 3) ∨
      ∃ w, w ≠ v ∧ m.load h path = (m.assign name w, .ok ())) := by
  obtain ⟨q, inner, -, -, rfl⟩ :=
    (literal?_eq_some hlit).resolve_right fun hsame => beforeComment_eq_self_iff.1 hsame.1 ht
  refine ⟨⟨_, rfl⟩, ?_⟩
  cases hkept : literal? (keptOf t) with
  | none =>
    have hmem : lineOf name t ∈ Text.lines text := hlines ▸ List.mem_singleton_self _
    exact .inl
      (load_of_exists_illegible hknows hread ⟨_, hmem, not_legible_lineOf hname htrim hlit hkept⟩)
  | some w =>
    have hassign := assignment?_contentOf_lineOf hname htrim hlit
    rw [hkept] at hassign
    refine .inr ⟨w, ?_, load_of_sets hknows hread hlines (assignment?_eq_some_iff.1 hassign)⟩
    -- the same text would be as long
    rintro rfl
    have hlong := length_of_literal_text hlit
    have hshort := length_of_literal_text hkept
    have hlt := length_keptOf_lt ht
    omega

/-- **Assigned as evaluated.** A literal without blanks around it evaluates to its value. A file
whose one line assigns the literal to a name loads and sets the name to this value if and only if
the literal has no two minus signs in a row. Only a text may have them; then the file fails to load
with code 3, or sets the name to another value. -/
theorem assigned_as_evaluated_iff (hlines : Text.lines text = [lineOf name t])
    (hname : isName name.toList = true) (htrim : Text.trimChars t = t)
    (hlit : literal? t = some v) :
    m.evaluate h (String.ofList t) = .ok v ∧
      ((m.load h path).2 = .ok () ∧ (m.load h path).1.global? name = some v ↔ ¬ Commented t) ∧
      (Commented t → (∃ s, v = .text s) ∧ ((∃ f, m.load h path = (m, .error f) ∧ f.code = 3) ∨
        ∃ w, w ≠ v ∧ m.load h path = (m.assign name w, .ok ()))) := by
  have hglobal : ∀ w, (m.assign name w).global? name = some w := fun w => Ascending.get?_put_self ..
  refine ⟨evaluate_literal htrim hlit m h, ⟨?_, fun ht => ?_⟩,
    load_of_commented hknows hread hlines hname htrim hlit⟩
  · rintro ⟨hok, hv⟩ ht
    rcases (load_of_commented hknows hread hlines hname htrim hlit ht).2 with
      ⟨f, hf, -⟩ | ⟨w, hw, hload⟩
    · rw [hf] at hok
      cases hok
    · rw [hload, hglobal] at hv
      exact hw (Option.some.inj hv)
  · have hassign := assignment?_contentOf_lineOf hname htrim hlit
    rw [keptOf_eq_self ht htrim, hlit] at hassign
    rw [load_of_sets hknows hread hlines (assignment?_eq_some_iff.1 hassign)]
    exact ⟨rfl, hglobal v⟩

end Machine

end Script

namespace Rehearsal

/-- Two texts that evaluate to what stands between their quotes: the line of the first one does not
load, and the line of the second one assigns a shorter text. -/
theorem quoted_comments_cut :
    let m := filedMachine "s = \"a -- b\"" "s = \"a\"--\""
    (m.evaluate ⟨1⟩ "\"a -- b\"" = .ok (.text "a -- b") ∧
      (m.load ⟨1⟩ "a").2 = .error ⟨3, "a:1: unexpected symbol near 's = \"a'"⟩) ∧
    (m.evaluate ⟨1⟩ "\"a\"--\"" = .ok (.text "a\"--") ∧ (m.load ⟨1⟩ "b").2 = .ok () ∧
      (m.load ⟨1⟩ "b").1.global? "s" = some (.text "a")) := by
  intro m
  have hknows : m.knows ⟨1⟩ = true := by decide +kernel
  have hsets : Script.Sets "s = \"a\"--\"".toList "s" (.text "a") :=
    ⟨"s ".toList, " \"a\"".toList, by decide, by decide, by decide, rfl⟩
  have hbad : ¬ Script.Legible "s = \"a -- b\"".toList := by decide +kernel
  refine ⟨⟨Script.Machine.evaluate_literal (by decide) rfl m ⟨1⟩, ?_⟩,
    Script.Machine.evaluate_literal (by decide) rfl m ⟨1⟩, ?_⟩
  · have hline : Text.lines "s = \"a -- b\"" = [] ++ "s = \"a -- b\"".toList :: [] := by
      decide +kernel
    rw [Script.Machine.load_of_illegible hknows (filedMachine_one ..) hline (by decide) hbad]
    rfl
  · rw [Script.Machine.load_of_sets hknows (filedMachine_two ..) (by decide +kernel) hsets]
    exact ⟨rfl, Ascending.get?_put_self ..⟩

end Rehearsal

end ScriptDebug
