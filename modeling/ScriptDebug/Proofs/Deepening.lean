import ScriptDebug.Proofs.Places

/-!
# More levels

A value that is shown down to more levels is shown as before, but for the containers that were cut
off for want of levels: each of these gives way to what is shown of the same container with more
levels left (`Deepens`). Keys are cut off whatever the levels are, and stay as they are. If no
container among the values was cut off, there is nothing more to show (`view_deepens`).
-/

namespace ScriptDebug

variable {ν : Type} {look : ν → Shape ν} {few many levels : Nat} {name : Option String}
  {v w : ν} {n x : Node} {place : Place}

/-- Whether two payloads are the same, but for what their entries are. -/
def Payload.Alike : Payload → Payload → Prop
  | .entries es, q => ∃ fs, q = .entries fs ∧ fs.length = es.length
  | p, q => q = p

theorem Payload.Alike.refl (p : Payload) : p.Alike p := by
  cases p with
  | entries es => exact ⟨es, rfl, rfl⟩
  | _ => rfl

/-- **Deepens.** `m` shows more of a live value than `n`, and nothing else. -/
structure Node.Deepens (look : ν → Shape ν) (v : ν) (n m : Node) : Prop where
  /-- A node that is not cut off, or is a key, stays, but for its entries. -/
  same : ∀ place x, n.at? place = some x → x.truncated = false ∨ place.isKey = true →
    ∃ y, m.at? place = some y ∧ y.name = x.name ∧ y.tag = x.tag ∧ y.truncated = x.truncated ∧
      x.payload.Alike y.payload
  /-- A container that was cut off among the values stays so, or is entered. -/
  cut : ∀ place x, n.at? place = some x → x.truncated = true → place.isKey = false →
    ∃ y w i es, m.at? place = some y ∧ walk look v place = some w ∧ look w = .container i es ∧
      x.payload = .identity i ∧ y.name = x.name ∧ y.tag = x.tag ∧
      (∃ left, y.Depicts look left x.name w) ∧
      (y = x ∨ y.truncated = false ∧ ∃ entries, y.payload = .entries entries ∧
        entries.length = es.length)
  /-- Whatever is new stands below such a container. -/
  below : ∀ place y, m.at? place = some y → (n.at? place).isSome = true ∨
    ∃ above more x, place = above ++ more ∧ more ≠ [] ∧ n.at? above = some x ∧ x.truncated = true ∧
      above.isKey = false

namespace Node

theorem exists_at?_view (h : few ≤ many) (hx : (view look few name v).at? place = some x) :
    ∃ w, walk look v place = some w ∧ place.length ≤ few ∧ x = shownAt look few name place w ∧
      (view look many name v).at? place = some (shownAt look many name place w) := by
  obtain ⟨w, hw⟩ := exists_walk_of_at? hx
  obtain ⟨hlength, hinside, rfl⟩ := at?_view_eq_some hx hw
  refine ⟨w, hw, hlength, rfl, ?_⟩
  rw [at?_view, if_pos ⟨Nat.le_trans hlength h, hinside⟩, hw]
  rfl

theorem container_of_walk (h : (walk look w place).isSome = true) (hne : place ≠ []) :
    ∃ i es, look w = .container i es := by
  cases place with
  | nil => exact absurd rfl hne
  | cons s place =>
    cases hlook : look w with
    | container i es => exact ⟨i, es, rfl⟩
    | _ => simp [walk, hlook, Shape.entries] at h

/-- What is not cut off for want of levels is shown as before, but for its entries. -/
theorem shownAt_alike (h : few ≤ many) (hlength : place.length ≤ few)
    (hkeeps : (shownAt look few name place w).truncated = false ∨ place.isKey = true) :
    (shownAt look many name place w).name = (shownAt look few name place w).name ∧
      (shownAt look many name place w).tag = (shownAt look few name place w).tag ∧
      (shownAt look many name place w).truncated = (shownAt look few name place w).truncated ∧
      (shownAt look few name place w).payload.Alike (shownAt look many name place w).payload := by
  by_cases hkey : place.isKey = true
  · have hsame : shownAt look many name place w = shownAt look few name place w := by
      unfold shownAt
      rw [if_pos hkey, if_pos hkey]
    rw [hsame]
    exact ⟨rfl, rfl, rfl, .refl _⟩
  · rcases (look w).container_or_other with ⟨i, es, hlook⟩ | hother
    · have hne : place.length ≠ few := by
        intro heq
        rw [shownAt_of_cut hlook (.inr heq)] at hkeeps
        exact hkeeps.elim (fun hfalse => by cases hfalse) hkey
      have hlt : place.length < few := by omega
      obtain ⟨fewer, hfewer, hx⟩ := shownAt_of_expanded hlook (Bool.eq_false_iff.2 hkey) hlt name
      obtain ⟨more, hmore, hy⟩ :=
        shownAt_of_expanded hlook (Bool.eq_false_iff.2 hkey) (Nat.lt_of_lt_of_le hlt h) name
      rw [hx, hy]
      exact ⟨rfl, rfl, rfl, more, rfl, hmore.trans hfewer.symm⟩
    · rw [shownAt_of_other hother, shownAt_of_other hother]
      exact ⟨rfl, rfl, rfl, .refl _⟩

/-- What stands behind the last level of a shorter view stands below a container
that is cut off there. -/
theorem exists_cut_above {y : Node} (hy : (view look many name v).at? place = some y)
    (hlength : few < place.length) : ∃ above more x, place = above ++ more ∧ more ≠ [] ∧
      (view look few name v).at? above = some x ∧ x.truncated = true ∧ above.isKey = false := by
  obtain ⟨w, hw⟩ := exists_walk_of_at? hy
  obtain ⟨-, hinside, -⟩ := at?_view_eq_some hy hw
  have hsplit : place = place.take few ++ place.drop few := (List.take_append_drop few place).symm
  have hmore : place.drop few ≠ [] := by
    intro hnil
    have := List.drop_eq_nil_iff.1 hnil
    omega
  have htake : (place.take few).length = few := by
    rw [List.length_take]
    omega
  rw [hsplit] at hinside hw
  obtain ⟨hkey, habove⟩ := Place.not_key_of_append hmore hinside
  -- the walk passes the last level, and goes on
  rw [walk_append] at hw
  obtain ⟨u, hu, hrest⟩ := Option.bind_eq_some_iff.1 hw
  obtain ⟨i, es, hlook⟩ := container_of_walk (by rw [hrest]; rfl) hmore
  have hat : (view look few name v).at? (place.take few) =
      some (shownAt look few name (place.take few) u) := by
    rw [at?_view, if_pos ⟨Nat.le_of_eq htake, habove⟩, hu]
    rfl
  rw [shownAt_of_cut hlook (.inr htake)] at hat
  exact ⟨place.take few, place.drop few, _, hsplit, hmore, hat, rfl, hkey⟩

theorem deepens_view (look : ν → Shape ν) (name : Option String) (v : ν) (h : few ≤ many) :
    Deepens look v (view look few name v) (view look many name v) where
  same place x hx hkeeps := by
    obtain ⟨w, hw, hlength, rfl, hy⟩ := exists_at?_view h hx
    exact ⟨_, hy, shownAt_alike h hlength hkeeps⟩
  cut place x hx hcut hkey := by
    obtain ⟨w, hw, hlength, rfl, hy⟩ := exists_at?_view h hx
    obtain ⟨⟨i, es, hlook⟩, hlast⟩ :=
      ((depicts_view look few name v).truncated place _ w hx hw).1 hcut
    have heq : place.length = few := hlast.resolve_left (by simp [hkey])
    have hdepicts : (shownAt look many name place w).Depicts look (many - place.length)
        (if place = [] then name else none) w := by
      unfold shownAt
      rw [if_neg (by simp [hkey])]
      exact depicts_view look _ _ w
    rw [shownAt_of_cut hlook (.inr heq)]
    rcases Nat.lt_or_ge place.length many with hlt | hge
    · obtain ⟨entries, hentries, hshown⟩ := shownAt_of_expanded hlook hkey hlt name
      rw [hshown] at hy hdepicts
      exact ⟨_, w, i, es, hy, hw, hlook, rfl, rfl, rfl, ⟨_, hdepicts⟩,
        .inr ⟨rfl, entries, rfl, hentries⟩⟩
    · have hall : place.length = many := by omega
      rw [shownAt_of_cut hlook (.inr hall)] at hy hdepicts
      exact ⟨_, w, i, es, hy, hw, hlook, rfl, rfl, rfl, ⟨_, hdepicts⟩, .inl rfl⟩
  below place y hy := by
    rcases Nat.lt_or_ge few place.length with hlt | hle
    · exact .inr (exists_cut_above hy hlt)
    · obtain ⟨w, hw⟩ := exists_walk_of_at? hy
      obtain ⟨-, hinside, -⟩ := at?_view_eq_some hy hw
      refine .inl ?_
      rw [at?_view, if_pos ⟨hle, hinside⟩, hw]
      rfl

/-- There is nothing more to show of a value if nothing of it is cut off but keys. -/
theorem view_eq_of_whole (h : few ≤ many)
    (hwhole : ∀ place x, (view look few name v).at? place = some x →
    place.isKey = false → x.truncated = false) : view look many name v = view look few name v := by
  induction few generalizing many name v with
  | zero =>
    have hother : ∀ i es, look v ≠ .container i es := by
      intro i es hlook
      have htop := hwhole [] (view look 0 name v) rfl rfl
      rw [view_zero, hlook] at htop
      cases htop
    rw [view_of_other hother, view_of_other hother]
  | succ few ih =>
    obtain ⟨more, rfl⟩ := Nat.exists_eq_add_of_le h
    rcases (look v).container_or_other with ⟨i, es, hlook⟩ | hother
    · have hsucc : few + 1 + more = (few + more) + 1 := by omega
      rw [hsucc, view_of_container hlook, view_of_container hlook]
      congr 2
      apply List.map_congr_left
      intro e he
      obtain ⟨k, hk⟩ := List.mem_iff_getElem?.1 he
      congr 1
      apply ih (Nat.le_add_right few more)
      intro place x hx hkey
      -- what is cut off in an entry would be cut off in the whole
      apply hwhole ((k, .value) :: place) x
      · rw [view_of_container hlook]
        simpa [at?, entries, payload, hk, Side.of] using hx
      · by_cases hplace : place = []
        · subst hplace
          rfl
        · rwa [Place.isKey_cons hplace]
    · rw [view_of_other hother, view_of_other hother]

/-- **Asking for more levels** shows more of what was cut off, and changes nothing else. -/
theorem view_deepens (look : ν → Shape ν) (name : Option String) (v : ν) {few many : Int}
    (hfew : 0 ≤ few) (h : few ≤ many) :
    ∃ n m, view? look few name v = .ok n ∧ view? look many name v = .ok m ∧
      Deepens look v n m ∧
      ((∀ place x, n.at? place = some x → place.isKey = false → x.truncated = false) → m = n) := by
  have hle : few.toNat ≤ many.toNat := Int.toNat_le_toNat h
  refine ⟨view look few.toNat name v, view look many.toNat name v, ?_, ?_,
    deepens_view look name v hle, view_eq_of_whole hle⟩
  · unfold view?
    rw [if_neg (Int.not_lt.2 hfew)]
  · unfold view?
    rw [if_neg (by omega)]

end Node

/-! ## A table that holds itself -/

namespace Rehearsal

/-- A table that holds itself, under a key that is another table. -/
def ring : ValueGraph := ⟨#[.container 16 [(1, 0)], .container 32 []]⟩

/-- Its value is cut off at one level, and entered at three. -/
theorem ring_deepens : (0 : Int) ≤ 1 ∧ (1 : Int) ≤ 3 ∧ ∃ n m,
    Node.view? ring.look 1 (some "t") 0 = .ok n ∧ Node.view? ring.look 3 (some "t") 0 = .ok m ∧
      Node.Deepens ring.look 0 n m ∧ (n.at? [(0, .value)]).map Node.truncated = some true ∧
      (m.at? [(0, .value)]).map Node.truncated = some false := by
  obtain ⟨n, m, hn, hm, hdeepens, -⟩ := Node.view_deepens ring.look (some "t") 0
    (show (0 : Int) ≤ 1 by decide) (show (1 : Int) ≤ 3 by decide)
  obtain rfl : Node.view ring.look 1 (some "t") 0 = n := Except.ok.inj hn
  obtain rfl : Node.view ring.look 3 (some "t") 0 = m := Except.ok.inj hm
  exact ⟨by decide, by decide, _, _, hn, hm, hdeepens, rfl, rfl⟩

end Rehearsal

end ScriptDebug
