/-!
# Lines of a text

A text is a sequence of lines, each ended by a line feed; the last one may lack it.
-/

namespace ScriptDebug.Text

/-- Drop one carriage return at the end of a line that is given back to front. -/
def dropReturn : List Char → List Char
  | '\r' :: line => line
  | line => line

/-- Split at every line feed, with the current line gathered back to front. A feed at the very
end opens no further line; a carriage return just before a feed belongs to the line end. -/
def splitLines (line : List Char) : List Char → List (List Char)
  | [] => if line.isEmpty then [] else [line.reverse]
  | '\n' :: rest => (dropReturn line).reverse :: splitLines [] rest
  | c :: rest => splitLines (c :: line) rest

/-- The lines of a text. -/
def lines (s : String) : List (List Char) :=
  splitLines [] s.toList

/-- Cut at the first occurrence of `sep`: the two sides, if it occurs. -/
def splitOnce (sep : Char) : List Char → Option (List Char × List Char)
  | [] => none
  | c :: rest =>
    if c = sep then some ([], rest)
    else (splitOnce sep rest).map fun (l, r) => (c :: l, r)

/-- Cut at every occurrence of `sep`; there is always at least one part. -/
def splitAll (sep : Char) : List Char → List (List Char)
  | [] => [[]]
  | c :: rest =>
    if c = sep then [] :: splitAll sep rest
    else match splitAll sep rest with
      | [] => [[c]]
      | part :: parts => (c :: part) :: parts

/-- What `splitOnce` cuts apart is the text around one separator. -/
theorem splitOnce_eq_some {sep : Char} {cs l r : List Char} (h : splitOnce sep cs = some (l, r)) :
    cs = l ++ sep :: r ∧ sep ∉ l := by
  induction cs generalizing l with
  | nil => simp [splitOnce] at h
  | cons c rest ih =>
    simp only [splitOnce] at h
    split at h
    · rename_i hc
      simp only [Option.some.injEq, Prod.mk.injEq] at h
      obtain ⟨rfl, rfl⟩ := h
      simp [hc]
    · rename_i hc
      obtain ⟨⟨l', r'⟩, hl, he⟩ := Option.map_eq_some_iff.1 h
      simp only [Prod.mk.injEq] at he
      obtain ⟨rfl, rfl⟩ := he
      obtain ⟨h1, h2⟩ := ih hl
      refine ⟨by simp [h1], ?_⟩
      simp only [List.mem_cons, not_or]
      exact ⟨fun e => hc e.symm, h2⟩

end ScriptDebug.Text
