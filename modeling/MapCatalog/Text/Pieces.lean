/-! # Pieces of a text -/

namespace MapCatalog

namespace Text

def pieces (sep : Char → Bool) : List Char → List (List Char)
  | [] => [[]]
  | c :: rest =>
      if sep c then
        [] :: pieces sep rest
      else
        match pieces sep rest with
        | [] => [[c]]
        | first :: more => (c :: first) :: more

theorem pieces_ne_nil (sep : Char → Bool) (chars : List Char) :
    pieces sep chars ≠ [] := by
  cases chars with
  | nil =>
      simp [pieces]
  | cons c rest =>
      simp only [pieces]
      split
      · simp
      · split <;> simp

theorem pieces_of_none {sep : Char → Bool} {chars : List Char} (h : ∀ c ∈ chars, sep c = false) :
    pieces sep chars = [chars] := by
  induction chars with
  | nil =>
      rfl
  | cons c rest ih =>
      obtain ⟨hc, hrest⟩ := List.forall_mem_cons.1 h
      simp [pieces, hc, ih hrest]

theorem pieces_append_sep {sep : Char → Bool} {piece : List Char} {cut : Char}
    (h : ∀ c ∈ piece, sep c = false) (hcut : sep cut = true) (rest : List Char) :
    pieces sep (piece ++ cut :: rest) = piece :: pieces sep rest := by
  induction piece with
  | nil =>
      simp [pieces, hcut]
  | cons c piece ih =>
      obtain ⟨hc, hpiece⟩ := List.forall_mem_cons.1 h
      simp [pieces, hc, ih hpiece]

/-- A text either has no separator or is cut at its first one. -/
theorem exists_first_sep (sep : Char → Bool) (chars : List Char) :
    (∀ c ∈ chars, sep c = false) ∨
      ∃ piece cut rest, chars = piece ++ cut :: rest ∧ (∀ c ∈ piece, sep c = false) ∧
        sep cut = true := by
  induction chars with
  | nil =>
      exact .inl (by simp)
  | cons c chars ih =>
      by_cases hc : sep c = true
      · exact .inr ⟨[], c, chars, rfl, by simp, hc⟩
      · have hc : sep c = false := by simpa using hc
        rcases ih with hnone | ⟨piece, cut, rest, htext, hpiece, hcut⟩
        · exact .inl (List.forall_mem_cons.2 ⟨hc, hnone⟩)
        · refine .inr ⟨c :: piece, cut, rest, by rw [htext, List.cons_append], ?_, hcut⟩
          exact List.forall_mem_cons.2 ⟨hc, hpiece⟩

theorem pieces_eq_singleton_iff {sep : Char → Bool} {chars piece : List Char} :
    pieces sep chars = [piece] ↔ chars = piece ∧ ∀ c ∈ piece, sep c = false := by
  constructor
  · intro h
    rcases exists_first_sep sep chars with hnone | ⟨first, cut, rest, rfl, hfirst, hcut⟩
    · rw [pieces_of_none hnone, List.cons.injEq] at h
      exact ⟨h.1, h.1 ▸ hnone⟩
    · rw [pieces_append_sep hfirst hcut, List.cons.injEq] at h
      exact absurd h.2 (pieces_ne_nil sep rest)
  · rintro ⟨rfl, hnone⟩
    exact pieces_of_none hnone

theorem pieces_eq_cons_cons_iff {sep : Char → Bool} {chars piece next : List Char}
    {others : List (List Char)} :
    pieces sep chars = piece :: next :: others ↔
      ∃ cut rest, chars = piece ++ cut :: rest ∧ (∀ c ∈ piece, sep c = false) ∧
        sep cut = true ∧ pieces sep rest = next :: others := by
  constructor
  · intro h
    rcases exists_first_sep sep chars with hnone | ⟨first, cut, rest, rfl, hfirst, hcut⟩
    · rw [pieces_of_none hnone] at h
      cases h
    · rw [pieces_append_sep hfirst hcut, List.cons.injEq] at h
      obtain ⟨rfl, hrest⟩ := h
      exact ⟨cut, rest, rfl, hfirst, hcut, hrest⟩
  · rintro ⟨cut, rest, rfl, hpiece, hcut, hrest⟩
    rw [pieces_append_sep hpiece hcut, hrest]

end Text

end MapCatalog
