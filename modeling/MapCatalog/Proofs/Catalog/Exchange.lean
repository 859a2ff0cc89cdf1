import MapCatalog.Proofs.Catalog.Forest

/-! # Exchanging by position and by element

A layer is moved by finding its position and exchanging two positions.  In a list without duplicates that is the
exchange of the layer with its neighbour.
-/

namespace MapCatalog

namespace Catalog

open Forest

variable {α : Type} {test : α → Bool}

theorem exchange_eq_swapUp {xs : List α} {position : Nat}
    (h : xs.findIdx? test = some (position + 1)) :
    exchange position xs = swapUp test xs := by
  induction xs generalizing position with
  | nil =>
      simp at h
  | cons a rest ih =>
      rw [List.findIdx?_cons] at h
      split at h
      · simp at h
      · obtain ⟨found, hfound, heq⟩ := Option.map_eq_some_iff.1 h
        cases rest with
        | nil =>
            simp at hfound
        | cons b rest =>
            cases position with
            | zero =>
                obtain rfl : found = 0 := by omega
                have hb : test b = true := by
                  rw [List.findIdx?_cons] at hfound
                  split at hfound
                  · assumption
                  · simp at hfound
                simp [exchange, swapUp, hb]
            | succ position =>
                obtain rfl : found = position + 1 := by omega
                have hb : ¬ test b = true := by
                  intro hb
                  simp [List.findIdx?_cons, hb] at hfound
                simp [exchange, swapUp, hb, ih hfound]

theorem swapUp_of_tail {xs : List α} (h : ∀ x ∈ xs.tail, test x = false) :
    swapUp test xs = xs := by
  induction xs with
  | nil =>
      rfl
  | cons a rest ih =>
      cases rest with
      | nil =>
          rfl
      | cons b rest =>
          have hb : test b = false := h b List.mem_cons_self
          have hrest : swapUp test (b :: rest) = b :: rest :=
            ih fun x hx => h x (List.mem_cons_of_mem b hx)
          simp [swapUp, hb, hrest]

theorem exchange_eq_swapDown {xs : List α} {position : Nat} (h : xs.findIdx? test = some position)
    (hlt : position + 1 < xs.length) : exchange position xs = swapDown test xs := by
  induction xs generalizing position with
  | nil =>
      simp at h
  | cons a rest ih =>
      cases rest with
      | nil =>
          simp at hlt
      | cons b rest =>
          rw [List.findIdx?_cons] at h
          split at h
          · next ha =>
            obtain rfl : 0 = position := by simpa using h
            simp [exchange, swapDown, ha]
          · next ha =>
            obtain ⟨found, hfound, rfl⟩ := Option.map_eq_some_iff.1 h
            have hrest : found + 1 < (b :: rest).length := by
              simp only [List.length_cons] at hlt ⊢
              omega
            simp [exchange, swapDown, ha, ih hfound hrest]

theorem swapDown_of_last {xs : List α} {position : Nat} (h : xs.findIdx? test = some position)
    (hlast : xs.length ≤ position + 1) : swapDown test xs = xs := by
  induction xs generalizing position with
  | nil =>
      rfl
  | cons a rest ih =>
      cases rest with
      | nil =>
          rfl
      | cons b rest =>
          rw [List.findIdx?_cons] at h
          split at h
          · obtain rfl : 0 = position := by simpa using h
            simp at hlast
          · next ha =>
            obtain ⟨found, hfound, rfl⟩ := Option.map_eq_some_iff.1 h
            have hrest : (b :: rest).length ≤ found + 1 := by
              simp only [List.length_cons] at hlast ⊢
              omega
            simp [swapDown, ha, ih hfound hrest]

theorem exchange_ne_self {xs : List α} {position : Nat} (hnodup : xs.Nodup)
    (hlt : position + 1 < xs.length) : exchange position xs ≠ xs := by
  induction xs generalizing position with
  | nil =>
      simp at hlt
  | cons a rest ih =>
      have hrest := List.nodup_cons.1 hnodup
      cases position with
      | zero =>
          cases rest with
          | nil =>
              simp at hlt
          | cons b rest =>
              intro heq
              have hab : b = a := (List.cons.inj heq).1
              exact hrest.1 (hab ▸ List.mem_cons_self)
      | succ position =>
          intro heq
          refine ih hrest.2 ?_ (List.cons.inj heq).2
          simpa using hlt

/-! ## Moving an identifier -/

variable {id : LayerId} {ids : List LayerId} {direction : Direction} {position : Nat}

theorem swap_of_edge (hnodup : ids.Nodup) (hposition : position? id ids = some position)
    (hedge : neighbour? direction position ids.length = none) :
    swap direction (fun other => decide (other = id)) ids = ids := by
  cases direction with
  | up =>
      have hzero : position = 0 := by
        simpa [neighbour?] using hedge
      subst hzero
      refine swapUp_of_tail fun other hother => decide_eq_false ?_
      rintro rfl
      cases ids with
      | nil =>
          simp at hother
      | cons first rest =>
          have hfirst : first = other := by
            simpa [position?, List.findIdx?_cons] using hposition
          exact (List.nodup_cons.1 hnodup).1 (hfirst ▸ hother)
  | down =>
      refine swapDown_of_last hposition ?_
      simpa [neighbour?] using hedge

/-- Elsewhere the exchange of positions is the exchange with the neighbour. -/
theorem exchange_eq_swap {neighbour : Nat} (hposition : position? id ids = some position)
    (hneighbour : neighbour? direction position ids.length = some neighbour) :
    exchange (min position neighbour) ids =
      swap direction (fun other => decide (other = id)) ids := by
  cases direction with
  | up =>
      obtain ⟨hpos, rfl⟩ : 0 < position ∧ position - 1 = neighbour := by
        simpa [neighbour?] using hneighbour
      obtain ⟨before, rfl⟩ : ∃ before, position = before + 1 := ⟨position - 1, by omega⟩
      have hmin : min (before + 1) (before + 1 - 1) = before := by omega
      rw [hmin]
      exact exchange_eq_swapUp hposition
  | down =>
      obtain ⟨hlt, rfl⟩ : position + 1 < ids.length ∧ position + 1 = neighbour := by
        simpa [neighbour?] using hneighbour
      have hmin : min position (position + 1) = position := by omega
      rw [hmin]
      exact exchange_eq_swapDown hposition hlt

theorem min_neighbour_lt {length neighbour : Nat} (hposition : position < length)
    (hneighbour : neighbour? direction position length = some neighbour) :
    min position neighbour + 1 < length := by
  cases direction with
  | up =>
      obtain ⟨hpos, rfl⟩ : 0 < position ∧ position - 1 = neighbour := by
        simpa [neighbour?] using hneighbour
      omega
  | down =>
      obtain ⟨hlt, rfl⟩ : position + 1 < length ∧ position + 1 = neighbour := by
        simpa [neighbour?] using hneighbour
      omega

end Catalog

end MapCatalog
