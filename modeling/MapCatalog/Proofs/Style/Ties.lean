import Mathlib.Data.List.Sort
import MapCatalog.Proofs.Style.Interpolation

/-! # Breakpoints of one zoom

The check compares zooms as numbers and the sort by the total order.  Among the zooms of a checked list the two differ
at `0` and `-0` alone, which are one number.
-/

namespace MapCatalog

/-! ## Equal numbers -/

namespace Binary64

def minusZero : Binary64 :=
  neg zero

/-- The numerical comparison holds both ways. -/
def SameNumber (x y : Binary64) : Prop :=
  x.atMost y = true ∧ y.atMost x = true

instance (x y : Binary64) : Decidable (x.SameNumber y) :=
  inferInstanceAs (Decidable (_ ∧ _))

theorem SameNumber.valueKey_eq {x y : Binary64} (h : x.SameNumber y) : x.valueKey = y.valueKey := by
  obtain ⟨hxy, hyx⟩ := h
  simp only [atMost, Bool.and_eq_true, decide_eq_true_eq] at hxy hyx
  exact Int.le_antisymm hxy.2 hyx.2

theorem totalKey_zero : zero.totalKey = 0 := by
  decide

theorem totalKey_minusZero : minusZero.totalKey = -1 := by
  decide

/-- Numbers of one value and of two signs are the two zeros. -/
theorem zeros_of_valueKey_eq {x y : Binary64} (hx : x.negative = false) (hy : y.negative = true)
    (h : x.valueKey = y.valueKey) : x = zero ∧ y = minusZero := by
  rw [valueKey, valueKey, hx, hy, if_neg Bool.false_ne_true, if_pos rfl] at h
  refine ⟨eq_of_totalKey_eq ?_, eq_of_totalKey_eq ?_⟩
  · rw [totalKey_zero, totalKey, hx, if_neg Bool.false_ne_true]
    omega
  · rw [totalKey_minusZero, totalKey, hy, if_pos rfl]
    omega

theorem eq_of_valueKey_eq {x y : Binary64} (hsign : x.negative = y.negative)
    (h : x.valueKey = y.valueKey) : x = y := by
  refine eq_of_totalKey_eq ?_
  rw [valueKey, valueKey, hsign] at h
  rw [totalKey, totalKey, hsign]
  by_cases hy : y.negative = true
  · rw [if_pos hy, if_pos hy] at h ⊢
    omega
  · rw [if_neg hy, if_neg hy] at h ⊢
    exact h

/-- The total order tells numbers of one value apart only where they are the two zeros. -/
theorem SameNumber.eq_or_zeros {x y : Binary64} (h : x.SameNumber y) :
    x = y ∨ (x = zero ∧ y = minusZero) ∨ (x = minusZero ∧ y = zero) := by
  have hvalue := h.valueKey_eq
  cases hx : x.negative with
  | false =>
      cases hy : y.negative with
      | false =>
          exact Or.inl (eq_of_valueKey_eq (hx.trans hy.symm) hvalue)
      | true =>
          exact Or.inr (Or.inl (zeros_of_valueKey_eq hx hy hvalue))
  | true =>
      cases hy : y.negative with
      | false =>
          exact Or.inr (Or.inr (zeros_of_valueKey_eq hy hx hvalue.symm).symm)
      | true =>
          exact Or.inl (eq_of_valueKey_eq (hx.trans hy.symm) hvalue)

/-- Among numbers of one value, only `0` comes behind another one: behind `-0`. -/
theorem SameNumber.totalKey_le_iff {x y : Binary64} (h : x.SameNumber y) :
    x.totalKey ≤ y.totalKey ↔ ¬ (x = zero ∧ y = minusZero) := by
  rcases h.eq_or_zeros with rfl | ⟨rfl, rfl⟩ | ⟨rfl, rfl⟩
  · refine iff_of_true le_rfl ?_
    rintro ⟨hzero, hminus⟩
    exact absurd (hzero.symm.trans hminus) (by decide)
  · refine iff_of_false ?_ fun hnot => hnot ⟨rfl, rfl⟩
    rw [totalKey_zero, totalKey_minusZero]
    omega
  · refine iff_of_true ?_ fun hzeros => absurd hzeros.1 (by decide)
    rw [totalKey_zero, totalKey_minusZero]
    omega

end Binary64

/-! ## The order of the stops -/

namespace Breakpoints

/-- The places of breakpoints, in an order in which the breakpoints at these places are the stops. -/
structure Arranges (points stops : List Breakpoint) (order : List (Fin points.length)) : Prop where
  perm : order.Perm (List.finRange points.length)
  stops_eq : stops = order.map points.get

def places (points : List Breakpoint) : List (Fin points.length) :=
  Sequence.stableSort (fun place => (points.get place).zoom.totalKey) (List.finRange points.length)

theorem arranges_places (points : List Breakpoint) : Arranges points (sort points) (places points) := by
  refine ⟨Sequence.stableSort_perm _ _, ?_⟩
  rw [places, Sequence.map_stableSort points.get fun point => point.zoom.totalKey,
    List.map_get_finRange]
  rfl

/-- Whatever the order of the places, a stop that comes first is not above one that comes later. -/
theorem Arranges.totalKey_le {points : List Breakpoint} {order : List (Fin points.length)}
    (h : Arranges points (sort points) order) {i j : Fin points.length}
    (hbefore : [i, j].Sublist order) :
    (points.get i).zoom.totalKey ≤ (points.get j).zoom.totalKey := by
  have hsorted := sort_pairwise points
  rw [h.stops_eq, List.pairwise_map] at hsorted
  exact List.pairwise_iff_forall_sublist.1 hsorted hbefore

theorem sublist_places_iff {points : List Breakpoint} {i j : Fin points.length} (hlt : i < j) :
    [i, j].Sublist (places points) ↔
      (points.get i).zoom.totalKey ≤ (points.get j).zoom.totalKey := by
  refine ⟨(arranges_places points).totalKey_le, fun hle => ?_⟩
  have hentered : [i, j].Sublist (List.finRange points.length) := by
    have hpair : [i, j].Pairwise (· < ·) := List.pairwise_pair.2 hlt
    refine List.sublist_of_subperm_of_pairwise ?_ hpair (List.sortedLT_finRange _).pairwise
    exact List.subperm_of_subset hpair.nodup fun place _ => List.mem_finRange place
  exact Sequence.pair_sublist_stableSort hle hentered

end Breakpoints

namespace Interpolation

theorem ofBreakpoints?_of_ne_nil {points : List Breakpoint} (h : points ≠ []) :
    ofBreakpoints? points = some ⟨Breakpoints.sort points⟩ := by
  rw [ofBreakpoints?, if_neg fun hempty => h (List.isEmpty_iff.1 hempty)]

/--
Two breakpoints of one zoom are stops in the order in which they were entered, unless the first was
entered at `0` and the second at `-0`.  Nothing is assumed of the list: no zoom is the same number as one
that is not a number.
-/
theorem ofBreakpoints?_ties {points : List Breakpoint} (hpoints : points ≠ []) :
    ∃ interpolation order, ofBreakpoints? points = some interpolation ∧
      Breakpoints.Arranges points interpolation.stops order ∧
      ∀ i j, i < j → (points.get i).zoom.SameNumber (points.get j).zoom →
        ([i, j].Sublist order ↔
          ¬ ((points.get i).zoom = .zero ∧ (points.get j).zoom = .minusZero)) := by
  refine ⟨_, Breakpoints.places points, ofBreakpoints?_of_ne_nil hpoints,
    Breakpoints.arranges_places points, fun i j hlt hsame => ?_⟩
  rw [Breakpoints.sublist_places_iff hlt, hsame.totalKey_le_iff]

/-- Two breakpoints at the two zeros, as a checked list may hold them. -/
def sampleZeros : List Breakpoint :=
  [⟨.zero, .ofNat 1⟩, ⟨.minusZero, .ofNat 2⟩]

theorem sampleZeros_ties :
    sampleZeros ≠ [] ∧
    ∃ interpolation order, ofBreakpoints? sampleZeros = some interpolation ∧
      Breakpoints.Arranges sampleZeros interpolation.stops order ∧
      ∀ i j, i < j → (sampleZeros.get i).zoom.SameNumber (sampleZeros.get j).zoom →
        ([i, j].Sublist order ↔
          ¬ ((sampleZeros.get i).zoom = .zero ∧ (sampleZeros.get j).zoom = .minusZero)) :=
  ⟨List.cons_ne_nil _ _, ofBreakpoints?_ties (List.cons_ne_nil _ _)⟩

/-- In the interpolation, all breakpoints of one zoom keep the order in which they were entered. -/
def KeepsTies (points : List Breakpoint) : Prop :=
  ∀ interpolation, ofBreakpoints? points = some interpolation →
    ∃ order, Breakpoints.Arranges points interpolation.stops order ∧
      ∀ i j, i < j → (points.get i).zoom.SameNumber (points.get j).zoom → [i, j].Sublist order

/-- The two zeros are the only exception, and no other order of the places takes it back. -/
theorem keepsTies_iff (points : List Breakpoint) :
    KeepsTies points ↔
      ∀ i j, i < j → ¬ ((points.get i).zoom = .zero ∧ (points.get j).zoom = .minusZero) := by
  constructor
  · rintro hkeeps i j hlt ⟨hi, hj⟩
    have hpoints : points ≠ [] := List.ne_nil_of_length_pos i.pos
    obtain ⟨order, horder, hties⟩ := hkeeps _ (ofBreakpoints?_of_ne_nil hpoints)
    have hsame : (points.get i).zoom.SameNumber (points.get j).zoom := by
      rw [hi, hj]
      decide
    exact hsame.totalKey_le_iff.1 (horder.totalKey_le (hties i j hlt hsame)) ⟨hi, hj⟩
  · intro hzeros interpolation hsome
    have hpoints : points ≠ [] := by
      rintro rfl
      cases hsome
    obtain rfl := Option.some.inj ((ofBreakpoints?_of_ne_nil hpoints).symm.trans hsome)
    refine ⟨Breakpoints.places points, Breakpoints.arranges_places points, fun i j hlt hsame => ?_⟩
    exact (Breakpoints.sublist_places_iff hlt).2 (hsame.totalKey_le_iff.2 (hzeros i j hlt))

/-- The check passes, and the breakpoint that was entered first comes second. -/
theorem sampleZeros_turned :
    Breakpoints.validate "fill opacity" sampleZeros = .ok () ∧ ¬ KeepsTies sampleZeros := by
  refine ⟨by decide +kernel, fun hkeeps => ?_⟩
  exact (keepsTies_iff sampleZeros).1 hkeeps ⟨0, by decide⟩ ⟨1, by decide⟩ (by decide) ⟨rfl, rfl⟩

end Interpolation

end MapCatalog
