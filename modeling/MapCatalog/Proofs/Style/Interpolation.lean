import Mathlib.Data.List.Basic
import MapCatalog.Style.Breakpoint

/-! # Interpolations

The sort goes by the total order of the numbers; among the zooms that a checked list can hold this is the numerical
order, with `-0` in front of `0`.
-/

namespace MapCatalog

/-! ## The two orders -/

namespace Binary64

theorem isNaN_of_isFinite {x : Binary64} (h : x.isFinite = true) : x.isNaN = false := by
  have hlt : x.magnitude < infinityMagnitude := of_decide_eq_true h
  exact decide_eq_false (by omega)

theorem valueKey_le_of_totalKey_le {x y : Binary64} (h : x.totalKey ≤ y.totalKey) :
    x.valueKey ≤ y.valueKey := by
  unfold totalKey at h
  unfold valueKey
  cases hx : x.negative <;> cases hy : y.negative <;> simp only [hx, hy] at h ⊢ <;> grind

theorem atMost_of_totalKey_le {x y : Binary64} (hx : x.isFinite = true) (hy : y.isFinite = true)
    (h : x.totalKey ≤ y.totalKey) : x.atMost y = true := by
  simp [atMost, isNaN_of_isFinite hx, isNaN_of_isFinite hy, valueKey_le_of_totalKey_le h]

end Binary64

/-! ## Checked breakpoints -/

namespace Breakpoint

/-- The zoom lies in range, and the value is a number that can be written. -/
structure Sound (point : Breakpoint) : Prop where
  zoom : zoomInRange point.zoom = true
  value : point.value.isFinite = true

theorem finite_of_zoomInRange {zoom : Binary64} (h : zoomInRange zoom = true) :
    zoom.isFinite = true := by
  simp only [zoomInRange, Bool.and_eq_true] at h
  exact h.1.1

end Breakpoint

namespace Breakpoints

theorem validateFrom_eq_ok_iff (list : String) (index : Nat) (points : List Breakpoint) :
    validateFrom list index points = .ok () ↔ ∀ point ∈ points, point.Sound := by
  induction points generalizing index with
  | nil =>
      simp [validateFrom]
  | cons point rest ih =>
      rw [validateFrom, List.forall_mem_cons, ← ih (index + 1)]
      cases hzoom : Breakpoint.zoomInRange point.zoom with
      | false =>
          exact iff_of_false nofun fun h => Bool.false_ne_true (hzoom.symm.trans h.1.zoom)
      | true =>
          cases hvalue : point.value.isFinite with
          | false =>
              exact iff_of_false nofun fun h => Bool.false_ne_true (hvalue.symm.trans h.1.value)
          | true =>
              exact ⟨fun h => ⟨⟨hzoom, hvalue⟩, h⟩, fun h => h.2⟩

/-- A list of breakpoints is accepted when all of them are sound. -/
theorem validate_eq_ok_iff (list : String) (points : List Breakpoint) :
    validate list points = .ok () ↔ ∀ point ∈ points, point.Sound :=
  validateFrom_eq_ok_iff list 0 points

theorem sort_perm (points : List Breakpoint) : (sort points).Perm points :=
  Sequence.stableSort_perm _ points

theorem sort_pairwise (points : List Breakpoint) :
    (sort points).Pairwise fun a b => a.zoom.totalKey ≤ b.zoom.totalKey :=
  Sequence.stableSort_pairwise _ points

end Breakpoints

/-! ## Expressions -/

/-- A document is an expression of the renderer that interpolates. -/
def Json.IsInterpolation (value : Json) : Prop :=
  ∃ arguments, value = .array (.text "interpolate" :: arguments)

namespace Interpolation

/--
The items of an expression that interpolates linearly over the zoom through breakpoints.  Its stops are
these breakpoints, one or more, each as often as it was entered, and in order.
-/
structure Through (points stops : List Breakpoint) (items : List Json) : Prop where
  items_eq : items = .text "interpolate" :: .array [.text "linear"] :: .array [.text "zoom"] ::
    stops.flatMap fun stop => [.ofFloat stop.zoom, .ofFloat stop.value]
  length_eq : items.length = 3 + 2 * stops.length
  nonempty : 1 ≤ stops.length
  perm : stops.Perm points
  sorted : stops.Pairwise fun a b => a.zoom.totalKey ≤ b.zoom.totalKey

/-- Such an expression in which all stops are sound, so that every one is written as two numbers. -/
structure SoundThrough (points stops : List Breakpoint) (items : List Json) : Prop extends
    Through points stops items where
  stops_sound : ∀ stop ∈ stops, stop.Sound
  numbers : items.drop 3 =
    stops.flatMap fun stop => [.number (.float stop.zoom), .number (.float stop.value)]
  ascending : stops.Pairwise fun a b => a.zoom.atMost b.zoom = true

/-- An expression has two items for each stop, behind a head of three. -/
theorem length_items (stops : List Breakpoint) :
    (stops.flatMap fun stop => [Json.ofFloat stop.zoom, .ofFloat stop.value]).length =
      2 * stops.length := by
  induction stops with
  | nil =>
      rfl
  | cons stop rest ih =>
      rw [List.flatMap_cons, List.length_append, ih, List.length_cons, List.length_cons,
        List.length_cons, List.length_nil]
      omega

theorem through_sort {points : List Breakpoint} (h : points ≠ []) :
    ∃ items, (Interpolation.mk (Breakpoints.sort points)).toJson = .array items ∧
      Through points (Breakpoints.sort points) items := by
  have hperm := Breakpoints.sort_perm points
  refine ⟨_, rfl, rfl, ?_, ?_, hperm, Breakpoints.sort_pairwise points⟩
  · simp only [List.length_cons, length_items]
    omega
  · rw [hperm.length_eq]
    exact List.length_pos_iff.2 h

/-- The stops of an interpolation through sound breakpoints ascend in the numerical order. -/
theorem Through.sound {points stops : List Breakpoint} {items : List Json}
    (h : Through points stops items) (hsound : ∀ point ∈ points, point.Sound) :
    SoundThrough points stops items := by
  have hstops : ∀ stop ∈ stops, stop.Sound := fun stop hstop => hsound stop (h.perm.mem_iff.1 hstop)
  refine ⟨h, hstops, ?_, ?_⟩
  · rw [h.items_eq, List.drop_succ_cons, List.drop_succ_cons, List.drop_succ_cons, List.drop_zero]
    refine List.flatMap_congr fun stop hstop => ?_
    have hzoom := Breakpoint.finite_of_zoomInRange (hstops stop hstop).zoom
    rw [Json.ofFloat, Json.ofFloat, if_pos hzoom, if_pos (hstops stop hstop).value]
  · refine h.sorted.imp_of_mem fun {a b} ha hb hle => ?_
    exact Binary64.atMost_of_totalKey_le (Breakpoint.finite_of_zoomInRange (hstops a ha).zoom)
      (Breakpoint.finite_of_zoomInRange (hstops b hb).zoom) hle

end Interpolation

/-! ## Numbers by zoom -/

namespace ZoomValue

def stops : ZoomValue → List Breakpoint
  | .scalar _ => []
  | .byZoom stops _ => stops

def number : ZoomValue → Binary64
  | .scalar value => value
  | .byZoom _ fallback => fallback

/-- What is written for a number by zoom: an interpolation where breakpoints count, else a number. -/
structure Written (value : ZoomValue) (document : Json) : Prop where
  interpolation : document.IsInterpolation ↔ value.stops ≠ []
  through : value.stops ≠ [] →
    ∃ stops items, document = .array items ∧ Interpolation.Through value.stops stops items
  number : value.stops = [] → document = .ofFloat value.number

theorem isInterpolation_of_ofFloat (x : Binary64) : ¬ (Json.ofFloat x).IsInterpolation := by
  rintro ⟨arguments, h⟩
  unfold Json.ofFloat at h
  split at h <;> cases h

/-- Nothing is assumed of the breakpoints: an interpolation always has a stop. -/
theorem written_toJson (value : ZoomValue) : value.Written value.toJson := by
  cases value with
  | scalar number =>
      exact ⟨iff_of_false (isInterpolation_of_ofFloat number) fun h => h rfl,
        fun h => absurd rfl h, fun _ => rfl⟩
  | byZoom points fallback =>
      by_cases hpoints : points = []
      · subst hpoints
        exact ⟨iff_of_false (isInterpolation_of_ofFloat fallback) fun h => h rfl,
          fun h => absurd rfl h, fun _ => rfl⟩
      · have hjson : (ZoomValue.byZoom points fallback).toJson =
            (Interpolation.mk (Breakpoints.sort points)).toJson := by
          simp [toJson, Interpolation.ofBreakpoints?, hpoints]
        rw [hjson]
        obtain ⟨items, hitems, hthrough⟩ := Interpolation.through_sort hpoints
        refine ⟨iff_of_true ⟨_, rfl⟩ hpoints, fun _ => ⟨_, items, hitems, hthrough⟩, fun h => ?_⟩
        exact absurd h hpoints

theorem stops_choose (enabled : Bool) (points : List Breakpoint) (value : Binary64) :
    (choose enabled points value).stops = if enabled then points else [] := by
  unfold choose
  cases enabled with
  | false =>
      rfl
  | true =>
      cases points <;> rfl

theorem number_choose (enabled : Bool) (points : List Breakpoint) (value : Binary64) :
    (choose enabled points value).number = value := by
  unfold choose
  split <;> rfl

theorem validate_eq_ok_iff (list : String) (value : ZoomValue) :
    value.validate list = .ok () ↔ ∀ point ∈ value.stops, point.Sound := by
  cases value with
  | scalar number =>
      simp [validate, stops]
  | byZoom points fallback =>
      exact Breakpoints.validate_eq_ok_iff list points

end ZoomValue

end MapCatalog
