import Mathlib.Data.List.Nodup
import MapCatalog.Proofs.Style.Compilation

/-! # Breakpoints in any order

The total order of the doubles has no two of them at one place.  So where the zooms of a list are distinct, nothing is
left of the order in which its breakpoints were entered.
-/

namespace MapCatalog

/-! ## Lists of breakpoints -/

namespace Breakpoints

/-- Breakpoints in order of zoom, where those of one zoom stand as they were entered. -/
structure Sorts (points sorted : List Breakpoint) : Prop where
  perm : sorted.Perm points
  ascending : sorted.Pairwise fun a b => a.zoom.totalKey ≤ b.zoom.totalKey
  ties (zoom : Binary64) : (sorted.filter fun point => point.zoom = zoom) =
    points.filter fun point => point.zoom = zoom

theorem sorts_sort (points : List Breakpoint) : Sorts points (sort points) where
  perm := sort_perm points
  ascending := sort_pairwise points
  ties zoom := by
    have hkey : (fun point : Breakpoint => point.zoom.totalKey == zoom.totalKey) =
        fun point => decide (point.zoom = zoom) := by
      funext point
      rw [beq_eq_decide, decide_eq_decide]
      exact Binary64.totalKey_eq_iff
    have hfilter := Sequence.filter_stableSort (fun point : Breakpoint => point.zoom.totalKey)
      zoom.totalKey points
    rwa [hkey] at hfilter

theorem sort_sort (points : List Breakpoint) : sort (sort points) = sort points :=
  Sequence.stableSort_of_pairwise (sort_pairwise points)

def DistinctZooms (points : List Breakpoint) : Prop :=
  (points.map Breakpoint.zoom).Nodup

instance (points : List Breakpoint) : Decidable (DistinctZooms points) :=
  inferInstanceAs (Decidable (points.map Breakpoint.zoom).Nodup)

theorem sort_eq_of_perm {points others : List Breakpoint} (hdistinct : DistinctZooms points)
    (h : others.Perm points) : sort others = sort points := by
  have hperm : (sort others).Perm (sort points) :=
    (sort_perm others).trans (h.trans (sort_perm points).symm)
  refine hperm.eq_of_pairwise ?_ (sort_pairwise others) (sort_pairwise points)
  intro a b ha hb hab hba
  have hzoom : a.zoom = b.zoom := Binary64.totalKey_eq_iff.1 (Int.le_antisymm hab hba)
  have ha : a ∈ points := h.mem_iff.1 ((sort_perm others).mem_iff.1 ha)
  exact List.inj_on_of_nodup_map hdistinct ha ((sort_perm points).mem_iff.1 hb) hzoom

end Breakpoints

namespace Interpolation

theorem ofBreakpoints?_eq_none_iff {points : List Breakpoint} :
    ofBreakpoints? points = none ↔ points = [] := by
  rw [ofBreakpoints?, ← List.isEmpty_iff]
  cases points.isEmpty <;> simp

theorem stops_of_ofBreakpoints? {points : List Breakpoint} {interpolation : Interpolation}
    (h : ofBreakpoints? points = some interpolation) :
    interpolation.stops = Breakpoints.sort points := by
  unfold ofBreakpoints? at h
  split at h
  case isTrue => cases h
  case isFalse =>
    cases h
    rfl

theorem ofBreakpoints?_eq_of_perm {points others : List Breakpoint}
    (hdistinct : Breakpoints.DistinctZooms points) (h : others.Perm points) :
    ofBreakpoints? others = ofBreakpoints? points := by
  have hempty : others.isEmpty = points.isEmpty := by
    rw [Bool.eq_iff_iff, List.isEmpty_iff, List.isEmpty_iff, ← List.length_eq_zero_iff,
      ← List.length_eq_zero_iff, h.length_eq]
  rw [ofBreakpoints?, ofBreakpoints?, hempty, Breakpoints.sort_eq_of_perm hdistinct h]

end Interpolation

/-- A number by zoom is written alike for breakpoints in any order; those that are switched off do not
count. -/
theorem ZoomValue.toJson_choose_of_perm {enabled : Bool} {points others : List Breakpoint}
    (value : Binary64) (hdistinct : enabled = true → Breakpoints.DistinctZooms points)
    (h : enabled = true → others.Perm points) :
    (choose enabled others value).toJson = (choose enabled points value).toJson := by
  cases enabled with
  | false => rfl
  | true =>
      have hsame := Interpolation.ofBreakpoints?_eq_of_perm (hdistinct rfl) (h rfl)
      cases points with
      | nil =>
          rw [(h rfl).eq_nil]
      | cons point rest =>
          obtain ⟨other, more, rfl⟩ := List.exists_cons_of_length_pos
            (show 0 < others.length by rw [(h rfl).length_eq]; exact Nat.succ_pos _)
          simp only [choose, List.isEmpty_cons, Bool.not_false, Bool.and_self, if_true, toJson, hsame]

/-! ## Forms -/

namespace StyleForm

/-- The lists of breakpoints that count for a visual type have no zoom twice. -/
def DistinctZooms (form : StyleForm) (kind : VisualType) : Prop :=
  ∀ property ∈ kind.zoomProperties, property.enabled form = true →
    Breakpoints.DistinctZooms (property.points form)

def withPointsOf (form other : StyleForm) : StyleForm :=
  { form with
    zoomLevels := other.zoomLevels
    textZoomLevels := other.textZoomLevels
    circleRadiusZoomLevels := other.circleRadiusZoomLevels
    lineWidthZoomLevels := other.lineWidthZoomLevels }

/-- Another form differs in its breakpoints only, and where these count for a visual type they are the
same ones in some order. -/
structure Reorders (form other : StyleForm) (kind : VisualType) : Prop where
  rest : other = form.withPointsOf other
  points : ∀ property ∈ kind.zoomProperties, property.enabled form = true →
    (property.points other).Perm (property.points form)

variable {form other : StyleForm} {kind : VisualType}

theorem zoomProperties_withPointsOf (form other : StyleForm) (kind : VisualType) :
    ∀ property ∈ kind.zoomProperties,
      property.enabled (form.withPointsOf other) = property.enabled form ∧
        property.number (form.withPointsOf other) = property.number form := by
  cases kind <;> simp [VisualType.zoomProperties, withPointsOf]

/-- What a form compiles to, unchecked, is made of its fields beside the breakpoints and of the properties
that may depend on the zoom. -/
theorem compile_narrow_withPointsOf
    (h : ∀ property ∈ kind.zoomProperties,
      (property.value (form.withPointsOf other)).toJson = (property.value form).toJson) :
    ((form.withPointsOf other).narrow kind).compile = (form.narrow kind).compile := by
  cases kind with
  | fill | symbol | circle | line =>
      simp only [VisualType.zoomProperties, List.forall_mem_cons, List.not_mem_nil,
        IsEmpty.forall_iff, implies_true, and_true, ZoomProperty.value] at h
      simp only [narrow, VisualStyle.compile, symbolText, symbolIcon, h]
      rfl
  | heatmap | fillExtrusion | raster | rasterParticle | hillshade | model | background | sky
  | slot | clip => rfl

theorem exists_compile_error_iff (form : StyleForm) (kind : VisualType) :
    (∃ e, form.compile kind = .error e) ↔ (form.narrow kind).validate ≠ .ok () := by
  unfold compile
  cases (form.narrow kind).validate <;> simp

namespace Reorders

variable (h : form.Reorders other kind)
include h

theorem zoomProperties : ∀ property ∈ kind.zoomProperties,
    property.enabled other = property.enabled form ∧
      property.number other = property.number form := by
  rw [h.rest]
  exact zoomProperties_withPointsOf form other kind

/-- Whether the breakpoints are sound does not depend on their order. -/
theorem validate_iff :
    (other.narrow kind).validate = .ok () ↔ (form.narrow kind).validate = .ok () := by
  rw [validate_narrow_iff, validate_narrow_iff]
  refine forall₂_congr fun property hproperty => ?_
  rw [(h.zoomProperties property hproperty).1]
  refine forall_congr' fun henabled => ?_
  have hperm := h.points property hproperty henabled
  exact forall_congr' fun point => by rw [hperm.mem_iff]

theorem refused_iff :
    (∃ e, other.compile kind = .error e) ↔ ∃ e, form.compile kind = .error e := by
  rw [exists_compile_error_iff, exists_compile_error_iff, ne_eq, ne_eq, h.validate_iff]

theorem toJson_value (hdistinct : form.DistinctZooms kind) :
    ∀ property ∈ kind.zoomProperties,
      (property.value other).toJson = (property.value form).toJson := by
  intro property hproperty
  obtain ⟨henabled, hnumber⟩ := h.zoomProperties property hproperty
  rw [ZoomProperty.value, ZoomProperty.value, henabled, hnumber]
  exact ZoomValue.toJson_choose_of_perm _ (hdistinct property hproperty) (h.points property hproperty)

/-- Breakpoints at distinct zooms compile to the same properties in any order. -/
theorem compile_iff (hdistinct : form.DistinctZooms kind) (style : CompiledStyle) :
    other.compile kind = .ok style ↔ form.compile kind = .ok style := by
  have hvalues := h.toJson_value hdistinct
  have hcompile : (other.narrow kind).compile = (form.narrow kind).compile := by
    rw [h.rest] at hvalues ⊢
    exact compile_narrow_withPointsOf hvalues
  rw [compile_eq_ok_iff, compile_eq_ok_iff, h.validate_iff, hcompile]

end Reorders

/--
Sorting keeps the breakpoints of a list, puts them in the total order of their zooms, and leaves those of
one zoom as they were entered; sorting again changes nothing.  There is an interpolation for every list
but the empty one, and its stops are the sorted breakpoints.  So a form whose lists have no zoom twice
compiles to the same texts when these lists are entered in any other order, or is refused in every order.
-/
theorem compile_in_any_order :
    (∀ points : List Breakpoint, Breakpoints.Sorts points (Breakpoints.sort points) ∧
      Breakpoints.sort (Breakpoints.sort points) = Breakpoints.sort points) ∧
    (∀ points : List Breakpoint, (Interpolation.ofBreakpoints? points = none ↔ points = []) ∧
      ∀ interpolation, Interpolation.ofBreakpoints? points = some interpolation →
        interpolation.stops = Breakpoints.sort points ∧
          interpolation.stops.length = points.length) ∧
    ∀ (form other : StyleForm) (kind : VisualType), form.DistinctZooms kind →
      form.Reorders other kind →
        ((∃ e, other.compile kind = .error e) ↔ ∃ e, form.compile kind = .error e) ∧
        ∀ style, form.compile kind = .ok style → ∃ same, other.compile kind = .ok same ∧
          same.paintText = style.paintText ∧ same.layoutText = style.layoutText := by
  refine ⟨fun points => ⟨Breakpoints.sorts_sort points, Breakpoints.sort_sort points⟩,
    fun points => ⟨Interpolation.ofBreakpoints?_eq_none_iff, fun interpolation hsome => ?_⟩, ?_⟩
  · have hstops := Interpolation.stops_of_ofBreakpoints? hsome
    exact ⟨hstops, by rw [hstops, (Breakpoints.sort_perm points).length_eq]⟩
  · intro form other kind hdistinct hreorders
    refine ⟨hreorders.refused_iff, fun style hstyle => ?_⟩
    exact ⟨style, (hreorders.compile_iff hdistinct style).2 hstyle, rfl, rfl⟩

def sampleGrowing : StyleForm :=
  { standard with
    useIconSizeZoomStyling := true
    zoomLevels := [⟨.zero, .ofNat 1⟩, ⟨.ofNat 6, .ofNat 2⟩, ⟨.neg .zero, .ofNat 3⟩] }

def sampleTurned : StyleForm :=
  { sampleGrowing with
    zoomLevels := [⟨.neg .zero, .ofNat 3⟩, ⟨.ofNat 6, .ofNat 2⟩, ⟨.zero, .ofNat 1⟩] }

theorem sample_compile_in_any_order :
    sampleGrowing.DistinctZooms .symbol ∧ sampleGrowing.Reorders sampleTurned .symbol ∧
      ∃ style same, sampleGrowing.compile .symbol = .ok style ∧
        sampleTurned.compile .symbol = .ok same ∧ same.paintText = style.paintText ∧
          same.layoutText = style.layoutText := by
  obtain ⟨-, -, hany⟩ := compile_in_any_order
  have hdistinct : sampleGrowing.DistinctZooms .symbol := by
    simp only [DistinctZooms, VisualType.zoomProperties, List.forall_mem_cons]
    exact ⟨fun _ => by decide +kernel, fun _ => by decide +kernel, by simp⟩
  have hreorders : sampleGrowing.Reorders sampleTurned .symbol := by
    refine ⟨rfl, ?_⟩
    simp only [VisualType.zoomProperties, List.forall_mem_cons]
    exact ⟨fun _ => List.Perm.refl _, fun _ => by decide +kernel, by simp⟩
  have hok : sampleGrowing.compile .symbol = .ok (sampleGrowing.narrow .symbol).compile := by
    decide +kernel
  obtain ⟨same, hsame, htexts⟩ := (hany _ _ _ hdistinct hreorders).2 _ hok
  exact ⟨hdistinct, hreorders, _, same, hok, hsame, htexts⟩

end StyleForm

end MapCatalog
