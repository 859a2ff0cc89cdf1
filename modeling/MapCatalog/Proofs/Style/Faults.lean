import MapCatalog.Proofs.Binary64.Order
import MapCatalog.Proofs.Style.Compilation

/-! # What a compilation reads and reports -/

namespace MapCatalog

/-! ## Faults -/

namespace Breakpoint

/-- A zoom is finite and lies between 0 and 22. -/
structure ZoomWithin (zoom : Binary64) : Prop where
  finite : zoom.isFinite = true
  least : 0 ≤ zoom.signedUnits
  most : zoom.signedUnits ≤ 22 * Binary64.unitsPerOne

theorem zoomInRange_iff (zoom : Binary64) : zoomInRange zoom = true ↔ ZoomWithin zoom := by
  have hzero : Binary64.zero.signedUnits = 0 := by decide +kernel
  have hmax : maxZoom.signedUnits = 22 * Binary64.unitsPerOne := by decide +kernel
  have hnumbers : Binary64.zero.isNaN = false ∧ maxZoom.isNaN = false := by decide +kernel
  simp only [zoomInRange, Binary64.atMost, Bool.and_eq_true, decide_eq_true_eq,
    Binary64.valueKey_le_valueKey_iff, hzero, hmax, hnumbers, Bool.not_false, true_and, and_true]
  constructor
  · intro h
    exact ⟨h.1.1, h.1.2.2, h.2.2⟩
  · intro h
    have hnumber : (!zoom.isNaN) = true := by
      rw [Binary64.isNaN_of_isFinite h.finite, Bool.not_false]
    exact ⟨⟨h.finite, hnumber, h.least⟩, hnumber, h.most⟩

theorem sound_iff (point : Breakpoint) :
    point.Sound ↔ ZoomWithin point.zoom ∧ point.value.isFinite = true :=
  ⟨fun h => ⟨(zoomInRange_iff _).1 h.zoom, h.value⟩, fun h => ⟨(zoomInRange_iff _).2 h.1, h.2⟩⟩

/-- What is wrong with the breakpoint at an index of a list: its zoom, or else its value. -/
inductive Faulty (list : String) (index : Nat) (point : Breakpoint) : StyleError → Prop where
  | zoom (h : ¬ ZoomWithin point.zoom) :
      Faulty list index point (.zoomOutOfRange list index point.zoom)
  | value (hzoom : ZoomWithin point.zoom) (h : point.value.isFinite = false) :
      Faulty list index point (.valueNotFinite list index)

theorem Faulty.not_sound {list : String} {index : Nat} {point : Breakpoint} {e : StyleError}
    (h : Faulty list index point e) : ¬ point.Sound := by
  rw [sound_iff]
  rintro ⟨hzoom, hvalue⟩
  cases h with
  | zoom hnot => exact hnot hzoom
  | value _ hnot => exact Bool.false_ne_true (hnot.symm.trans hvalue)

end Breakpoint

namespace Breakpoints

/-- The fault of the first breakpoint that has one, in a list whose first index is given. -/
def FirstFaultFrom (list : String) (index : Nat) (points : List Breakpoint) (e : StyleError) : Prop :=
  ∃ before point after, points = before ++ point :: after ∧
    (∀ earlier ∈ before, earlier.Sound) ∧ point.Faulty list (index + before.length) e

def FirstFault (list : String) (points : List Breakpoint) (e : StyleError) : Prop :=
  FirstFaultFrom list 0 points e

def FirstFaultOf (lists : List (String × List Breakpoint)) (e : StyleError) : Prop :=
  ∃ before list after, lists = before ++ list :: after ∧
    (∀ earlier ∈ before, ∀ point ∈ earlier.2, point.Sound) ∧ FirstFault list.1 list.2 e

variable {list : String} {e : StyleError}

theorem not_firstFaultFrom_nil (index : Nat) : ¬ FirstFaultFrom list index [] e := by
  rintro ⟨before, point, after, hpoints, -⟩
  simp at hpoints

theorem firstFaultFrom_cons_iff {index : Nat} {first : Breakpoint} {rest : List Breakpoint} :
    FirstFaultFrom list index (first :: rest) e ↔
      first.Faulty list index e ∨ first.Sound ∧ FirstFaultFrom list (index + 1) rest e := by
  constructor
  · rintro ⟨_ | ⟨head, before⟩, point, after, hpoints, hbefore, hfault⟩
    · cases hpoints
      exact .inl hfault
    · cases hpoints
      obtain ⟨hhead, hbefore⟩ := List.forall_mem_cons.1 hbefore
      refine .inr ⟨hhead, before, point, after, rfl, hbefore, ?_⟩
      rwa [List.length_cons, Nat.add_comm before.length, ← Nat.add_assoc] at hfault
  · rintro (hfault | ⟨hfirst, before, point, after, rfl, hbefore, hfault⟩)
    · exact ⟨[], first, rest, rfl, by simp, hfault⟩
    · refine ⟨first :: before, point, after, rfl, List.forall_mem_cons.2 ⟨hfirst, hbefore⟩, ?_⟩
      rwa [List.length_cons, Nat.add_comm before.length, ← Nat.add_assoc]

/-- The first breakpoint of a list is refused, or else the rest decides. -/
theorem validateFrom_cons_eq_error_iff {index : Nat} {first : Breakpoint} {rest : List Breakpoint} :
    validateFrom list index (first :: rest) = .error e ↔
      first.Faulty list index e ∨
        first.Sound ∧ validateFrom list (index + 1) rest = .error e := by
  rw [validateFrom]
  cases hzoom : Breakpoint.zoomInRange first.zoom with
  | false =>
      have hnot : ¬ Breakpoint.ZoomWithin first.zoom := by
        rw [← Breakpoint.zoomInRange_iff, hzoom]
        exact Bool.false_ne_true
      constructor
      · rintro ⟨⟩
        exact .inl (.zoom hnot)
      · rintro (hfault | ⟨hsound, -⟩)
        · cases hfault with
          | zoom _ => rfl
          | value hwithin _ => exact absurd hwithin hnot
        · exact absurd ((Breakpoint.sound_iff first).1 hsound).1 hnot
  | true =>
      have hwithin := (Breakpoint.zoomInRange_iff _).1 hzoom
      cases hvalue : first.value.isFinite with
      | false =>
          constructor
          · rintro ⟨⟩
            exact .inl (.value hwithin hvalue)
          · rintro (hfault | ⟨hsound, -⟩)
            · cases hfault with
              | zoom hnot => exact absurd hwithin hnot
              | value _ _ => rfl
            · exact absurd (hvalue.symm.trans hsound.value) Bool.false_ne_true
      | true =>
          have hsound : first.Sound := ⟨hzoom, hvalue⟩
          constructor
          · intro h
            exact .inr ⟨hsound, h⟩
          · rintro (hfault | ⟨-, h⟩)
            · exact absurd hsound hfault.not_sound
            · exact h

theorem validateFrom_eq_error_iff {index : Nat} {points : List Breakpoint} :
    validateFrom list index points = .error e ↔ FirstFaultFrom list index points e := by
  induction points generalizing index with
  | nil =>
      exact iff_of_false nofun (not_firstFaultFrom_nil index)
  | cons first rest ih =>
      rw [validateFrom_cons_eq_error_iff, firstFaultFrom_cons_iff, ih]

theorem validate_eq_error_iff {points : List Breakpoint} :
    validate list points = .error e ↔ FirstFault list points e :=
  validateFrom_eq_error_iff

theorem not_firstFaultOf_nil : ¬ FirstFaultOf [] e := by
  rintro ⟨before, list, after, hlists, -⟩
  simp at hlists

theorem firstFaultOf_cons_iff {points : List Breakpoint} {rest : List (String × List Breakpoint)} :
    FirstFaultOf ((list, points) :: rest) e ↔
      FirstFault list points e ∨ (∀ point ∈ points, point.Sound) ∧ FirstFaultOf rest e := by
  constructor
  · rintro ⟨_ | ⟨head, before⟩, found, after, hlists, hbefore, hfault⟩
    · cases hlists
      exact .inl hfault
    · cases hlists
      obtain ⟨hhead, hbefore⟩ := List.forall_mem_cons.1 hbefore
      exact .inr ⟨hhead, before, found, after, rfl, hbefore, hfault⟩
  · rintro (hfault | ⟨hlist, before, found, after, rfl, hbefore, hfault⟩)
    · exact ⟨[], (list, points), rest, rfl, by simp, hfault⟩
    · exact ⟨(list, points) :: before, found, after, rfl,
        List.forall_mem_cons.2 ⟨hlist, hbefore⟩, hfault⟩

theorem exists_firstFault_iff (list : String) (points : List Breakpoint) :
    (∃ e, FirstFault list points e) ↔ ¬ ∀ point ∈ points, point.Sound := by
  rw [← validate_eq_ok_iff list points]
  simp only [← validate_eq_error_iff]
  cases validate list points <;> simp

theorem exists_firstFaultOf_iff {lists : List (String × List Breakpoint)} :
    (∃ e, FirstFaultOf lists e) ↔ ∃ list ∈ lists, ∃ point ∈ list.2, ¬ point.Sound := by
  induction lists with
  | nil =>
      simp [not_firstFaultOf_nil]
  | cons head rest ih =>
      obtain ⟨list, points⟩ := head
      simp only [firstFaultOf_cons_iff, exists_or, exists_and_left, ih, exists_firstFault_iff,
        List.mem_cons, exists_eq_or_imp, not_forall, exists_prop]
      by_cases hpoints : ∀ point ∈ points, point.Sound <;> simp_all

end Breakpoints

theorem ZoomValue.validate_eq_error_iff {list : String} {value : ZoomValue} {e : StyleError} :
    value.validate list = .error e ↔ Breakpoints.FirstFault list value.stops e := by
  cases value with
  | scalar number =>
      exact iff_of_false nofun (Breakpoints.not_firstFaultFrom_nil 0)
  | byZoom points fallback =>
      exact Breakpoints.validate_eq_error_iff

/-! ## Styles -/

namespace VisualStyle

/-- The lists of breakpoints that are checked, in this order, by the names under which they are
reported. -/
def checkedLists : VisualStyle → List (String × List Breakpoint)
  | .fill style => [("fill opacity", style.opacity.stops)]
  | .symbol style => [("text size", style.textSize.stops), ("icon size", style.iconSize.stops)]
  | .circle style =>
      [("circle opacity", style.opacity.stops), ("circle radius", style.radius.stops)]
  | .line style => [("line width", style.width.stops)]
  | .raw _ _ _ => []

open Breakpoints in
theorem validate_eq_error_iff {style : VisualStyle} {e : StyleError} :
    style.validate = .error e ↔ FirstFaultOf style.checkedLists e := by
  have hone {list : String} {value : ZoomValue} :
      FirstFaultOf [(list, value.stops)] e ↔ value.validate list = .error e := by
    simp only [firstFaultOf_cons_iff, not_firstFaultOf_nil, and_false, or_false,
      ZoomValue.validate_eq_error_iff]
  have htwo {list : String} {value : ZoomValue} {rest : List (String × List Breakpoint)} :
      FirstFaultOf ((list, value.stops) :: rest) e ↔
        value.validate list = .error e ∨ value.validate list = .ok () ∧ FirstFaultOf rest e := by
    rw [firstFaultOf_cons_iff, ZoomValue.validate_eq_error_iff, ZoomValue.validate_eq_ok_iff]
  cases style with
  | fill style =>
      exact hone.symm
  | line style =>
      exact hone.symm
  | symbol style =>
      rw [checkedLists, htwo, hone, validate]
      cases style.textSize.validate "text size" <;> simp
  | circle style =>
      rw [checkedLists, htwo, hone, validate]
      cases style.opacity.validate "circle opacity" <;> simp
  | raw kind paint layout =>
      exact iff_of_false (fun h => by cases h) not_firstFaultOf_nil

end VisualStyle

/-! ## Forms -/

namespace StyleForm

/-- The breakpoints that count for a visual type, by the names under which they are reported.  A list
that is switched off counts as empty. -/
def countedLists (form : StyleForm) : VisualType → List (String × List Breakpoint)
  | .fill => [("fill opacity", if form.useFillZoomStyling then form.zoomLevels else [])]
  | .symbol =>
      [("text size", form.textZoomLevels),
       ("icon size", if form.useIconSizeZoomStyling then form.zoomLevels else [])]
  | .circle =>
      [("circle opacity", form.zoomLevels), ("circle radius", form.circleRadiusZoomLevels)]
  | .line => [("line width", form.lineWidthZoomLevels)]
  | _ => []

theorem checkedLists_narrow (form : StyleForm) (kind : VisualType) :
    (form.narrow kind).checkedLists = form.countedLists kind := by
  cases kind <;>
    simp [narrow, VisualStyle.checkedLists, countedLists, ZoomValue.stops_choose]

structure SameFill (form other : StyleForm) : Prop where
  color : form.fillColor = other.fillColor
  opacity : form.fillOpacity = other.fillOpacity
  outlineColor : form.fillOutlineColor = other.fillOutlineColor
  switch : form.useFillZoomStyling = other.useFillZoomStyling
  zoomLevels : form.useFillZoomStyling = true → form.zoomLevels = other.zoomLevels

structure SameSymbol (form other : StyleForm) : Prop where
  textColor : form.textColor = other.textColor
  textHaloColor : form.textHaloColor = other.textHaloColor
  textHaloWidth : form.textHaloWidth = other.textHaloWidth
  textField : form.textField = other.textField
  textSize : form.textSizeDefault = other.textSizeDefault
  textZoomLevels : form.textZoomLevels = other.textZoomLevels
  icon : form.iconImage = other.iconImage
  customIcon : form.customIconImage = other.customIconImage
  iconSize : form.iconSizeDefault = other.iconSizeDefault
  switch : form.useIconSizeZoomStyling = other.useIconSizeZoomStyling
  zoomLevels : form.useIconSizeZoomStyling = true → form.zoomLevels = other.zoomLevels

structure SameCircle (form other : StyleForm) : Prop where
  color : form.circleColor = other.circleColor
  opacity : form.circleOpacity = other.circleOpacity
  radius : form.circleRadius = other.circleRadius
  strokeColor : form.circleStrokeColor = other.circleStrokeColor
  strokeWidth : form.circleStrokeWidth = other.circleStrokeWidth
  zoomLevels : form.zoomLevels = other.zoomLevels
  radiusZoomLevels : form.circleRadiusZoomLevels = other.circleRadiusZoomLevels

structure SameLine (form other : StyleForm) : Prop where
  color : form.lineColor = other.lineColor
  width : form.lineWidth = other.lineWidth
  blur : form.lineBlur = other.lineBlur
  opacity : form.lineOpacity = other.lineOpacity
  zoomLevels : form.lineWidthZoomLevels = other.lineWidthZoomLevels

structure SameMaps (form other : StyleForm) : Prop where
  paint : form.paint = other.paint
  layout : form.layout = other.layout

/-- Two forms agree on the fields that belong to a visual type.  Breakpoints that can be switched off
belong to it only while they are switched on. -/
def AgreeOn (form other : StyleForm) : VisualType → Prop
  | .fill => SameFill form other
  | .symbol => SameSymbol form other
  | .circle => SameCircle form other
  | .line => SameLine form other
  | _ => SameMaps form other

/-- Where the breakpoints are switched off it does not matter what they are. -/
theorem choose_congr {enabled switch : Bool} {points others : List Breakpoint}
    {number value : Binary64} (hswitch : enabled = switch)
    (hpoints : enabled = true → points = others) (hnumber : number = value) :
    ZoomValue.choose enabled points number = .choose switch others value := by
  subst hswitch hnumber
  cases enabled with
  | false => rfl
  | true => rw [hpoints rfl]

/-- The fields of the visual type are all that is picked out of a form. -/
theorem narrow_congr {form other : StyleForm} {kind : VisualType} (h : form.AgreeOn other kind) :
    form.narrow kind = other.narrow kind := by
  cases kind with
  | fill =>
      have hsame : SameFill form other := h
      have hopacity := choose_congr hsame.switch hsame.zoomLevels hsame.opacity
      simp only [narrow, hsame.color, hsame.outlineColor, hopacity]
  | symbol =>
      have hsame : SameSymbol form other := h
      have hsize := choose_congr hsame.switch hsame.zoomLevels hsame.iconSize
      simp only [narrow, symbolText, symbolIcon, hsame.textColor, hsame.textHaloColor,
        hsame.textHaloWidth, hsame.textField, hsame.textSize, hsame.textZoomLevels, hsame.icon,
        hsame.customIcon, hsize]
  | circle =>
      have hsame : SameCircle form other := h
      simp only [narrow, hsame.color, hsame.opacity, hsame.radius, hsame.strokeColor,
        hsame.strokeWidth, hsame.zoomLevels, hsame.radiusZoomLevels]
  | line =>
      have hsame : SameLine form other := h
      simp only [narrow, hsame.color, hsame.width, hsame.blur, hsame.opacity, hsame.zoomLevels]
  | heatmap | fillExtrusion | raster | rasterParticle | hillshade | model | background | sky
  | slot | clip =>
      have hsame : SameMaps form other := h
      simp only [narrow, hsame.paint, hsame.layout]

/-- A form is refused with the first fault of the lists that count. -/
theorem compile_eq_error_iff {form : StyleForm} {kind : VisualType} {e : StyleError} :
    form.compile kind = .error e ↔ Breakpoints.FirstFaultOf (form.countedLists kind) e := by
  rw [← checkedLists_narrow, ← VisualStyle.validate_eq_error_iff, compile]
  cases (form.narrow kind).validate <;> simp

/-- A form compiles to what the fields of the layer's own visual type say, whatever the others hold.
The compilation fails exactly when a zoom in a list that counts is not finite or not between 0 and 22,
or a value in it is not finite, and the error is the first such fault.
-/
theorem compile_reads_own_fields (kind : VisualType) :
    (∀ form other : StyleForm, form.AgreeOn other kind →
      form.compile kind = other.compile kind) ∧
    (∀ form : StyleForm, (∃ e, form.compile kind = .error e) ↔
      ∃ list ∈ form.countedLists kind, ∃ point ∈ list.2,
        ¬ Breakpoint.ZoomWithin point.zoom ∨ point.value.isFinite = false) ∧
    ∀ (form : StyleForm) (e : StyleError),
      form.compile kind = .error e ↔ Breakpoints.FirstFaultOf (form.countedLists kind) e := by
  refine ⟨fun form other h => ?_, fun form => ?_, fun form e => compile_eq_error_iff⟩
  · rw [compile, compile, narrow_congr h]
  · simp only [compile_eq_error_iff, Breakpoints.exists_firstFaultOf_iff, Breakpoint.sound_iff,
      not_and_or, Bool.not_eq_true]

/-- A circle whose opacity has a breakpoint beyond the last zoom, with a value that is no number, and
whose radius begins there. -/
def sampleCircle : StyleForm :=
  { standard with
    zoomLevels := [⟨.ofNat 3, .ofNat 1⟩, ⟨.ofNat 23, ⟨0x7FF8000000000000⟩⟩]
    circleRadiusZoomLevels := [⟨.ofNat 23, .ofNat 1⟩] }

def sampleMixed : StyleForm :=
  { sampleCircle with
    fillOpacity := ⟨0x7FF8000000000000⟩
    useFillZoomStyling := true
    textZoomLevels := [⟨.ofNat 23, .ofNat 1⟩]
    lineWidthZoomLevels := [⟨.ofNat 23, .ofNat 1⟩] }

theorem sample_reads_own_fields :
    sampleCircle.AgreeOn sampleMixed .circle ∧
      sampleCircle.compile .circle = sampleMixed.compile .circle ∧
      sampleMixed.compile .circle = .error (.zoomOutOfRange "circle opacity" 1 (.ofNat 23)) := by
  obtain ⟨hsame, -, hfirst⟩ := compile_reads_own_fields .circle
  have hagree : sampleCircle.AgreeOn sampleMixed .circle := ⟨rfl, rfl, rfl, rfl, rfl, rfl, rfl⟩
  have hsound : (⟨.ofNat 3, .ofNat 1⟩ : Breakpoint).Sound := ⟨by decide +kernel, by decide +kernel⟩
  have hbeyond : ¬ Breakpoint.ZoomWithin (.ofNat 23) := fun h => absurd h.most (by decide +kernel)
  refine ⟨hagree, hsame _ _ hagree, (hfirst _ _).2 ⟨[], _, _, rfl, by simp, ?_⟩⟩
  exact ⟨[⟨.ofNat 3, .ofNat 1⟩], ⟨.ofNat 23, ⟨0x7FF8000000000000⟩⟩, [], rfl,
    List.forall_mem_singleton.2 hsound, .zoom hbeyond⟩

end StyleForm

end MapCatalog
