import MapCatalog.Proofs.Style.Interpolation
import MapCatalog.Style.Compile

/-! # What a style compiles to -/

namespace MapCatalog

/-! ## Documents without null -/

namespace Json

mutual

def nullFree : Json → Bool
  | .null => false
  | .bool _ | .number _ | .text _ => true
  | .array items => nullFreeItems items
  | .object members => nullFreeMembers members

def nullFreeItems : List Json → Bool
  | [] => true
  | item :: rest => nullFree item && nullFreeItems rest

def nullFreeMembers : List (String × Json) → Bool
  | [] => true
  | (_, value) :: rest => nullFree value && nullFreeMembers rest

end

theorem nullFreeItems_iff (items : List Json) :
    nullFreeItems items = true ↔ ∀ item ∈ items, item.nullFree = true := by
  induction items with
  | nil =>
      simp [nullFreeItems]
  | cons item rest ih =>
      simp [nullFreeItems, ih]

theorem nullFree_ofFloat {x : Binary64} (h : x.isFinite = true) : (ofFloat x).nullFree = true := by
  rw [ofFloat, if_pos h, nullFree]

end Json

/-- An interpolation through sound breakpoints is written without null. -/
theorem Interpolation.SoundThrough.nullFree {points stops : List Breakpoint} {items : List Json}
    (h : SoundThrough points stops items) : (Json.array items).nullFree = true := by
  have hstops : ∀ item ∈ stops.flatMap fun stop => [Json.ofFloat stop.zoom, .ofFloat stop.value],
      item.nullFree = true := by
    intro item hitem
    obtain ⟨stop, hstop, hitem⟩ := List.mem_flatMap.1 hitem
    have hsound := h.stops_sound stop hstop
    rcases List.mem_pair.1 hitem with rfl | rfl
    · exact Json.nullFree_ofFloat (Breakpoint.finite_of_zoomInRange hsound.zoom)
    · exact Json.nullFree_ofFloat hsound.value
  rw [h.items_eq]
  simp [Json.nullFree, Json.nullFreeItems, (Json.nullFreeItems_iff _).2 hstops]

theorem ZoomValue.nullFree_toJson {value : ZoomValue} (hnumber : value.number.isFinite = true)
    (hstops : ∀ stop ∈ value.stops, stop.Sound) : value.toJson.nullFree = true := by
  have hwritten := value.written_toJson
  by_cases h : value.stops = []
  · rw [hwritten.number h]
    exact Json.nullFree_ofFloat hnumber
  · obtain ⟨stops, items, hitems, hthrough⟩ := hwritten.through h
    rw [hitems]
    exact (hthrough.sound hstops).nullFree

/-! ## Keys -/

namespace VisualType

def paintKeys : VisualType → List String
  | .fill => ["fill-color", "fill-opacity", "fill-outline-color"]
  | .symbol => ["text-color", "text-halo-color", "text-halo-width"]
  | .circle =>
      ["circle-color", "circle-opacity", "circle-radius", "circle-stroke-color",
       "circle-stroke-width"]
  | .line => ["line-blur", "line-color", "line-opacity", "line-width"]
  | _ => []

def layoutKeys : VisualType → List String
  | .symbol => ["icon-image", "icon-size", "text-field", "text-font", "text-size", "visibility"]
  | _ => []

end VisualType

/-! ## Styles that nobody has checked -/

namespace VisualStyle

def isNarrow : VisualStyle → Bool
  | .raw _ _ _ => false
  | .fill _ | .symbol _ | .circle _ | .line _ => true

def zoomValues : VisualStyle → List (String × ZoomValue)
  | .fill style => [("fill-opacity", style.opacity)]
  | .symbol style => [("text-size", style.textSize), ("icon-size", style.iconSize)]
  | .circle style => [("circle-opacity", style.opacity), ("circle-radius", style.radius)]
  | .line style => [("line-width", style.width)]
  | .raw _ _ _ => []

def fixedNumbers : VisualStyle → List Binary64
  | .fill _ | .raw _ _ _ => []
  | .symbol style => [style.textHaloWidth]
  | .circle style => [style.strokeWidth]
  | .line style => [style.blur, style.opacity]

theorem keys_compile {style : VisualStyle} (h : style.isNarrow = true) :
    style.compile.paint.map Prod.fst = style.visualType.paintKeys ∧
    style.compile.layout.map Prod.fst = style.visualType.layoutKeys := by
  cases style with
  | raw kind paint layout =>
      cases h
  | fill style | symbol style | circle style | line style =>
      exact ⟨rfl, rfl⟩

theorem member?_compile (style : VisualStyle) :
    ∀ entry ∈ style.zoomValues,
      Json.member? (style.compile.paint ++ style.compile.layout) entry.1 =
        some entry.2.toJson := by
  cases style with
  | fill style | symbol style | circle style | line style =>
      simp [zoomValues, compile, Json.member?]
  | raw kind paint layout =>
      simp [zoomValues]

/-- A style is accepted when the breakpoints that count in it are sound. -/
theorem sound_of_validate {style : VisualStyle} (h : style.validate = .ok ()) :
    ∀ entry ∈ style.zoomValues, ∀ point ∈ entry.2.stops, point.Sound := by
  cases style with
  | fill style | line style =>
      simpa [zoomValues] using (ZoomValue.validate_eq_ok_iff _ _).1 h
  | symbol style =>
      rw [validate] at h
      split at h
      next =>
        cases h
      next hsize =>
        simpa [zoomValues] using
          ⟨(ZoomValue.validate_eq_ok_iff _ _).1 hsize, (ZoomValue.validate_eq_ok_iff _ _).1 h⟩
  | circle style =>
      rw [validate] at h
      split at h
      next =>
        cases h
      next hopacity =>
        simpa [zoomValues] using
          ⟨(ZoomValue.validate_eq_ok_iff _ _).1 hopacity, (ZoomValue.validate_eq_ok_iff _ _).1 h⟩
  | raw kind paint layout =>
      simp [zoomValues]

theorem validate_of_sound {style : VisualStyle}
    (h : ∀ entry ∈ style.zoomValues, ∀ point ∈ entry.2.stops, point.Sound) :
    style.validate = .ok () := by
  cases style with
  | raw kind paint layout =>
      rfl
  | fill style | line style =>
      exact (ZoomValue.validate_eq_ok_iff _ _).2 (h _ List.mem_cons_self)
  | symbol style =>
      have hsize := h _ List.mem_cons_self
      have hicon := h _ (List.mem_cons_of_mem _ List.mem_cons_self)
      rw [validate, (ZoomValue.validate_eq_ok_iff _ _).2 hsize]
      exact (ZoomValue.validate_eq_ok_iff _ _).2 hicon
  | circle style =>
      have hopacity := h _ List.mem_cons_self
      have hradius := h _ (List.mem_cons_of_mem _ List.mem_cons_self)
      rw [validate, (ZoomValue.validate_eq_ok_iff _ _).2 hopacity]
      exact (ZoomValue.validate_eq_ok_iff _ _).2 hradius

theorem nullFree_compile {style : VisualStyle} (hnarrow : style.isNarrow = true)
    (hfixed : ∀ x ∈ style.fixedNumbers, x.isFinite = true)
    (hzoom : ∀ entry ∈ style.zoomValues, entry.2.toJson.nullFree = true) :
    ∀ entry ∈ style.compile.paint ++ style.compile.layout, entry.2.nullFree = true := by
  cases style with
  | raw kind paint layout =>
      cases hnarrow
  | fill style | symbol style | circle style | line style =>
      simp_all [zoomValues, fixedNumbers, compile, Json.nullFree, Json.nullFreeItems,
        Json.nullFree_ofFloat]

end VisualStyle

/-! ## Forms -/

structure ZoomProperty where
  key : String
  /-- Whether its breakpoints are switched on. -/
  enabled : StyleForm → Bool
  points : StyleForm → List Breakpoint
  number : StyleForm → Binary64

namespace ZoomProperty

def Driven (property : ZoomProperty) (form : StyleForm) : Prop :=
  property.enabled form = true ∧ property.points form ≠ []

/-- What is written for a property: the interpolation through its breakpoints, or its number. -/
structure Written (property : ZoomProperty) (form : StyleForm) (document : Json) : Prop where
  interpolation : document.IsInterpolation ↔ property.Driven form
  through : property.Driven form → ∃ stops items, document = .array items ∧
    Interpolation.SoundThrough (property.points form) stops items
  number : ¬ property.Driven form → document = .number (.float (property.number form))

def value (property : ZoomProperty) (form : StyleForm) : ZoomValue :=
  .choose (property.enabled form) (property.points form) (property.number form)

theorem stops_value (property : ZoomProperty) (form : StyleForm) :
    (property.value form).stops =
      if property.enabled form then property.points form else [] :=
  ZoomValue.stops_choose _ _ _

theorem driven_iff (property : ZoomProperty) (form : StyleForm) :
    property.Driven form ↔ (property.value form).stops ≠ [] := by
  rw [stops_value, Driven]
  cases property.enabled form <;> simp

theorem written_of_sound {property : ZoomProperty} {form : StyleForm}
    (hnumber : (property.number form).isFinite = true)
    (hsound : ∀ point ∈ (property.value form).stops, point.Sound) :
    property.Written form (property.value form).toJson := by
  have hwritten := (property.value form).written_toJson
  refine ⟨hwritten.interpolation.trans (property.driven_iff form).symm, fun hdriven => ?_,
    fun hnot => ?_⟩
  · obtain ⟨stops, items, hitems, hthrough⟩ :=
      hwritten.through ((property.driven_iff form).1 hdriven)
    have hpoints : (property.value form).stops = property.points form := by
      rw [stops_value, if_pos hdriven.1]
    rw [hpoints] at hthrough hsound
    exact ⟨stops, items, hitems, hthrough.sound hsound⟩
  · have hstops : (property.value form).stops = [] :=
      not_not.1 fun h => hnot ((property.driven_iff form).2 h)
    have hvalue : (property.value form).number = property.number form :=
      ZoomValue.number_choose _ _ _
    rw [hwritten.number hstops, hvalue, Json.ofFloat, if_pos hnumber]

end ZoomProperty

def VisualType.zoomProperties : VisualType → List ZoomProperty
  | .fill =>
      [⟨"fill-opacity", StyleForm.useFillZoomStyling, StyleForm.zoomLevels,
        StyleForm.fillOpacity⟩]
  | .symbol =>
      [⟨"text-size", fun _ => true, StyleForm.textZoomLevels, StyleForm.textSizeDefault⟩,
       ⟨"icon-size", StyleForm.useIconSizeZoomStyling, StyleForm.zoomLevels,
        StyleForm.iconSizeDefault⟩]
  | .circle =>
      [⟨"circle-opacity", fun _ => true, StyleForm.zoomLevels, StyleForm.circleOpacity⟩,
       ⟨"circle-radius", fun _ => true, StyleForm.circleRadiusZoomLevels,
        StyleForm.circleRadius⟩]
  | .line =>
      [⟨"line-width", fun _ => true, StyleForm.lineWidthZoomLevels, StyleForm.lineWidth⟩]
  | _ => []

namespace StyleForm

def numbers (form : StyleForm) : List Binary64 :=
  [form.fillOpacity, form.textHaloWidth, form.textSizeDefault, form.iconSizeDefault,
   form.circleOpacity, form.circleRadius, form.circleStrokeWidth, form.lineWidth, form.lineBlur,
   form.lineOpacity]

/-- The numbers outside the breakpoints are finite; the breakpoints that count are checked anyway. -/
def Finite (form : StyleForm) : Prop :=
  ∀ x ∈ form.numbers, x.isFinite = true

instance (form : StyleForm) : Decidable form.Finite :=
  inferInstanceAs (Decidable (∀ x ∈ form.numbers, x.isFinite = true))

theorem isNarrow_narrow (form : StyleForm) (kind : VisualType) :
    (form.narrow kind).isNarrow = kind.isCompiled ∧ (form.narrow kind).visualType = kind := by
  cases kind <;> exact ⟨rfl, rfl⟩

theorem zoomValues_narrow (form : StyleForm) (kind : VisualType) :
    (form.narrow kind).zoomValues =
      kind.zoomProperties.map fun property => (property.key, property.value form) := by
  cases kind <;> rfl

theorem fixedNumbers_subset (form : StyleForm) (kind : VisualType) :
    (form.narrow kind).fixedNumbers ⊆ form.numbers := by
  cases kind <;> simp [narrow, VisualStyle.fixedNumbers, numbers]

theorem number_mem_numbers (form : StyleForm) {kind : VisualType} {property : ZoomProperty}
    (h : property ∈ kind.zoomProperties) : property.number form ∈ form.numbers := by
  have hsubset : kind.zoomProperties.map (fun property => property.number form) ⊆
      form.numbers := by
    cases kind <;> simp [VisualType.zoomProperties, numbers]
  exact hsubset (List.mem_map_of_mem h)

theorem compile_eq_ok_iff (form : StyleForm) (kind : VisualType) (style : CompiledStyle) :
    form.compile kind = .ok style ↔
      (form.narrow kind).validate = .ok () ∧ style = (form.narrow kind).compile := by
  unfold compile
  cases (form.narrow kind).validate with
  | error e =>
      simp
  | ok valid =>
      simp [eq_comm]

/-- Breakpoints that are switched on for a property of the visual type have to be sound. -/
theorem validate_narrow_iff (form : StyleForm) (kind : VisualType) :
    (form.narrow kind).validate = .ok () ↔
      ∀ property ∈ kind.zoomProperties, property.enabled form = true →
        ∀ point ∈ property.points form, point.Sound := by
  have hstops : (∀ entry ∈ (form.narrow kind).zoomValues, ∀ point ∈ entry.2.stops, point.Sound) ↔
      ∀ property ∈ kind.zoomProperties, property.enabled form = true →
        ∀ point ∈ property.points form, point.Sound := by
    rw [form.zoomValues_narrow kind, List.forall_mem_map]
    refine forall₂_congr fun property _ => ?_
    rw [ZoomProperty.stops_value]
    cases property.enabled form <;> simp
  rw [← hstops]
  exact ⟨VisualStyle.sound_of_validate, VisualStyle.validate_of_sound⟩

end StyleForm

/-! ## The compiled style -/

structure StyleForm.CompilesTo (form : StyleForm) (kind : VisualType) (style : CompiledStyle) :
    Prop where
  paint_keys : style.paint.map Prod.fst = kind.paintKeys
  layout_keys : style.layout.map Prod.fst = kind.layoutKeys
  nullFree : ∀ entry ∈ style.paint ++ style.layout, entry.2.nullFree = true
  zoomDriven : ∀ property ∈ kind.zoomProperties, ∃ document,
    Json.member? (style.paint ++ style.layout) property.key = some document ∧
      property.Written form document

/-- What a style emits that nobody has checked. -/
structure VisualStyle.Emits (style : VisualStyle) : Prop where
  keys : style.isNarrow = true →
    style.compile.paint.map Prod.fst = style.visualType.paintKeys ∧
      style.compile.layout.map Prod.fst = style.visualType.layoutKeys
  zoomDriven : ∀ entry ∈ style.zoomValues, ∃ document,
    Json.member? (style.compile.paint ++ style.compile.layout) entry.1 = some document ∧
      entry.2.Written document

theorem StyleForm.compilesTo_of_ok {form : StyleForm} {kind : VisualType} {style : CompiledStyle}
    (hkind : kind.isCompiled = true) (hfinite : form.Finite)
    (hok : form.compile kind = .ok style) : form.CompilesTo kind style := by
  obtain ⟨hvalid, rfl⟩ := (form.compile_eq_ok_iff kind style).1 hok
  obtain ⟨hnarrow, hvisual⟩ := form.isNarrow_narrow kind
  have hsound := VisualStyle.sound_of_validate hvalid
  have hmember := (form.narrow kind).member?_compile
  rw [form.zoomValues_narrow kind, List.forall_mem_map] at hsound hmember
  have hnumber : ∀ property ∈ kind.zoomProperties,
      (property.value form).number.isFinite = true := by
    intro property hproperty
    have hvalue : (property.value form).number = property.number form :=
      ZoomValue.number_choose _ _ _
    rw [hvalue]
    exact hfinite _ (form.number_mem_numbers hproperty)
  have hkeys := VisualStyle.keys_compile (hnarrow.trans hkind)
  rw [hvisual] at hkeys
  refine ⟨hkeys.1, hkeys.2, ?_, fun property hproperty => ?_⟩
  · refine VisualStyle.nullFree_compile (hnarrow.trans hkind)
      (fun x hx => hfinite x (form.fixedNumbers_subset kind hx)) ?_
    rw [form.zoomValues_narrow kind, List.forall_mem_map]
    intro property hproperty
    exact ZoomValue.nullFree_toJson (hnumber property hproperty) (hsound property hproperty)
  · have hwritten := ZoomProperty.written_of_sound
      (hfinite _ (form.number_mem_numbers hproperty)) (hsound property hproperty)
    exact ⟨_, hmember property hproperty, hwritten⟩

/--
A form of a visual type with fields of its own compiles to the properties of that type; a form of any
other type compiles to its property maps; and a style that nobody has checked still has the keys of its
type and no interpolation without a stop.
-/
theorem StyleForm.compile_wellFormed :
    (∀ (form : StyleForm) (kind : VisualType) (style : CompiledStyle), kind.isCompiled = true →
      form.Finite → form.compile kind = .ok style → form.CompilesTo kind style) ∧
    (∀ (form : StyleForm) (kind : VisualType), kind.isCompiled = false →
      form.compile kind = .ok ⟨form.paint, form.layout⟩) ∧
    ∀ style : VisualStyle, style.Emits := by
  refine ⟨fun form kind style hkind hfinite hok => compilesTo_of_ok hkind hfinite hok, ?_, ?_⟩
  · intro form kind hkind
    cases kind with
    | symbol | fill | line | circle => cases hkind
    | heatmap | fillExtrusion | raster | rasterParticle | hillshade | model | background | sky
    | slot | clip => rfl
  · intro style
    exact ⟨VisualStyle.keys_compile, fun entry hentry =>
      ⟨_, style.member?_compile entry hentry, entry.2.written_toJson⟩⟩

/-- The standard form of a symbol whose icon grows with the zoom, between breakpoints out of order. -/
def StyleForm.sampleIcon : StyleForm :=
  { standard with
    useIconSizeZoomStyling := true
    zoomLevels := Breakpoints.ofTenths [(12, 8), (6, 3), (12, 9)] }

theorem StyleForm.sample_compilesTo :
    ∃ style, sampleIcon.compile .symbol = .ok style ∧ sampleIcon.Finite ∧
      sampleIcon.CompilesTo .symbol style := by
  have hok : sampleIcon.compile .symbol = .ok (sampleIcon.narrow .symbol).compile := by
    decide +kernel
  have hfinite : sampleIcon.Finite := by
    decide +kernel
  exact ⟨_, hok, hfinite, compile_wellFormed.1 _ .symbol _ rfl hfinite hok⟩

end MapCatalog
