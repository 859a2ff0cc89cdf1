import MapCatalog.Proofs.Editor.Submitted

/-! # Layers in step with their forms -/

namespace MapCatalog

/-- The two maps have the keys of a visual type, in order. -/
structure CompiledStyle.HasKeys (style : CompiledStyle) (kind : VisualType) : Prop where
  paint : style.paint.map Prod.fst = kind.paintKeys
  layout : style.layout.map Prod.fst = kind.layoutKeys

theorem StyleForm.hasKeys_of_compile {form : StyleForm} {kind : VisualType} {style : CompiledStyle}
    (hkind : kind.isCompiled = true) (h : form.compile kind = .ok style) : style.HasKeys kind := by
  obtain ⟨-, rfl⟩ := (form.compile_eq_ok_iff kind style).1 h
  obtain ⟨hnarrow, htype⟩ := form.isNarrow_narrow kind
  have hkeys := VisualStyle.keys_compile (hnarrow.trans hkind)
  rw [htype] at hkeys
  exact ⟨hkeys.1, hkeys.2⟩

/-- What a form has to be for its maps to be found in the texts in which they are stored: the maps that were
submitted nest no deeper than a reader goes, and every number that is printed is read as itself. -/
structure LayerForm.Legible (form : LayerForm) : Prop where
  paint_shallow : (Json.object form.style.paint).nesting ≤ Json.maxDepth
  layout_shallow : (Json.object form.style.layout).nesting ≤ Json.maxDepth
  floats : ∀ style, form.style.compile form.visualType = .ok style →
    (Json.object style.paint).Every Json.Number.FloatReadsBack ∧
      (Json.object style.layout).Every Json.Number.FloatReadsBack

theorem LayerForm.Legible.compiled {form : LayerForm} (h : form.Legible) {style : CompiledStyle}
    (hstyle : form.style.compile form.visualType = .ok style) :
    Json.Legible style.paint ∧ Json.Legible style.layout := by
  obtain ⟨hpaint, hlayout⟩ := h.floats style hstyle
  cases hkind : form.visualType.isCompiled with
  | false =>
      rw [StyleForm.compile_of_not_compiled form.style hkind] at hstyle
      cases hstyle
      exact ⟨⟨h.paint_shallow, hpaint⟩, ⟨h.layout_shallow, hlayout⟩⟩
  | true =>
      have hthree : 3 ≤ Json.maxDepth := by decide
      obtain ⟨hpaintNesting, hlayoutNesting⟩ := StyleForm.nesting_of_compile hkind hstyle
      exact ⟨⟨hpaintNesting.trans hthree, hpaint⟩, ⟨hlayoutNesting.trans hthree, hlayout⟩⟩

namespace LayerFields

/-- A property map is read from its text, and printing it gives that text. -/
structure Prints (l : LayerFields) (which : StyleMap) (members : Json.Members) : Prop where
  map : l.map which = .ok members
  text : (Json.object members).compact = l.mapText which

/-- The source of a layer and its property maps are those of its other fields. -/
structure Consistent (l : LayerFields) : Prop where
  source : l.source = .resolve l.sourceType l.sourceUrl
  maps : ∃ style : CompiledStyle, l.Prints .paint style.paint ∧ l.Prints .layout style.layout ∧
    (l.visualType.isCompiled = true → style.HasKeys l.visualType ∧
      ∀ form emitted, StyleForm.compile form l.visualType = .ok emitted →
        style.paint.map Prod.fst = emitted.paint.map Prod.fst ∧
          style.layout.map Prod.fst = emitted.layout.map Prod.fst)

theorem prints_of_compact {l : LayerFields} {which : StyleMap} {members : Json.Members}
    (hmap : Json.IsMap members) (hlegible : Json.Legible members)
    (htext : l.mapText which = (Json.object members).compact) : l.Prints which members := by
  refine ⟨?_, htext.symm⟩
  rw [map, htext, storedMap, StyleForm.solid_compact, if_neg Bool.false_ne_true,
    hmap.parse?_compact hlegible]

theorem consistent_of_toFields {form : LayerForm} {fields : LayerFields}
    (hstyle : form.style.HoldsMaps) (hlegible : form.Legible) (h : form.toFields = .ok fields) :
    fields.Consistent := by
  unfold LayerForm.toFields at h
  split at h
  case h_1 => cases h
  case h_2 style hcompile =>
    cases h
    obtain ⟨hpaintMap, hlayoutMap⟩ := StyleForm.isMap_of_compile hstyle hcompile
    obtain ⟨hpaint, hlayout⟩ := hlegible.compiled hcompile
    refine ⟨by dsimp only, style, prints_of_compact hpaintMap hpaint rfl,
      prints_of_compact hlayoutMap hlayout rfl, ?_⟩
    intro hkind
    have hkeys := StyleForm.hasKeys_of_compile hkind hcompile
    refine ⟨hkeys, ?_⟩
    intro other emitted hemitted
    have hother := StyleForm.hasKeys_of_compile hkind hemitted
    exact ⟨hkeys.paint.trans hother.paint.symm, hkeys.layout.trans hother.layout.symm⟩

end LayerFields

end MapCatalog
