import MapCatalog.Proofs.Record.Finite
import MapCatalog.Proofs.Style.Maps

/-!
# Layers that were submitted

A layer is stored as its form was submitted: its camera is finite, its source is the one of the type and
the location that were entered, and its two texts are those of maps.
-/

namespace MapCatalog

theorem LayerForm.yields_holdsMaps :
    Decode.YieldsFrom (Reading.Every Json.Number.InRange) decode fun form => form.style.HoldsMaps := by
  intro origin reading form hreading h
  match reading with
  | .object entries =>
      obtain ⟨⟨found, aside⟩, hmembers, h⟩ := Decode.bind_eq_ok h
      obtain ⟨camera, -, h⟩ := Decode.bind_eq_ok h
      obtain ⟨style, hstyle, h⟩ := Decode.bind_eq_ok h
      cases h
      have haside := Decode.members_keeps (Decode.keeps_true _) trivial
        ((Reading.everyMembers_iff entries).1 hreading) hmembers
      exact StyleForm.holdsMaps_of_part haside.2 hstyle
  | .null | .bool _ | .number _ | .text _ | .array _ | .fault _ => cases h

namespace LayerFields

/-- The property maps whose texts a layer is stored with. -/
structure HasMaps (l : LayerFields) (paint layout : Json.Members) : Prop where
  paint_text : l.paint = (Json.object paint).compact
  layout_text : l.layout = (Json.object layout).compact
  paint_map : Json.IsMap paint
  layout_map : Json.IsMap layout

/-- What holds of a layer that was stored from a form. -/
structure Submitted (l : LayerFields) : Prop where
  camera : l.camera.Finite
  source : l.source = .resolve l.sourceType l.sourceUrl
  /-- Only the maps of a type that is not compiled may nest deep. -/
  maps : ∃ paint layout, l.HasMaps paint layout ∧
    (l.visualType.isCompiled = true →
      (Json.object paint).nesting ≤ 3 ∧ (Json.object layout).nesting ≤ 3)

theorem submitted_of_toFields {form : LayerForm} {fields : LayerFields}
    (hcamera : form.camera.Finite) (hstyle : form.style.HoldsMaps)
    (h : form.toFields = .ok fields) : fields.Submitted := by
  unfold LayerForm.toFields at h
  split at h
  case h_1 => cases h
  case h_2 style hcompile =>
    cases h
    have hmaps := StyleForm.isMap_of_compile hstyle hcompile
    have hshallow := fun hkind : form.visualType.isCompiled = true =>
      StyleForm.nesting_of_compile hkind hcompile
    refine ⟨hcamera, ?_, style.paint, style.layout, ⟨?_, ?_, hmaps.1, hmaps.2⟩, hshallow⟩ <;>
      simp only [CompiledStyle.paintText, CompiledStyle.layoutText]

end LayerFields

end MapCatalog
