import MapCatalog.Proofs.Editor.Storing
import MapCatalog.Proofs.Service.Returning

/-! # What a service stores

A layer gets into the catalogue by the two requests that submit a form, and by no other.  None of this depends on the
identifiers being new, since fields that were written stay written even where the catalogue has gone wrong.
-/

namespace MapCatalog

namespace Catalog

theorem left_map {α β : Type} (f : α → β) (work : Work α) (c : Catalog) :
    left ((f <$> work).run c) = left (work.run c) := by
  rw [Work.run_map]
  cases work.run c <;> rfl

namespace Stores

variable {S : SectionFields → Prop} {G : GroupFields → Prop} {L : LayerFields → Prop} {c : Catalog}

/-- A layer that is replaced in place is written, whether it is found again or not. -/
theorem left_replaceLayer (h : Stores S G L c) (id : LayerId) {fields : LayerFields}
    (hfields : L fields) : Stores S G L (left ((Work.replaceLayer id fields).run c)) := by
  have hwritten : Stores S G L (c.withFields id fields) := by
    refine ⟨h.sections, h.groups, h.layers.modify ?_ id⟩
    exact fun _ _ => hfields
  simp only [Work.replaceLayer, Work.run_bind, Work.run_check, Work.run_need, Work.run_onLayers]
  cases fields.validate with
  | error e =>
      exact h
  | ok _ =>
      dsimp only
      cases c.layers.get? id with
      | none =>
          exact h
      | some entry =>
          dsimp only
          split <;> exact hwritten

/-- An operation in place stores no fields but those that it brings along. -/
theorem left_work (h : Stores S G L c) {operation : Operation}
    (hbrings : operation.Brings S G L) : Stores S G L (left (operation.work.run c)) := by
  have hsettled : operation.work.run c = (c.perform operation).settle c →
      Stores S G L (left (operation.work.run c)) := by
    intro hwork
    have hafter := h.after hbrings
    rw [hwork]
    unfold Catalog.after at hafter
    cases hperform : c.perform operation with
    | error e =>
        exact h
    | ok result =>
        rw [hperform] at hafter
        exact hafter
  cases operation with
  | replaceLayer id fields =>
      rw [Operation.work, left_map]
      exact h.left_replaceLayer id hbrings
  | _ =>
      exact hsettled (run_work_of_replaces fun _ _ hreplaces => by cases hreplaces)

end Stores

end Catalog

namespace Service

/-- A request submits a form: it creates or replaces a layer, and the form is in its body. -/
inductive Submits (request : Request) (form : LayerForm) : Prop where
  | create (hroute : Route.parse request.method request.path = .ok (.create .layers))
      (hbody : needBody LayerForm.decode request = .ok form)
  | replace {id : LayerId}
      (hroute : Route.parse request.method request.path = .ok (.replace .layers id))
      (hbody : needBody LayerForm.decode request = .ok form)

/-- Whatever a request asks for brings along layers in step with the form that it submits. -/
theorem Asks.brings_consistent {request : Request} {fresh : BitVec 128} {route : Route}
    {operation : Operation} (h : Asks request fresh route operation)
    (hroute : Route.parse request.method request.path = .ok route) (hbody : InRangeBody request)
    (hforms : ∀ form, Submits request form → form.Legible) :
    operation.Brings (fun _ => True) (fun _ => True) LayerFields.Consistent := by
  have hmaps {form : LayerForm} (hform : needBody LayerForm.decode request = .ok form) :
      form.style.HoldsMaps :=
    holds_of_known LayerForm.yields_holdsMaps (fun body hsome => (hbody body hsome).normalize) hform
  cases h with
  | createLayer hform hgroup hfields =>
      exact LayerFields.consistent_of_toFields (hmaps hform) (hforms _ (.create hroute hform)) hfields
  | replaceLayer id hform hfields =>
      exact LayerFields.consistent_of_toFields (hmaps hform) (hforms _ (.replace hroute hform)) hfields
  | createSection | createGroup | replaceSection | replaceGroup | move =>
      trivial
  | delete tier id =>
      cases tier <;> trivial

def StoresConsistent (service : Service) : Prop :=
  Catalog.Stores (fun _ => True) (fun _ => True) LayerFields.Consistent service.catalog

theorem StoresConsistent.step {service : Service} (h : service.StoresConsistent) {visit : Visit}
    (hbody : InRangeBody visit.request)
    (hforms : ∀ form, Submits visit.request form → form.Legible) :
    (service.step visit).after.StoresConsistent := by
  rw [StoresConsistent, catalog_step_in_place]
  cases hoperation : service.operation? visit with
  | none =>
      exact h
  | some operation =>
      obtain ⟨route, hroute, hasks⟩ := exists_route_of_operation? hoperation
      exact Catalog.Stores.left_work h (hasks.brings_consistent hroute hbody hforms)

/-- At every service that requests make of an empty one, each layer has the source of its type and location,
texts that are read as maps and printed as they were, and, when its type is compiled, the keys that the
compiler gives to that type. -/
theorem stored_layers_consistent {start : Service} (hempty : start.catalog = .empty)
    {visits : List Visit} (hbodies : ∀ visit ∈ visits, InRangeBody visit.request)
    (hforms : ∀ visit ∈ visits, ∀ form, Submits visit.request form → form.Legible) :
    ∀ id entry, (start.after visits).catalog.layers.get? id = some entry →
      entry.fields.Consistent := by
  have hstart : start.StoresConsistent := by
    rw [StoresConsistent, hempty]
    exact .of_empty
  suffices hend : (start.after visits).StoresConsistent from hend.layers
  clear hempty
  induction visits generalizing start with
  | nil =>
      exact hstart
  | cons visit rest ih =>
      obtain ⟨hbody, hbodies⟩ := List.forall_mem_cons.1 hbodies
      obtain ⟨hform, hforms⟩ := List.forall_mem_cons.1 hforms
      exact ih hbodies hforms (hstart.step hbody hform)

/-! ## A sample -/

/-- The layer of the sample, which was stored with its maps as they were, becomes an area with an opacity. -/
def sampleRestyling : Visit :=
  ⟨{ (sampleVisit "ann" .put sampleLayer.id.path 4).request with
      body := some (.object [("name", .text "Rain"), ("type", .text "fill"),
        ("sourceType", .text " GeoJSON "), ("fillOpacity", .ofNat 1)]) }, .ofSeconds 4, 0⟩

def sampleRestyled : List Visit :=
  [sampleBase, sampleWeather, sampleRaining] ++ [sampleRestyling]

def sampleRainForm : LayerForm :=
  { (default : LayerForm) with
    groupId := some ⟨8⟩
    name := "Rain"
    visualType := .raster
    style := { StyleForm.standard with paint := [("raster-opacity", .ofNat 1)] } }

def sampleAreaForm : LayerForm :=
  { (default : LayerForm) with
    name := "Rain"
    visualType := .fill
    sourceType := " GeoJSON "
    style := { StyleForm.standard with fillOpacity := .ofNat 1 } }

theorem legible_sampleForms : sampleRainForm.Legible ∧ sampleAreaForm.Legible := by
  have hrain : sampleRainForm.style.compile .raster = .ok ⟨[("raster-opacity", .ofNat 1)], []⟩ := by
    decide +kernel
  have harea : sampleAreaForm.style.compile .fill =
      .ok ⟨[("fill-color", .text "#e3ed58"), ("fill-opacity", .number (.float (.ofNat 1))),
        ("fill-outline-color", .text "#FF0000")], []⟩ := by
    decide +kernel
  have hone : (Json.Number.float (.ofNat 1)).ReadsBack := by decide +kernel
  refine ⟨⟨by decide, by decide, ?_⟩, ⟨by decide, by decide, ?_⟩⟩
  · intro style hstyle
    cases hrain.symm.trans hstyle
    simp [Json.every_object_iff, Json.ofNat, Json.Number.FloatReadsBack]
  · intro style hstyle
    cases harea.symm.trans hstyle
    simp [Json.every_object_iff, Json.Number.FloatReadsBack, hone]

def sampleArea : LayerFields :=
  { (default : LayerFields) with
    name := "Rain"
    visualType := .fill
    sourceType := " GeoJSON "
    source := .inline "geojson" ""
    paint := "\x7b\"fill-color\":\"#e3ed58\",\"fill-opacity\":1.0,\"fill-outline-color\":\"#FF0000\"\x7d"
    layout := LayerFields.emptyMap }

theorem legible_of_needBody {request : Request} {form : LayerForm}
    (hbody : needBody LayerForm.decode request = .ok form) (h : form.Legible) :
    ∀ other, Submits request other → other.Legible := by
  rintro other (⟨-, hother⟩ | ⟨-, hother⟩) <;>
    cases hbody.symm.trans hother <;> exact h

theorem not_submits_of_needBody {request : Request} {e : ServiceError}
    (hbody : needBody LayerForm.decode request = .error e) (form : LayerForm) :
    ¬ Submits request form := by
  rintro (⟨-, hform⟩ | ⟨-, hform⟩) <;> cases hbody.symm.trans hform

theorem layer_sampleRestyled :
    (sampleNew.after sampleRestyled).catalog.layers.get? ⟨9⟩ = some ⟨⟨8⟩, sampleArea⟩ := by
  have hroute : Route.parse sampleRestyling.request.method sampleRestyling.request.path =
      .ok (.replace .layers ⟨9⟩) :=
    Route.parse_put_of_get route_sampleReading
  have haccepted : sampleFiled.guard.verdict sampleRestyling = .ok "ann" := by
    rw [guard_sampleFiled]
    exact legible_ann.accepted rfl .put sampleLayer.id.path 4 (by decide) (unrevoked_sample "ann" _)
  have hasked : asked? .empty sampleRestyling.request sampleRestyling.fresh (.replace .layers ⟨9⟩) =
      some (.replaceLayer ⟨9⟩ sampleArea) := by
    decide +kernel
  have hoperation : sampleFiled.operation? sampleRestyling =
      some (.replaceLayer ⟨9⟩ sampleArea) := by
    rw [operation?_of_accepted hroute haccepted, asked?_congr _ Catalog.empty, hasked]
  have hend : sampleNew.after sampleRestyled = (sampleFiled.step sampleRestyling).after := by
    rw [sampleRestyled, after_append, after_single, sampleFiled]
  have hreplaced := Catalog.replaceLayer_of_layer? layer?_sampleFiled
    (show sampleArea.validate = .ok () by decide +kernel)
  have hperform : sampleFiled.catalog.perform (.replaceLayer ⟨9⟩ sampleArea) =
      .ok (.aLayer { sampleLayer with fields := sampleArea },
        sampleFiled.catalog.withLayerFields ⟨9⟩ sampleArea) := by
    rw [Catalog.perform, hreplaced, Catalog.Edit.as]
  have hcatalog : (sampleNew.after sampleRestyled).catalog =
      sampleFiled.catalog.withLayerFields ⟨9⟩ sampleArea := by
    rw [hend, catalog_step _ reached_sampleFiled.sound.wellFormed, hoperation, Option.toList_some,
      Catalog.run, List.foldl_cons, List.foldl_nil]
    exact Catalog.after_of_ok hperform
  obtain ⟨entry, group, position, hentry, -, -, hsame⟩ := Catalog.layer?_eq_some_iff.1 layer?_sampleFiled
  have hgroup : entry.group = ⟨8⟩ := (congrArg LayerRecord.groupId hsame).symm
  rw [hcatalog, Catalog.withLayerFields, Table.get?_modify, if_pos rfl, hentry, Option.map_some,
    hgroup]

theorem sample_stored_layers_consistent :
    (sampleNew.after sampleRestyled).catalog.layers.get? ⟨9⟩ = some ⟨⟨8⟩, sampleArea⟩ ∧
      sampleArea.Consistent := by
  refine ⟨layer_sampleRestyled, ?_⟩
  have hempty : sampleNew.catalog = .empty := rfl
  refine stored_layers_consistent hempty ?_ ?_ _ _ layer_sampleRestyled
  · simp only [sampleRestyled, List.cons_append, List.nil_append, List.forall_mem_cons]
    refine ⟨?_, ?_, ?_, ?_, by simp⟩ <;> rintro body ⟨⟩ <;>
      simp [Json.every_object_iff, Id.toJson, Json.ofNat, Json.Number.InRange]
  · have hbase : needBody LayerForm.decode sampleBase.request =
        .error (.badBody (.undecodable (.missingField "type"))) := by
      decide +kernel
    have hweather : needBody LayerForm.decode sampleWeather.request =
        .error (.badBody (.undecodable (.missingField "type"))) := by
      decide +kernel
    have hraining : needBody LayerForm.decode sampleRaining.request = .ok sampleRainForm := by
      decide +kernel
    have hrestyling : needBody LayerForm.decode sampleRestyling.request = .ok sampleAreaForm := by
      decide +kernel
    simp only [sampleRestyled, List.cons_append, List.nil_append, List.forall_mem_cons]
    exact ⟨fun form h => absurd h (not_submits_of_needBody hbase form),
      fun form h => absurd h (not_submits_of_needBody hweather form),
      legible_of_needBody hraining legible_sampleForms.1,
      legible_of_needBody hrestyling legible_sampleForms.2, by simp⟩

end Service

end MapCatalog
