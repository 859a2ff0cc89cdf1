import MapCatalog.Proofs.Catalog.Replacing
import MapCatalog.Proofs.Editor.Returning
import MapCatalog.Proofs.Service.Alike
import MapCatalog.Proofs.Service.Failures
import MapCatalog.Proofs.Service.Paths
import MapCatalog.Proofs.Service.Reached

/-! # Putting back what was read -/

namespace MapCatalog

/-! ## Routes -/

namespace Route

theorem read_of_atAddress {address : Address} {tier : Tier} {id : Id tier}
    (h : atAddress .get address = .ok (some (.read tier id))) :
    atAddress .put address = .ok (some (.replace tier id)) := by
  cases address with
  | collection other => cases other <;> cases h
  | record other text =>
      rw [atAddress] at h ⊢
      cases hid : Id.parse other text with
      | error e =>
          rw [hid] at h
          cases h
      | ok found =>
          rw [hid] at h
          cases h
          rfl
  | rearrange direction text => cases h
  | logout => cases h

theorem parse_put_of_get {path : String} {tier : Tier} {id : Id tier}
    (h : parse .get path = .ok (.read tier id)) : parse .put path = .ok (.replace tier id) := by
  unfold parse at h ⊢
  split at h
  case h_1 => cases h
  case h_2 address haddress =>
    split at h
    case h_1 => cases h
    case h_2 => cases h
    case h_3 route hroute =>
      cases h
      simp only [read_of_atAddress hroute]

end Route

namespace Service

/-! ## The two requests -/

/-- A request that reads, and one that puts the document that came back to the same address. -/
structure PutsBack (service : Service) (reading returning : Visit) : Prop where
  get : reading.request.method = .get
  put : returning.request.method = .put
  path : returning.request.path = reading.request.path
  body : ∃ key doc, (service.step reading).response.body = .object [(key, doc)] ∧
    returning.request.body = some doc
  accepted : ∃ subject, (service.step reading).after.guard.verdict returning = .ok subject

def exchange (service : Service) (reading returning : Visit) : Step :=
  (service.step reading).after.step returning

variable {service : Service} {reading returning : Visit}

theorem needBody_of_normalize {α : Type} {decode : Decoder α} {request : Request} {doc : Json}
    (hbody : request.body = some doc.normalize) {value : α}
    (h : Decode.ofJson decode doc = .ok value) : needBody decode request = .ok value := by
  exact needBody_eq_ok_iff.2 ⟨_, hbody, by rwa [Decode.ofJson_normalize]⟩

theorem response_of_read {tier : Tier} {id : Id tier}
    (hroute : Route.parse reading.request.method reading.request.path = .ok (.read tier id))
    {key : String} {doc : Json} (hread : readTier service.catalog tier id = .read key doc) :
    (service.step reading).response = .ok key doc := by
  rw [step, handle_of_open service _ _ _ hroute rfl, act, action, hread]
  rfl

theorem act_of_replacement {c next : Catalog} (hwell : Catalog.WellFormed c) {request : Request}
    {fresh : BitVec 128} {tier : Tier} {id : Id tier} {operation : Operation} {answer : Answer}
    (hreplacement : replacement request tier id = .ok operation)
    (hok : c.perform operation = .ok (answer, next)) :
    act c request fresh (.replace tier id) = (.ok (response operation answer), next) := by
  have hasked : asked? c request fresh (.replace tier id) = some operation := by
    simp [asked?, action, hreplacement, Except.map, Action.operation?]
  rw [act_of_asked hwell hasked, hok]

namespace PutsBack

variable (h : PutsBack service reading returning) {tier : Tier} {id : Id tier}
  (hroute : Route.parse .get reading.request.path = .ok (.read tier id))

include h

theorem after_reading : (service.step reading).after = service :=
  (service.handle_get h.get reading.request.authorization reading.now reading.fresh).1

include hroute

theorem body_eq {key : String} {doc : Json} (hread : readTier service.catalog tier id = .read key doc) :
    returning.request.body = some doc.normalize := by
  have hparsed : Route.parse reading.request.method reading.request.path = .ok (.read tier id) :=
    h.get ▸ hroute
  have hresponse := response_of_read hparsed hread
  obtain ⟨found, body, hbody, hreturned⟩ := h.body
  rw [hresponse] at hbody
  have hsame : (Json.object [(key, doc)]).normalize = .object [(found, body)] := hbody
  simp only [Json.normalize, Json.normalizeMembers, Json.insertIfAbsent, Json.object.injEq,
    List.cons.injEq, Prod.mk.injEq, and_true] at hsame
  rw [hreturned, hsame.2]

/-- What is put back is handled by the route that replaces the record. -/
theorem exchange_act :
    (service.exchange reading returning).response =
        respond (act service.catalog returning.request returning.fresh (.replace tier id)).1 ∧
      (service.exchange reading returning).after.catalog =
        (act service.catalog returning.request returning.fresh (.replace tier id)).2 := by
  have hparsed : Route.parse returning.request.method returning.request.path =
      .ok (.replace tier id) := by
    rw [h.put, h.path]
    exact Route.parse_put_of_get hroute
  obtain ⟨subject, haccepted⟩ := h.accepted
  rw [h.after_reading] at haccepted
  rw [exchange, h.after_reading, step, handle_of_accepted service _ _ _ hparsed rfl haccepted]
  exact ⟨rfl, rfl⟩

/-- A replacement whose operation succeeds is answered with the record that it yields. -/
theorem exchange_of_perform (hsound : Sound service) {operation : Operation} {answer : Answer}
    {next : Catalog} (hreplacement : replacement returning.request tier id = .ok operation)
    (hok : service.catalog.perform operation = .ok (answer, next)) :
    (service.exchange reading returning).response = response operation answer ∧
      (service.exchange reading returning).after.catalog = next := by
  obtain ⟨hresponse, hcatalog⟩ := h.exchange_act hroute
  rw [act_of_replacement hsound.wellFormed hreplacement hok] at hresponse hcatalog
  exact ⟨hresponse, hcatalog⟩

end PutsBack

/-! ## What is kept -/

/-- What was put back is confirmed, and nothing is changed. -/
structure Confirms (service : Service) (put : Step) (record : Json) : Prop where
  response : put.response = .ok "layer" record
  catalog : put.after.catalog = service.catalog

/-- A section that is put back, with the groups in it, is kept. -/
theorem PutsBack.section_kept (h : PutsBack service reading returning) (hsound : Sound service)
    {id : SectionId} {tree : SectionTree}
    (hroute : Route.parse .get reading.request.path = .ok (.read .sections id))
    (htree : service.catalog.sectionTree? Catalog.fullDepth id = some tree) :
    service.Confirms (service.exchange reading returning) tree.head.toJson := by
  have hbody : returning.request.body = some tree.toJson.normalize :=
    h.body_eq hroute (by rw [readTier, htree]; rfl)
  obtain ⟨entry, hentry, rfl⟩ := Option.map_eq_some_iff.1 htree
  have hfields := needBody_of_normalize hbody (SectionTree.decoded_fields _)
  have hreplacement : replacement returning.request .sections id =
      .ok (.replaceSection id entry.fields) := by
    rw [replacement, hfields]
    rfl
  have hvalid := Catalog.validSection_of_named (hsound.named.sections id entry hentry)
  have hok : service.catalog.perform (.replaceSection id entry.fields) =
      .ok (.aSection ⟨id, entry.fields⟩, service.catalog) := by
    rw [Catalog.perform, Catalog.replaceSection_same hentry hvalid]
    rfl
  obtain ⟨hresponse, hcatalog⟩ := h.exchange_of_perform hroute hsound hreplacement hok
  exact ⟨hresponse, hcatalog⟩

/-- A group that is put back, with the layers in it, is kept. -/
theorem PutsBack.group_kept (h : PutsBack service reading returning) (hsound : Sound service)
    {id : GroupId} {tree : GroupTree}
    (hroute : Route.parse .get reading.request.path = .ok (.read .groups id))
    (htree : service.catalog.groupTree? Catalog.fullDepth id = some tree) :
    service.Confirms (service.exchange reading returning) tree.group.toJson := by
  have hbody : returning.request.body = some tree.toJson.normalize :=
    h.body_eq hroute (by rw [readTier, htree]; rfl)
  obtain ⟨entry, hentry, rfl⟩ := Option.map_eq_some_iff.1 htree
  have hfields := needBody_of_normalize hbody
    (GroupTree.decoded_fields (hsound.stores.groups id entry hentry))
  have hreplacement : replacement returning.request .groups id =
      .ok (.replaceGroup id entry.fields) := by
    rw [replacement, hfields]
    rfl
  have hvalid := Catalog.validGroup_of_named (hsound.named.groups id entry hentry)
  have hok : service.catalog.perform (.replaceGroup id entry.fields) =
      .ok (.aGroup ⟨id, entry.fields⟩, service.catalog) := by
    rw [Catalog.perform, Catalog.replaceGroup_same hsound.wellFormed hentry hvalid]
    rfl
  obtain ⟨hresponse, hcatalog⟩ := h.exchange_of_perform hroute hsound hreplacement hok
  exact ⟨hresponse, hcatalog⟩

/-! ## Layers -/

section Layer

variable (h : PutsBack service reading returning) (hsound : Sound service) {id : LayerId}
  {layer : LayerRecord} (hroute : Route.parse .get reading.request.path = .ok (.read .layers id))
  (hlayer : service.catalog.layer? id = some layer)

include hsound hlayer

theorem Sound.submitted : layer.id = id ∧ layer.fields.Submitted ∧
    Text.allBlank layer.fields.name = false := by
  obtain ⟨entry, -, -, hentry, -, -, rfl⟩ := Catalog.layer?_eq_some_iff.1 hlayer
  exact ⟨rfl, hsound.stores.layers id entry hentry, hsound.named.layers id entry hentry⟩

include h hroute

namespace PutsBack

/-- The form as which a layer comes back is stored as the fields that it yields. -/
theorem exchange_of_form {paint layout : Json.Members} {fields : LayerFields}
    (hdecoded : Decode.ofJson LayerForm.decode layer.toJson = .ok (layer.form paint layout))
    (hfields : (layer.form paint layout).toFields = .ok fields)
    (hname : fields.name = layer.fields.name) :
    (service.exchange reading returning).response =
        .ok "layer" ({ layer with fields := fields } : LayerRecord).toJson ∧
      (service.exchange reading returning).after.catalog =
        service.catalog.withLayerFields id fields := by
  have hbody : returning.request.body = some layer.toJson.normalize :=
    h.body_eq hroute (by rw [readTier, hlayer]; rfl)
  have hreplacement : replacement returning.request .layers id = .ok (.replaceLayer id fields) := by
    rw [replacement, needBody_of_normalize hbody hdecoded]
    simp only [formFields, hfields]
    rfl
  have hvalid : fields.validate = .ok () :=
    Catalog.validLayer_of_named (hname ▸ (hsound.submitted hlayer).2.2)
  have hok : service.catalog.perform (.replaceLayer id fields) =
      .ok (.aLayer { layer with fields := fields }, service.catalog.withLayerFields id fields) := by
    rw [Catalog.perform, Catalog.replaceLayer_of_layer? hlayer hvalid]
    rfl
  exact h.exchange_of_perform hroute hsound hreplacement hok

/-- A layer whose maps are found in their texts is kept where its type is not compiled. -/
theorem layer_kept (hkind : layer.fields.visualType.isCompiled = false) {paint layout : Json.Members}
    (hmaps : layer.fields.HasMaps paint layout) (hpaint : Json.Legible paint)
    (hlayout : Json.Legible layout) :
    service.Confirms (service.exchange reading returning) layer.toJson := by
  obtain ⟨-, hsubmitted, -⟩ := hsound.submitted hlayer
  have hdecoded := LayerRecord.decoded_of_hasMaps hsubmitted.camera hmaps hpaint hlayout
  have hfields := LayerRecord.returns_of_not_compiled hsubmitted.source hkind hmaps
  obtain ⟨hresponse, hcatalog⟩ :=
    h.exchange_of_form hsound hroute hlayer hdecoded hfields rfl
  exact ⟨hresponse, hcatalog.trans (Catalog.withLayerFields_same hlayer)⟩

/-- A layer whose maps are found in their texts gets the standard style where its type is compiled. -/
theorem layer_answered (hkind : layer.fields.visualType.isCompiled = true)
    {paint layout : Json.Members} (hmaps : layer.fields.HasMaps paint layout)
    (hpaint : Json.Legible paint) (hlayout : Json.Legible layout) :
    ∃ style, StyleForm.standard.compile layer.fields.visualType = .ok style ∧
      (service.exchange reading returning).response =
        .ok "layer" (layer.withTexts style.paintText style.layoutText).toJson ∧
      (service.exchange reading returning).after.catalog = service.catalog.withLayerFields id
        (layer.withTexts style.paintText style.layoutText).fields := by
  obtain ⟨-, hsubmitted, -⟩ := hsound.submitted hlayer
  have hdecoded := LayerRecord.decoded_of_hasMaps hsubmitted.camera hmaps hpaint hlayout
  obtain ⟨style, hstyle, hfields⟩ :=
    LayerRecord.returns_of_compiled hsubmitted.source hkind paint layout
  exact ⟨style, hstyle, h.exchange_of_form hsound hroute hlayer hdecoded hfields rfl⟩

/-- Whatever the answer, a layer of a compiled type at most gets other texts of its property maps. -/
theorem layer_restyled (hkind : layer.fields.visualType.isCompiled = true) :
    ∃ paint layout, (service.exchange reading returning).after.catalog =
      service.catalog.withLayerFields id (layer.withTexts paint layout).fields := by
  obtain ⟨-, hsubmitted, -⟩ := hsound.submitted hlayer
  cases hdecoded : Decode.ofJson LayerForm.decode layer.toJson with
  | error e =>
      have hbody : returning.request.body = some layer.toJson.normalize :=
        h.body_eq hroute (by rw [readTier, hlayer]; rfl)
      refine ⟨layer.fields.paint, layer.fields.layout, ?_⟩
      rw [(h.exchange_act hroute).2]
      refine Eq.trans ?_ (Catalog.withLayerFields_same hlayer).symm
      simp only [act, action, replacement, needBody, hbody, decodeBody, Decode.ofJson_normalize,
        hdecoded]
      rfl
  | ok form =>
      obtain ⟨paint, layout, -, -, rfl⟩ := (LayerRecord.decoded_iff hsubmitted.camera).1 hdecoded
      obtain ⟨style, -, hfields⟩ :=
        LayerRecord.returns_of_compiled hsubmitted.source hkind paint layout
      exact ⟨_, _, (h.exchange_of_form hsound hroute hlayer hdecoded hfields rfl).2⟩

end PutsBack

end Layer

structure KeepsLayer (service : Service) (put : Step) (layer : LayerRecord) : Prop where
  /-- The layer is stored with the texts of two maps; what was compiled does not nest deep. -/
  maps : ∃ paint layout, layer.fields.HasMaps paint layout ∧
    (layer.fields.visualType.isCompiled = true →
      (Json.object paint).nesting ≤ 3 ∧ (Json.object layout).nesting ≤ 3)
  /-- A type that is not compiled: the layer is kept as long as both maps are found in their texts. -/
  kept : layer.fields.visualType.isCompiled = false → ∀ paint layout,
    layer.fields.HasMaps paint layout → Json.Legible paint → Json.Legible layout →
      service.Confirms put layer.toJson
  /-- A compiled type: whatever the answer, at most the two texts change, in this layer alone. -/
  restyled : layer.fields.visualType.isCompiled = true → ∃ paint layout,
    put.after.catalog =
        service.catalog.withLayerFields layer.id (layer.withTexts paint layout).fields ∧
      put.after.catalog.layer? layer.id = some (layer.withTexts paint layout)
  /-- A compiled type whose maps are found in their texts: the layer gets the standard style. -/
  answered : layer.fields.visualType.isCompiled = true → ∀ paint layout,
    layer.fields.HasMaps paint layout → Json.Legible paint → Json.Legible layout →
      ∃ style, StyleForm.standard.compile layer.fields.visualType = .ok style ∧
        put.response = .ok "layer" (layer.withTexts style.paintText style.layoutText).toJson ∧
        put.after.catalog = service.catalog.withLayerFields layer.id
          (layer.withTexts style.paintText style.layoutText).fields

/--
Whoever puts the document of a record back to the address where it was read keeps the record: of a
section or a group, whatever is below it, nothing changes, and of a layer nothing but the style of a
compiled type.
-/
theorem putsBack_keeps {service : Service} (hreached : service.Reached) {reading returning : Visit}
    (h : service.PutsBack reading returning) :
    (∀ id layer, Route.parse .get reading.request.path = .ok (.read .layers id) →
      service.catalog.layer? id = some layer →
        service.KeepsLayer (service.exchange reading returning) layer) ∧
    (∀ id tree, Route.parse .get reading.request.path = .ok (.read .groups id) →
      service.catalog.groupTree? Catalog.fullDepth id = some tree →
        service.Confirms (service.exchange reading returning) tree.group.toJson) ∧
    ∀ id tree, Route.parse .get reading.request.path = .ok (.read .sections id) →
      service.catalog.sectionTree? Catalog.fullDepth id = some tree →
        service.Confirms (service.exchange reading returning) tree.head.toJson := by
  have hsound := hreached.sound
  refine ⟨fun id layer hroute hlayer => ?_, fun id tree => h.group_kept hsound,
    fun id tree => h.section_kept hsound⟩
  obtain ⟨rfl, hsubmitted, -⟩ := hsound.submitted hlayer
  refine ⟨hsubmitted.maps, fun hkind paint layout hmaps hpaint hlayout => ?_, fun hkind => ?_,
    fun hkind paint layout hmaps hpaint hlayout => ?_⟩
  · exact h.layer_kept hsound hroute hlayer hkind hmaps hpaint hlayout
  · obtain ⟨paint, layout, hcatalog⟩ := h.layer_restyled hsound hroute hlayer hkind
    refine ⟨paint, layout, hcatalog, ?_⟩
    rw [hcatalog]
    exact Catalog.layer?_withLayerFields hlayer _
  · exact h.layer_answered hsound hroute hlayer hkind hmaps hpaint hlayout

/-! ## A sample -/

/-- A record is created by somebody who is not revoked. -/
def sampleFiling (path : String) (second : Int) (fresh : BitVec 128) (body : Json) : Visit :=
  ⟨{ (sampleVisit "ann" .post path second).request with body := some body }, .ofSeconds second,
    fresh⟩

def sampleBase : Visit :=
  sampleFiling "/LayerSection" 1 7 (.object [("name", .text "Base")])

def sampleWeather : Visit :=
  sampleFiling "/LayerGroup" 2 8
    (.object [("name", .text "Weather"), ("layerSectionId", (⟨7⟩ : SectionId).toJson)])

def sampleRaining : Visit :=
  sampleFiling "/LayerData" 3 9
    (.object [("name", .text "Rain"), ("type", .text "raster"),
      ("layerGroupId", (⟨8⟩ : GroupId).toJson),
      ("paint", .object [("raster-opacity", .ofNat 1)])])

def sampleRain : LayerFields :=
  { (default : LayerFields) with
    name := "Rain"
    visualType := .raster
    paint := "\x7b\"raster-opacity\":1\x7d"
    layout := LayerFields.emptyMap }

def sampleFiled : Service :=
  sampleNew.after [sampleBase, sampleWeather, sampleRaining]

/-- Nobody is revoked at a new service, so that whatever is filed there is accepted. -/
theorem verdict_sampleFiling (path : String) {second : Int} (hsecond : second < 253402300799)
    (fresh : BitVec 128) (body : Json) :
    sampleNew.guard.verdict (sampleFiling path second fresh body) = .ok "ann" :=
  legible_ann.accepted rfl .post path second hsecond (unrevoked_sample "ann" _)

/-- What is accepted at a new service is carried out, and nobody is revoked afterwards either. -/
theorem operation?_of_new (service : Service) (hguard : service.guard = sampleNew.guard)
    {visit : Visit} (haccepted : sampleNew.guard.verdict visit = .ok "ann") {tier : Tier}
    (hroute : Route.parse visit.request.method visit.request.path = .ok (.create tier))
    {operation : Operation}
    (hasked : asked? .empty visit.request visit.fresh (.create tier) = some operation) :
    service.operation? visit = some operation ∧
      (service.step visit).after.guard = sampleNew.guard := by
  rw [← hguard] at haccepted
  constructor
  · rw [operation?_of_accepted hroute haccepted, asked?_congr _ Catalog.empty, hasked]
  · rw [guard_step_of_new (by rw [hguard]; rfl) (by rw [hroute]; nofun), hguard]

/-- A request creates a record at a new service by an operation. -/
def FilesAtNew (visit : Visit) (operation : Operation) : Prop :=
  sampleNew.guard.verdict visit = .ok "ann" ∧
    ∃ tier, Route.parse visit.request.method visit.request.path = .ok (.create tier) ∧
      asked? .empty visit.request visit.fresh (.create tier) = some operation

/-- Creations at a new service are carried out one after the other. -/
theorem history_of_new {service : Service} (hguard : service.guard = sampleNew.guard)
    {visits : List Visit} {operations : List Operation}
    (h : List.Forall₂ FilesAtNew visits operations) : service.history visits = operations := by
  induction h generalizing service with
  | nil =>
      rfl
  | cons hfirst _ ih =>
      obtain ⟨haccepted, tier, hroute, hasked⟩ := hfirst
      obtain ⟨hoperation, hafter⟩ := operation?_of_new service hguard haccepted hroute hasked
      rw [history, hoperation, ih hafter]
      rfl

theorem guard_sampleFiled : sampleFiled.guard = sampleNew.guard :=
  guard_after_of_new rfl (by decide +kernel)

theorem history_sampleFiled :
    sampleNew.history [sampleBase, sampleWeather, sampleRaining] =
      [.createSection ⟨7⟩ ⟨"Base"⟩, .createGroup ⟨8⟩ (.named "Weather" ⟨7⟩),
       .createLayer ⟨9⟩ ⟨8⟩ sampleRain] := by
  have hbase : FilesAtNew sampleBase (.createSection ⟨7⟩ ⟨"Base"⟩) :=
    ⟨verdict_sampleFiling _ (by decide) _ _, .sections, by decide +kernel, by decide +kernel⟩
  have hweather : FilesAtNew sampleWeather (.createGroup ⟨8⟩ (.named "Weather" ⟨7⟩)) :=
    ⟨verdict_sampleFiling _ (by decide) _ _, .groups, by decide +kernel, by decide +kernel⟩
  have hraining : FilesAtNew sampleRaining (.createLayer ⟨9⟩ ⟨8⟩ sampleRain) :=
    ⟨verdict_sampleFiling _ (by decide) _ _, .layers, by decide +kernel, by decide +kernel⟩
  exact history_of_new rfl (.cons hbase (.cons hweather (.cons hraining .nil)))

theorem neverRepeats_sampleFiled :
    Catalog.NeverRepeats sampleNew.catalog
      (sampleNew.history [sampleBase, sampleWeather, sampleRaining]) := by
  rw [history_sampleFiled]
  exact ⟨by decide, by decide⟩

theorem reached_sampleFiled : sampleFiled.Reached := by
  refine ⟨sampleNew, _, rfl, neverRepeats_sampleFiled, ?_, rfl⟩
  simp only [List.forall_mem_cons]
  refine ⟨?_, ?_, ?_, by simp⟩ <;> rintro body ⟨⟩ <;>
    simp [Json.every_object_iff, Id.toJson, Json.ofNat, Json.Number.InRange]

def sampleLayer : LayerRecord :=
  ⟨⟨9⟩, ⟨8⟩, 0, sampleRain⟩

theorem layer?_sampleFiled : sampleFiled.catalog.layer? ⟨9⟩ = some sampleLayer := by
  have hcatalog := (wellFormed_steps Catalog.wellFormed_empty neverRepeats_sampleFiled).1
  rw [sampleFiled, hcatalog, history_sampleFiled]
  decide +kernel

def sampleReading : Visit :=
  sampleVisit "ann" .get sampleLayer.id.path 4

def sampleReturning : Visit :=
  ⟨{ (sampleVisit "ann" .put sampleLayer.id.path 5).request with
      body := some sampleLayer.toJson.normalize }, .ofSeconds 5, 0⟩

theorem route_sampleReading :
    Route.parse .get sampleReading.request.path = .ok (.read .layers sampleLayer.id) :=
  Id.parse_path sampleLayer.id rfl

theorem putsBack_sampleReturning : sampleFiled.PutsBack sampleReading sampleReturning := by
  have hread : (sampleFiled.step sampleReading).response = .ok "layerData" sampleLayer.toJson := by
    refine response_of_read route_sampleReading ?_
    rw [readTier, show sampleFiled.catalog.layer? sampleLayer.id = _ from layer?_sampleFiled]
    rfl
  have hafter : (sampleFiled.step sampleReading).after = sampleFiled :=
    (sampleFiled.handle_get rfl sampleReading.request.authorization _ _).1
  have haccepted : sampleNew.guard.verdict sampleReturning = .ok "ann" :=
    legible_ann.accepted rfl .put sampleLayer.id.path 5 (by decide) (unrevoked_sample "ann" _)
  refine ⟨rfl, rfl, rfl, ⟨"layerData", sampleLayer.toJson.normalize, ?_, rfl⟩, "ann", ?_⟩
  · rw [hread]
    rfl
  · rw [hafter, guard_sampleFiled, haccepted]

theorem sample_putsBack_keeps :
    sampleFiled.Reached ∧ sampleFiled.PutsBack sampleReading sampleReturning ∧
      sampleFiled.Confirms (sampleFiled.exchange sampleReading sampleReturning)
        sampleLayer.toJson := by
  have hkeeps := (putsBack_keeps reached_sampleFiled putsBack_sampleReturning).1 _ _
    route_sampleReading layer?_sampleFiled
  have hinRange : (Json.object [("raster-opacity", .ofNat 1)]).Every Json.Number.InRange := by
    simp [Json.every_object_iff, Json.ofNat, Json.Number.InRange]
  have hfloats : (Json.object [("raster-opacity", .ofNat 1)]).Every
      Json.Number.FloatReadsBack := by
    simp [Json.every_object_iff, Json.ofNat, Json.Number.FloatReadsBack]
  have hmaps : sampleRain.HasMaps [("raster-opacity", .ofNat 1)] [] :=
    ⟨by decide +kernel, by decide +kernel, ⟨rfl, hinRange⟩, Json.isMap_nil⟩
  exact ⟨reached_sampleFiled, putsBack_sampleReturning,
    hkeeps.kept rfl _ _ hmaps ⟨by decide, hfloats⟩ ⟨by decide, trivial⟩⟩

end Service

end MapCatalog
