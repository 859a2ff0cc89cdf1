import Mathlib.Tactic.Abel
import Mathlib.Algebra.Order.Group.Multiset
import MapCatalog.Proofs.Editor.Encoding
import MapCatalog.Proofs.Editor.Submitted

/-! # Records that come back

A layer comes back as a form whose property maps are texts and whose other style fields are left out.
-/

namespace MapCatalog

open Decode (Reader ReadsOnly fieldReaders)

/-! ## Sections and groups -/

theorem Shape.widens_flat_between {members : Json.Members} {first last : String × Json}
    (hfirst : first.1 ∉ Json.keys members) (hlast : last.1 ∉ Json.keys members) :
    Shape.flat.Widens (.object members) (.object (first :: (members ++ [last]))) := by
  have hentries : (first :: (members ++ [last])).Perm (members ++ [last, first]) := by
    have hmoved := List.perm_append_singleton first (members ++ [last])
    rw [List.append_assoc] at hmoved
    exact hmoved.symm
  refine widens_record_added (fun entry _ => widens_value_self entry.2) hentries ?_
  simp [hfirst, hlast]

theorem SectionTree.decoded_fields (tree : SectionTree) :
    Decode.ofJson SectionFields.decode tree.toJson = .ok tree.head.fields := by
  refine (SectionFields.lossless tree.head.fields).widened _ ?_
  exact Shape.widens_flat_between (by simp [SectionFields.toMembers, Json.keys])
    (by simp [SectionFields.toMembers, Json.keys])

theorem GroupTree.decoded_fields {tree : GroupTree} (h : tree.group.fields.camera.Finite) :
    Decode.ofJson GroupFields.decode tree.toJson = .ok tree.group.fields := by
  refine (GroupFields.lossless h).widened _ ?_
  exact Shape.widens_flat_between
    (by simp [GroupFields.toMembers, Camera.toMembers, Json.keys])
    (by simp [GroupFields.toMembers, Camera.toMembers, Json.keys])

/-! ## Styles -/

/-- The members of a form that hold its property maps as texts. -/
def StyleForm.mapTexts (paint layout : String) : Json.Members :=
  [("paint", .text paint), ("layout", .text layout)]

def StyleForm.plain (paint layout : Json.Members) : StyleForm :=
  { standard with paint := paint, layout := layout }

/-- A style is decoded from the texts of its property maps when both hold a map. -/
theorem StyleForm.part_mapTexts_iff {paint layout : String} {style : StyleForm} :
    Decode.part fields standard (Reading.ofMembers (mapTexts paint layout)) = .ok style ↔
      ∃ paintMap layoutMap, propertyMap .tree (.text paint) = .ok paintMap ∧
        propertyMap .tree (.text layout) = .ok layoutMap ∧ style = plain paintMap layoutMap := by
  cases hpaint : propertyMap .tree (.text paint) <;>
  cases hlayout : propertyMap .tree (.text layout) <;>
  simp [mapTexts, plain, Reading.ofMembers, Reading.ofJson, Decode.part, Decode.members,
    Decode.visit, fields, Decode.field?, Decode.Field.given, Except.map, Decode.firstMissing?,
    hpaint, hlayout, eq_comm]

namespace StyleForm

variable {kind : VisualType}

/-- Where a style has fields of its own, its property maps play no part. -/
theorem compile_plain (paint layout : Json.Members) (h : kind.isCompiled = true) :
    (plain paint layout).compile kind = standard.compile kind := by
  have hnarrow : (plain paint layout).narrow kind = standard.narrow kind := by
    cases kind with
    | symbol | fill | line | circle => simp only [narrow, plain, symbolText, symbolIcon]
    | heatmap | fillExtrusion | raster | rasterParticle | hillshade | model | background | sky |
      slot | clip => cases h
  rw [compile, hnarrow, ← compile]

theorem exists_compile_standard (kind : VisualType) : ∃ style, standard.compile kind = .ok style := by
  have hvalid : (standard.narrow kind).validate = .ok () := by
    cases kind <;> decide +kernel
  exact ⟨_, (standard.compile_eq_ok_iff kind _).2 ⟨hvalid, rfl⟩⟩

end StyleForm

/-! ## Layers -/

namespace LayerRecord

variable {layer : LayerRecord} {paint layout : Json.Members}

def withTexts (layer : LayerRecord) (paint layout : String) : LayerRecord :=
  { layer with fields := { layer.fields with paint := paint, layout := layout } }

def form (layer : LayerRecord) (paint layout : Json.Members) : LayerForm where
  groupId := some layer.groupId
  name := layer.fields.name
  visualType := layer.fields.visualType
  label := layer.fields.label
  iconColor := layer.fields.iconColor
  iconType := layer.fields.iconType
  camera := layer.fields.camera
  groupName := layer.fields.groupName
  topLayerClass := layer.fields.topLayerClass
  infoId := layer.fields.infoId
  sourceType := layer.fields.sourceType
  sourceUrl := layer.fields.sourceUrl
  sourceId := layer.fields.sourceId
  sourceLayer := layer.fields.sourceLayer
  hover := layer.fields.hover
  click := layer.fields.click
  time := layer.fields.time
  hoverStyle := layer.fields.hoverStyle
  clickStyle := layer.fields.clickStyle
  clickHeader := layer.fields.clickHeader
  hoverContent := layer.fields.hoverContent
  style := .plain paint layout

def formMembers (layer : LayerRecord) : Json.Members :=
  (layer.form [] []).ownMembers ++ StyleForm.mapTexts layer.fields.paint layer.fields.layout

def storedMembers (layer : LayerRecord) : Json.Members :=
  [("id", layer.id.toJson), ("order", .ofNat layer.order.toNat),
   ("source", layer.fields.source.toJson)]

theorem perm_toMembers (layer : LayerRecord) :
    layer.toMembers.Perm (layer.formMembers ++ layer.storedMembers) := by
  have hblocks (id group order front camera middle source texts back : Json.Members) :
      (id ++ group ++ order ++ (front ++ camera ++ (middle ++ source ++ texts ++ back))).Perm
        (group ++ front ++ camera ++ (middle ++ back) ++ texts ++ (id ++ order ++ source)) := by
    simp only [← Multiset.coe_eq_coe, ← Multiset.coe_add]
    abel
  exact hblocks [("id", layer.id.toJson)] [("layerGroupId", layer.groupId.toJson)]
    [("order", .ofNat layer.order.toNat)] (layer.fields.toMembers.take 5)
    layer.fields.camera.toMembers ((layer.fields.toMembers.drop 9).take 7)
    [("source", layer.fields.source.toJson)]
    (StyleForm.mapTexts layer.fields.paint layer.fields.layout) (layer.fields.toMembers.drop 19)

theorem sound_formMembers (layer : LayerRecord) :
    ∀ entry ∈ layer.formMembers, (LayerForm.below entry.1).Sound LayerForm.readers entry := by
  rw [formMembers, List.forall_mem_append]
  refine ⟨(layer.form [] []).sound_ownMembers, ?_⟩
  simp [StyleForm.mapTexts, LayerForm.below, StyleForm.below, StyleForm.pointKeys, Shape.sound_text]

/-- A form reads of a layer what it reads of the form as which the layer comes back. -/
theorem matches_formMembers (layer : LayerRecord) (origin : Decode.Origin) :
    Reader.Matches (LayerForm.readers origin) layer.formMembers
      (Json.normalizeMembers layer.toMembers) := by
  have hsound := layer.sound_formMembers
  have hkeys : (Json.keys layer.formMembers).Nodup := by
    simp [formMembers, LayerForm.ownMembers, form, Camera.toMembers, StyleForm.mapTexts, Json.keys]
  have hdistinct : (Json.object layer.formMembers).Distinct :=
    (Json.distinct_object_iff _).2 ⟨hkeys, fun entry hentry => (hsound entry hentry).distinct⟩
  have hstored : ∀ entry ∈ layer.storedMembers, entry.1 ∉ Json.keys layer.formMembers ∧
      entry.1 ∉ StyleForm.fields.map Decode.Field.key := by
    simp [storedMembers, formMembers, LayerForm.ownMembers, form, Camera.toMembers,
      StyleForm.mapTexts, StyleForm.fields, Decode.Field.given, Json.keys]
  have hwidens : (Shape.record (StyleForm.fields.map Decode.Field.key) LayerForm.below).Widens
      (.object layer.formMembers) layer.toJson :=
    Shape.widens_record_added (fun entry hentry => (hsound entry hentry).shaped)
      layer.perm_toMembers hstored
  refine Shape.matches_of_widens (fun entry hentry => (hsound entry hentry).safe origin) ?_
    (hwidens.normalize hdistinct)
  simp [LayerForm.readers, fieldReaders, LayerForm.ownFields, Camera.fields, StyleForm.fields,
    formMembers, LayerForm.ownMembers, form, Camera.toMembers, StyleForm.mapTexts, Json.keys]

/-- A layer is decoded as a form when both of its property maps are found in their texts. -/
theorem decoded_iff (hcamera : layer.fields.camera.Finite) {form : LayerForm} :
    Decode.ofJson LayerForm.decode layer.toJson = .ok form ↔
      ∃ paint layout, StyleForm.propertyMap .tree (.text layer.fields.paint) = .ok paint ∧
        StyleForm.propertyMap .tree (.text layer.fields.layout) = .ok layout ∧
          form = layer.form paint layout := by
  have haside : LayerForm.Aside (StyleForm.mapTexts layer.fields.paint layer.fields.layout) :=
    { own := by simp [StyleForm.mapTexts, Decode.field?, LayerForm.ownFields]
      camera := by simp [StyleForm.mapTexts, fieldReaders, Camera.fields] }
  refine (LayerForm.readsOnly .tree (layer.matches_formMembers .tree) form).trans
    ((LayerForm.decodeMembers_eq_ok_iff (l := layer.form [] []) hcamera haside .tree).trans ?_)
  simp only [StyleForm.part_mapTexts_iff]
  constructor
  · rintro ⟨_, ⟨paint, layout, hpaint, hlayout, rfl⟩, rfl⟩
    exact ⟨paint, layout, hpaint, hlayout, rfl⟩
  · rintro ⟨paint, layout, hpaint, hlayout, rfl⟩
    exact ⟨_, ⟨paint, layout, hpaint, hlayout, rfl⟩, rfl⟩

/-- A layer whose maps are found in their texts is decoded as the form as which it comes back. -/
theorem decoded_of_hasMaps (hcamera : layer.fields.camera.Finite)
    (hmaps : layer.fields.HasMaps paint layout) (hpaint : Json.Legible paint)
    (hlayout : Json.Legible layout) :
    Decode.ofJson LayerForm.decode layer.toJson = .ok (layer.form paint layout) := by
  refine (decoded_iff hcamera).2 ⟨paint, layout, ?_, ?_, rfl⟩
  · rw [hmaps.paint_text]
    exact StyleForm.propertyMap_of_compact hmaps.paint_map hpaint .tree
  · rw [hmaps.layout_text]
    exact StyleForm.propertyMap_of_compact hmaps.layout_map hlayout .tree

/-! ## What is stored again -/

/-- What the form of a layer is stored as: the layer, but for what its style compiles to. -/
theorem toFields_form (hsource : layer.fields.source =
    .resolve layer.fields.sourceType layer.fields.sourceUrl) {style : CompiledStyle}
    (hstyle : (StyleForm.plain paint layout).compile layer.fields.visualType = .ok style) :
    (layer.form paint layout).toFields =
      .ok (layer.withTexts style.paintText style.layoutText).fields := by
  rw [LayerForm.toFields]
  simp only [form, hstyle, withTexts, ← hsource]

/-- A layer of a type that is not compiled comes back as it was. -/
theorem returns_of_not_compiled
    (hsource : layer.fields.source = .resolve layer.fields.sourceType layer.fields.sourceUrl)
    (hkind : layer.fields.visualType.isCompiled = false) (hmaps : layer.fields.HasMaps paint layout) :
    (layer.form paint layout).toFields = .ok layer.fields := by
  rw [toFields_form hsource (StyleForm.compile_of_not_compiled _ hkind)]
  simp only [withTexts, StyleForm.plain, CompiledStyle.paintText,
    CompiledStyle.layoutText, ← hmaps.paint_text, ← hmaps.layout_text]

/-- A layer of a type that is compiled comes back with the standard style. -/
theorem returns_of_compiled
    (hsource : layer.fields.source = .resolve layer.fields.sourceType layer.fields.sourceUrl)
    (hkind : layer.fields.visualType.isCompiled = true) (paint layout : Json.Members) :
    ∃ style, StyleForm.standard.compile layer.fields.visualType = .ok style ∧
      (layer.form paint layout).toFields =
      .ok (layer.withTexts style.paintText style.layoutText).fields := by
  obtain ⟨style, hstyle⟩ := StyleForm.exists_compile_standard layer.fields.visualType
  exact ⟨style, hstyle,
    toFields_form hsource ((StyleForm.compile_plain paint layout hkind).trans hstyle)⟩

end LayerRecord

end MapCatalog
