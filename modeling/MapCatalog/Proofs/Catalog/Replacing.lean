import MapCatalog.Proofs.Catalog.Consistency

/-! # Replacing a record -/

namespace MapCatalog

namespace Catalog

def withLayerFields (c : Catalog) (id : LayerId) (fields : LayerFields) : Catalog :=
  { c with layers := c.layers.modify id fun entry => { entry with fields := fields } }

variable {c : Catalog}

theorem validSection_of_named {fields : SectionFields} (h : Text.allBlank fields.name = false) :
    fields.validate = .ok () := by
  simp [SectionFields.validate, h]

theorem validGroup_of_named {fields : GroupFields} (h : Text.allBlank fields.name = false) :
    fields.validate = .ok () := by
  simp [GroupFields.validate, h]

theorem validLayer_of_named {fields : LayerFields} (h : Text.allBlank fields.name = false) :
    fields.validate = .ok () := by
  simp [LayerFields.validate, h]

theorem replaceSection_same {id : SectionId} {entry : SectionEntry}
    (hentry : c.sections.get? id = some entry) (hvalid : entry.fields.validate = .ok ()) :
    c.replaceSection id entry.fields = .ok (⟨id, entry.fields⟩, c) := by
  have htable : c.sections.insert id { entry with fields := entry.fields } = c.sections :=
    Table.insert_of_get? hentry
  simp only [replaceSection, hvalid, hentry, htable]

theorem replaceGroup_same (hwell : WellFormed c) {id : GroupId} {entry : GroupEntry}
    (hentry : c.groups.get? id = some entry) (hvalid : entry.fields.validate = .ok ()) :
    c.replaceGroup id entry.fields = .ok (⟨id, entry.fields⟩, c) := by
  obtain ⟨parent, hparent, -⟩ := hwell.section_of_group hentry
  have hcontains : c.sections.contains entry.fields.sectionId = true :=
    c.sections.contains_iff.2 ⟨parent, hparent⟩
  have htable : c.groups.insert id { entry with fields := entry.fields } = c.groups :=
    Table.insert_of_get? hentry
  simp only [replaceGroup, hvalid, hentry, hcontains, if_true, moveGroup, htable]

/-- A layer is read from its entry, the list of its group and its place there. -/
theorem layer?_eq_some_iff {id : LayerId} {layer : LayerRecord} :
    c.layer? id = some layer ↔
      ∃ entry group position, c.layers.get? id = some entry ∧
        c.groups.get? entry.group = some group ∧ position? id group.layers = some position ∧
          layer = ⟨id, entry.group, place position, entry.fields⟩ := by
  unfold layer? layerAt
  cases hentry : c.layers.get? id with
  | none => simp
  | some entry =>
      cases hgroup : c.groups.get? entry.group with
      | none => simp [hgroup]
      | some group =>
          cases hposition : position? id group.layers with
          | none => simp [hgroup, hposition]
          | some position => simp [hgroup, hposition, eq_comm]

/-- A layer with other fields keeps its group and its place. -/
theorem layer?_withLayerFields {id : LayerId} {layer : LayerRecord} (h : c.layer? id = some layer)
    (fields : LayerFields) :
    (c.withLayerFields id fields).layer? id = some { layer with fields := fields } := by
  obtain ⟨entry, group, position, hentry, hgroup, hposition, rfl⟩ := layer?_eq_some_iff.1 h
  refine layer?_eq_some_iff.2 ⟨{ entry with fields := fields }, group, position, ?_, hgroup,
    hposition, rfl⟩
  simp [withLayerFields, Table.get?_modify, hentry]

theorem replaceLayer_of_layer? {id : LayerId} {layer : LayerRecord} (h : c.layer? id = some layer)
    {fields : LayerFields} (hvalid : fields.validate = .ok ()) :
    c.replaceLayer id fields =
      .ok ({ layer with fields := fields }, c.withLayerFields id fields) := by
  obtain ⟨entry, -, -, hentry, -⟩ := layer?_eq_some_iff.1 h
  have hlayer := layer?_withLayerFields h fields
  rw [withLayerFields, Table.modify_of_get? hentry] at hlayer ⊢
  simp only [replaceLayer, hvalid, hentry, hlayer]

theorem withLayerFields_same {id : LayerId} {layer : LayerRecord} (h : c.layer? id = some layer) :
    c.withLayerFields id layer.fields = c := by
  obtain ⟨entry, -, -, hentry, -, -, rfl⟩ := layer?_eq_some_iff.1 h
  have htable : c.layers.insert id { entry with fields := entry.fields } = c.layers :=
    Table.insert_of_get? hentry
  rw [withLayerFields, Table.modify_of_get? hentry, htable]

end Catalog

end MapCatalog
