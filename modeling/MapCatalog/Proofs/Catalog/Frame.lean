import MapCatalog.Proofs.Catalog.Listing

/-! # How the trees change -/

namespace MapCatalog

namespace Catalog

/-! ## Fields of records -/

section Records

variable {c after : Catalog}

theorem sectionRecord_of_get? {id : SectionId} {entry : SectionEntry}
    (h : c.sections.get? id = some entry) : c.sectionRecord id = ⟨id, entry.fields⟩ := by
  simp [sectionRecord, h]

theorem groupRecord_of_get? {id : GroupId} {entry : GroupEntry}
    (h : c.groups.get? id = some entry) : c.groupRecord id = ⟨id, entry.fields⟩ := by
  simp [groupRecord, h]

theorem layerRecord_of_get? {id : LayerId} {entry : LayerEntry}
    (h : c.layers.get? id = some entry) :
    c.layerRecord id = ⟨id, entry.group, 0, entry.fields⟩ := by
  simp [layerRecord, groupOf?, h]

theorem sectionRecord_congr {id : SectionId} (h : after.sections.get? id = c.sections.get? id) :
    after.sectionRecord id = c.sectionRecord id := by
  rw [sectionRecord, h, sectionRecord]

theorem groupRecord_congr {id : GroupId} (h : after.groups.get? id = c.groups.get? id) :
    after.groupRecord id = c.groupRecord id := by
  rw [groupRecord, h, groupRecord]

theorem layerRecord_congr {id : LayerId} (h : after.layers.get? id = c.layers.get? id) :
    after.layerRecord id = c.layerRecord id := by
  rw [layerRecord, groupOf?, h, layerRecord, groupOf?]

theorem sectionRecord_insert {id : SectionId} {entry : SectionEntry}
    (h : after.sections = c.sections.insert id entry) (other : SectionId) :
    after.sectionRecord other =
      if id = other then ⟨other, entry.fields⟩ else c.sectionRecord other := by
  unfold sectionRecord
  rw [h, Table.get?_insert]
  by_cases ho : id = other <;> simp [ho]

theorem groupRecord_insert {id : GroupId} {entry : GroupEntry}
    (h : after.groups = c.groups.insert id entry) (other : GroupId) :
    after.groupRecord other =
      if id = other then ⟨other, entry.fields⟩ else c.groupRecord other := by
  unfold groupRecord
  rw [h, Table.get?_insert]
  by_cases ho : id = other <;> simp [ho]

theorem layerRecord_insert {id : LayerId} {entry : LayerEntry}
    (h : after.layers = c.layers.insert id entry) (other : LayerId) :
    after.layerRecord other =
      if id = other then ⟨other, entry.group, 0, entry.fields⟩ else c.layerRecord other := by
  unfold layerRecord groupOf?
  rw [h, Table.get?_insert]
  by_cases ho : id = other <;> simp [ho]

theorem sectionRecord_modify {id : SectionId} {change : SectionEntry → SectionEntry}
    (h : after.sections = c.sections.modify id change)
    (hchange : ∀ entry, (change entry).fields = entry.fields) (other : SectionId) :
    after.sectionRecord other = c.sectionRecord other := by
  unfold sectionRecord
  rw [h, Table.get?_modify]
  by_cases ho : id = other
  · subst ho
    simp [hchange, Function.comp_def]
  · simp [ho]

theorem groupRecord_modify {id : GroupId} {change : GroupEntry → GroupEntry}
    (h : after.groups = c.groups.modify id change)
    (hchange : ∀ entry, (change entry).fields = entry.fields) (other : GroupId) :
    after.groupRecord other = c.groupRecord other := by
  unfold groupRecord
  rw [h, Table.get?_modify]
  by_cases ho : id = other
  · subst ho
    simp [hchange, Function.comp_def]
  · simp [ho]

theorem sectionRecord_moveGroup {id : GroupId} {source target : SectionId}
    (h : after.sections = moveGroup c.sections id source target) (other : SectionId) :
    after.sectionRecord other = c.sectionRecord other := by
  by_cases hsame : source = target
  · rw [moveGroup, if_pos hsame] at h
    rw [sectionRecord, h, sectionRecord]
  · rw [c.moveGroup_of_ne id hsame] at h
    have hdetached : (c.detachGroup source id).sectionRecord other = c.sectionRecord other :=
      sectionRecord_modify (c := c) rfl (by intro _; rfl) other
    rw [sectionRecord_modify h (fun _ => rfl), hdetached]

/-! ## Trees -/

/-- A tree of a group is made from its record, its list and the records of its layers. -/
theorem groupTree_congr {id : GroupId} (hrecord : after.groupRecord id = c.groupRecord id)
    (hids : after.layerIds id = c.layerIds id)
    (hlayers : ∀ layer ∈ c.layerIds id, after.layerRecord layer = c.layerRecord layer) :
    after.groupTree id = c.groupTree id := by
  rw [groupTree, hrecord, hids, List.map_congr_left hlayers, groupTree]

/-- A tree of a section is made from its record, its list and the trees of its groups. -/
theorem sectionTree_congr {id : SectionId}
    (hrecord : after.sectionRecord id = c.sectionRecord id)
    (hids : after.groupIds id = c.groupIds id)
    (hgroups : ∀ group ∈ c.groupIds id, after.groupTree group = c.groupTree group) :
    after.sectionTree id = c.sectionTree id := by
  rw [sectionTree, hrecord, hids, List.map_congr_left hgroups, sectionTree]

end Records

/-! ## Forests -/

namespace WellFormed

variable {c next : Catalog}

theorem trees_eq_mapSection (h : WellFormed c) (hnext : WellFormed next) {id : SectionId}
    {change : SectionTree → SectionTree} (horder : next.order = c.order)
    (hself : next.sectionTree id = change (c.sectionTree id))
    (hother : ∀ other ∈ c.order, id ≠ other → next.sectionTree other = c.sectionTree other) :
    next.trees = Forest.mapSection id change c.trees := by
  rw [hnext.trees_eq_map, h.trees_eq_map, horder, Forest.mapSection, List.map_map]
  apply List.map_congr_left
  intro other hmem
  by_cases hid : id = other
  · subst hid
    have hself' : (c.sectionTree id).head.id = id := rfl
    rw [Function.comp_apply, if_pos hself', hself]
  · have hne : (c.sectionTree other).head.id ≠ id := Ne.symm hid
    rw [Function.comp_apply, if_neg hne, hother other hmem hid]

/-- When sections stay as they are, the forest changes group by group. -/
theorem trees_eq_mapGroups (h : WellFormed c) (hnext : WellFormed next)
    {change : GroupTree → GroupTree} (horder : next.order = c.order)
    (hsections : next.sections = c.sections)
    (hgroups : ∀ id, next.groupTree id = change (c.groupTree id)) :
    next.trees = Forest.mapGroups change c.trees := by
  rw [hnext.trees_eq_map, h.trees_eq_map, horder, Forest.mapGroups, List.map_map]
  apply List.map_congr_left
  intro id _
  simp [sectionTree, sectionRecord, groupIds, hsections, hgroups]

end WellFormed

end Catalog

end MapCatalog
