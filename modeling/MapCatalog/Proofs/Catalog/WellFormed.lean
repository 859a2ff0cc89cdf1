import MapCatalog.Proofs.Catalog.Effect

/-! # Well-formed catalogues -/

namespace MapCatalog

namespace Catalog

/-- The order and all lists name each record of their tier once, where it belongs, and nothing else. -/
structure WellFormed (c : Catalog) : Prop where
  order_nodup : c.order.Nodup
  mem_order : ∀ id, id ∈ c.order ↔ c.sections.contains id = true
  /-- Groups stand in the list of the section that their fields name. -/
  groups : Linked c.groupIds c.sectionOf?
  /-- Layers stand in the list of their group. -/
  layers : Linked c.layerIds c.groupOf?

theorem wellFormed_empty : WellFormed empty := by
  refine ⟨List.nodup_nil, ?_, ?_, ?_⟩
  · intro id
    simp [empty, Table.contains]
  · exact ⟨fun _ => List.nodup_nil, fun _ _ => by simp [groupIds, sectionOf?, empty]⟩
  · exact ⟨fun _ => List.nodup_nil, fun _ _ => by simp [layerIds, groupOf?, empty]⟩

theorem exists_position? {id : LayerId} {ids : List LayerId} (h : id ∈ ids) :
    ∃ position, position? id ids = some position := by
  apply Option.isSome_iff_exists.1
  rw [position?, List.findIdx?_isSome, List.any_eq_true]
  exact ⟨id, h, decide_eq_true rfl⟩

namespace WellFormed

variable {c after : Catalog}

theorem mem_order_iff (h : WellFormed c) {id : SectionId} :
    id ∈ c.order ↔ ∃ entry, c.sections.get? id = some entry :=
  (h.mem_order id).trans c.sections.contains_iff

/-- The section of a stored group is stored and lists the group. -/
theorem section_of_group (h : WellFormed c) {id : GroupId} {entry : GroupEntry}
    (hentry : c.groups.get? id = some entry) :
    ∃ parent, c.sections.get? entry.fields.sectionId = some parent ∧ id ∈ parent.groups :=
  mem_groupIds_iff.1 ((h.groups.mem_iff _ id).2 (sectionOf?_of_get? hentry))

/-- The group of a stored layer is stored and lists the layer. -/
theorem group_of_layer (h : WellFormed c) {id : LayerId} {entry : LayerEntry}
    (hentry : c.layers.get? id = some entry) :
    ∃ group, c.groups.get? entry.group = some group ∧ id ∈ group.layers :=
  mem_layerIds_iff.1 ((h.layers.mem_iff _ id).2 (groupOf?_of_get? hentry))

/-- The look-ups that lead from a stored layer to its position succeed. -/
theorem position_of_layer (h : WellFormed c) {id : LayerId} {entry : LayerEntry}
    (hentry : c.layers.get? id = some entry) :
    ∃ group position, c.groups.get? entry.group = some group ∧
      position? id group.layers = some position := by
  obtain ⟨group, hgroup, hlisted⟩ := h.group_of_layer hentry
  obtain ⟨position, hposition⟩ := exists_position? hlisted
  exact ⟨group, position, hgroup, hposition⟩

theorem group_of_mem (h : WellFormed c) {id : SectionId} {group : GroupId}
    (hmem : group ∈ c.groupIds id) :
    ∃ entry, c.groups.get? group = some entry ∧ entry.fields.sectionId = id :=
  sectionOf?_eq_some_iff.1 ((h.groups.mem_iff id group).1 hmem)

theorem layer_of_mem (h : WellFormed c) {id : GroupId} {layer : LayerId}
    (hmem : layer ∈ c.layerIds id) :
    ∃ entry, c.layers.get? layer = some entry ∧ entry.group = id :=
  groupOf?_eq_some_iff.1 ((h.layers.mem_iff id layer).1 hmem)

/-! ## Creation -/

theorem createSection (h : WellFormed c) {id : SectionId} {fields : SectionFields}
    {record : SectionRecord} (hnew : c.sections.get? id = none)
    (hok : c.createSection id fields = .ok (record, after)) : WellFormed after := by
  rcases createSection_eq_ok hok with ⟨-, -, rfl⟩
  have hid : id ∉ c.order := by
    simp [h.mem_order_iff, hnew]
  refine ⟨?_, ?_, ?_, h.layers⟩
  · refine List.nodup_append.2 ⟨h.order_nodup, by simp, ?_⟩
    intro s hs other hother heq
    rw [List.mem_singleton] at hother
    exact hid (hother ▸ heq ▸ hs)
  · intro s
    rw [List.mem_append, h.mem_order, Table.contains_insert, List.mem_singleton, Bool.or_eq_true,
      decide_eq_true_eq, or_comm, eq_comm]
  · refine h.groups.congr ?_ fun _ => rfl
    intro s
    rw [groupIds_insert rfl]
    split
    · next hs =>
      rw [← hs, groupIds_of_absent hnew]
    · rfl

theorem createGroup (h : WellFormed c) {id : GroupId} {fields : GroupFields}
    {record : GroupRecord} (hnew : c.groups.get? id = none)
    (hok : c.createGroup id fields = .ok (record, after)) : WellFormed after := by
  rcases createGroup_eq_ok hok with ⟨-, -, entry, hentry, rfl⟩
  refine ⟨h.order_nodup, ?_, ?_, ?_⟩
  · intro s
    rw [h.mem_order, Table.contains_insert_of_get? hentry]
  · refine h.groups.append fields.sectionId id (by simp [sectionOf?, hnew]) ?_ ?_
    · intro s
      rw [groupIds_insert rfl]
      split
      · next hs =>
        rw [← hs, groupIds_of_get? hentry]
      · rfl
    · intro g
      rw [sectionOf?_insert rfl]
  · refine h.layers.congr ?_ fun _ => rfl
    intro g
    rw [layerIds_insert rfl]
    split
    · next hg =>
      rw [← hg, layerIds_of_absent hnew]
    · rfl

theorem createLayer (h : WellFormed c) {id : LayerId} {group : GroupId} {fields : LayerFields}
    {record : LayerRecord} (hnew : c.layers.get? id = none)
    (hok : c.createLayer id group fields = .ok (record, after)) : WellFormed after := by
  rcases createLayer_eq_ok hok with ⟨-, entry, hentry, -, rfl⟩
  refine ⟨h.order_nodup, h.mem_order, ?_, ?_⟩
  · refine h.groups.congr (fun _ => rfl) ?_
    intro g
    rw [sectionOf?_insert rfl]
    split
    · next hg =>
      rw [← hg, sectionOf?_of_get? hentry]
    · rfl
  · refine h.layers.append group id (by simp [groupOf?, hnew]) ?_ ?_
    · intro g
      rw [layerIds_insert rfl]
      split
      · next hg =>
        rw [← hg, layerIds_of_get? hentry]
      · rfl
    · intro l
      rw [groupOf?_insert rfl]

/-! ## Full replacement -/

theorem replaceSection (h : WellFormed c) {id : SectionId} {fields : SectionFields}
    {record : SectionRecord} (hok : c.replaceSection id fields = .ok (record, after)) :
    WellFormed after := by
  rcases replaceSection_eq_ok hok with ⟨-, -, entry, hentry, rfl⟩
  refine ⟨h.order_nodup, ?_, ?_, h.layers⟩
  · intro s
    rw [h.mem_order, Table.contains_insert_of_get? hentry]
  · refine h.groups.congr ?_ fun _ => rfl
    intro s
    rw [groupIds_insert rfl]
    split
    · next hs =>
      rw [← hs, groupIds_of_get? hentry]
    · rfl

theorem replaceLayer (h : WellFormed c) {id : LayerId} {fields : LayerFields}
    {record : LayerRecord} (hok : c.replaceLayer id fields = .ok (record, after)) :
    WellFormed after := by
  rcases replaceLayer_eq_ok hok with ⟨-, -, entry, hentry, rfl⟩
  refine ⟨h.order_nodup, h.mem_order, h.groups, h.layers.congr (fun _ => rfl) ?_⟩
  intro l
  rw [groupOf?_insert rfl]
  split
  · next hl =>
    rw [← hl, groupOf?_of_get? hentry]
  · rfl

/-- Filtering a group out of the list of its section filters it out of all lists. -/
theorem groupIds_filter (h : WellFormed c) {id : GroupId} {source : SectionId}
    (hsource : c.sectionOf? id = some source)
    (hafter : after.sections = c.sections.modify source fun entry =>
      { entry with groups := entry.groups.filter fun group => decide (group ≠ id) })
    (s : SectionId) :
    after.groupIds s = (c.groupIds s).filter fun group => decide (group ≠ id) := by
  rw [groupIds_modify (List.filter _) rfl hafter fun _ => rfl]
  split
  · rfl
  · next hs =>
    exact (h.groups.filter_of_ne hsource hs).symm

/-- A group that moves leaves all lists and comes behind the groups of its new section. -/
theorem groupIds_moveGroup (h : WellFormed c) {id : GroupId} {source target : SectionId}
    (hsource : c.sectionOf? id = some source) (htarget : c.sections.contains target = true)
    (hne : source ≠ target) (hafter : after.sections = moveGroup c.sections id source target)
    (s : SectionId) :
    after.groupIds s =
      if target = s then (c.groupIds s).filter (fun group => decide (group ≠ id)) ++ [id]
      else (c.groupIds s).filter fun group => decide (group ≠ id) := by
  have hdetached : ∀ s, (c.detachGroup source id).groupIds s =
      (c.groupIds s).filter fun group => decide (group ≠ id) :=
    h.groupIds_filter hsource rfl
  obtain ⟨entry, hentry⟩ :
      ∃ entry, (c.detachGroup source id).sections.get? target = some entry := by
    rw [← Table.contains_iff, detachGroup, Table.contains_modify]
    exact htarget
  have hinsert : after.sections = (c.detachGroup source id).sections.insert target
      { entry with groups := entry.groups ++ [id] } := by
    rw [hafter, c.moveGroup_of_ne id hne]
    exact Table.modify_of_get? hentry _
  rw [groupIds_insert hinsert, ← hdetached]
  split
  · next hs =>
    rw [← hs, groupIds_of_get? hentry]
  · rfl

theorem replaceGroup (h : WellFormed c) {id : GroupId} {fields : GroupFields}
    {record : GroupRecord} (hok : c.replaceGroup id fields = .ok (record, after)) :
    WellFormed after := by
  rcases replaceGroup_eq_ok hok with ⟨-, -, htarget, entry, hentry, hafter⟩
  have hsource := sectionOf?_of_get? hentry
  have hsections : after.sections =
      moveGroup c.sections id entry.fields.sectionId fields.sectionId := by
    rw [hafter]
  have hgroups : after.groups = c.groups.insert id { entry with fields := fields } := by
    rw [hafter]
  have hsectionOf := sectionOf?_insert hgroups
  refine ⟨hafter ▸ h.order_nodup, ?_, ?_, ?_⟩
  · intro s
    rw [hsections, hafter, h.mem_order, moveGroup]
    split
    · rfl
    · rw [Table.contains_modify, Table.contains_modify]
  · by_cases hne : entry.fields.sectionId = fields.sectionId
    · apply h.groups.congr
      · intro s
        unfold groupIds
        rw [hsections, moveGroup, if_pos hne]
      · intro g
        rw [hsectionOf]
        split
        · next hg =>
          rw [← hg, hsource, hne]
        · rfl
    · have hremoved : Linked (fun s => (c.groupIds s).filter fun group => decide (group ≠ id))
          fun g => if id = g then none else c.sectionOf? g :=
        h.groups.remove id (fun _ => rfl) fun _ => rfl
      refine hremoved.append fields.sectionId id (by simp) ?_ ?_
      · exact h.groupIds_moveGroup hsource htarget hne hsections
      · intro g
        rw [hsectionOf]
        split <;> rfl
  · refine h.layers.congr ?_ fun l => by rw [hafter]; rfl
    intro g
    rw [layerIds_insert hgroups]
    split
    · next hg =>
      rw [← hg, layerIds_of_get? hentry]
    · rfl

/-! ## Deletion -/

/-- Groups may be dropped as long as their layers go with them. -/
theorem layers_dropGroups (h : Linked c.layerIds c.groupOf?) (ids : List GroupId) :
    Linked (c.dropGroups ids).2.layerIds (c.dropGroups ids).2.groupOf? := by
  refine h.drop (fun g => decide (g ∈ ids)) ?_ ?_
  · intro g
    simp [dropGroups_layerIds]
  · intro l
    rw [dropGroups_groupOf?]
    cases hl : c.groupOf? l with
    | none =>
        simp
    | some group =>
        have hgone : l ∈ ids.flatMap c.layerIds ↔ group ∈ ids := by
          rw [h.mem_flatMap, hl]
          simp
        by_cases hgroup : group ∈ ids <;>
          simp [hgone, hgroup, Option.filter, -List.mem_flatMap]

theorem deleteSection (h : WellFormed c) {id : SectionId} {counts : Counts}
    (hok : c.deleteSection id = .ok (counts, after)) : WellFormed after := by
  rcases deleteSection_eq_ok hok with ⟨entry, hentry, -, rfl⟩
  have hsame := (c.detachSection id).dropGroups_sections entry.groups
  have hgone : ∀ g, g ∈ entry.groups ↔ c.sectionOf? g = some id := by
    intro g
    rw [← groupIds_of_get? hentry, h.groups.mem_iff]
  refine ⟨?_, ?_, ?_, layers_dropGroups (c := c.detachSection id) h.layers _⟩
  · rw [hsame.2]
    exact h.order_nodup.filter _
  · intro s
    rw [hsame.2, hsame.1, detachSection, List.mem_filter, h.mem_order, Table.contains_erase,
      Bool.and_eq_true, and_comm, decide_eq_true_eq, decide_eq_true_eq, ne_comm]
  · refine h.groups.drop (fun s => decide (id = s)) ?_ ?_
    · intro s
      unfold groupIds
      rw [hsame.1, detachSection, Table.get?_erase]
      by_cases hs : id = s <;> simp [hs]
    · intro g
      have hkept : (c.detachSection id).sectionOf? g = c.sectionOf? g := rfl
      simp only [dropGroups_sectionOf?, hgone, hkept]
      cases hg : c.sectionOf? g with
      | none =>
          simp
      | some s =>
          by_cases hs : id = s
          · simp [hs, Option.filter]
          · simp [hs, Ne.symm hs, Option.filter]

theorem deleteGroup (h : WellFormed c) {id : GroupId} {counts : Counts}
    (hok : c.deleteGroup id = .ok (counts, after)) : WellFormed after := by
  rcases deleteGroup_eq_ok hok with ⟨entry, hentry, -, rfl⟩
  have hsame := (c.detachGroup entry.fields.sectionId id).dropGroups_sections [id]
  refine ⟨?_, ?_, ?_, layers_dropGroups (c := c.detachGroup _ id) h.layers _⟩
  · rw [hsame.2]
    exact h.order_nodup
  · intro s
    rw [hsame.2, hsame.1, detachGroup, Table.contains_modify]
    exact h.mem_order s
  · refine h.groups.remove id ?_ ?_
    · exact h.groupIds_filter (sectionOf?_of_get? hentry) hsame.1
    · intro g
      have hkept : (c.detachGroup entry.fields.sectionId id).sectionOf? g = c.sectionOf? g := rfl
      rw [dropGroups_sectionOf?, hkept]
      by_cases hg : id = g
      · simp [hg]
      · simp [hg, Ne.symm hg]

theorem deleteLayer (h : WellFormed c) {id : LayerId} {counts : Counts}
    (hok : c.deleteLayer id = .ok (counts, after)) : WellFormed after := by
  rcases deleteLayer_eq_ok hok with ⟨-, entry, hentry, rfl⟩
  refine ⟨h.order_nodup, h.mem_order, ?_, ?_⟩
  · refine h.groups.congr (fun _ => rfl) ?_
    exact sectionOf?_modify rfl fun _ => rfl
  · refine h.layers.remove id ?_ ?_
    · intro g
      rw [layerIds_modify (List.filter _) rfl rfl fun _ => rfl]
      split
      · rfl
      · next hg =>
        exact (h.layers.filter_of_ne (groupOf?_of_get? hentry) hg).symm
    · intro l
      unfold groupOf?
      rw [Table.get?_erase]
      split <;> rfl

/-! ## Moves -/

theorem moveLayer (h : WellFormed c) {id : LayerId} {direction : Direction}
    {expected : Option Nat} {moved : Moved}
    (hok : c.moveLayer id direction expected = .ok (moved, after)) : WellFormed after := by
  rcases moveLayer_eq_ok hok with ⟨entry, group, position, -, hgroup, -, -, hmove⟩
  obtain ⟨-, -, rfl⟩ | ⟨neighbour, -, -, rfl⟩ := hmove
  · exact h
  · refine ⟨h.order_nodup, h.mem_order, ?_, ?_⟩
    · refine h.groups.congr (fun _ => rfl) ?_
      intro g
      rw [sectionOf?_insert rfl]
      split
      · next hg =>
        rw [← hg, sectionOf?_of_get? hgroup]
      · rfl
    · refine h.layers.perm ?_ fun _ => rfl
      intro g
      rw [layerIds_insert rfl]
      split
      · next hg =>
        rw [← hg, layerIds_of_get? hgroup]
        exact exchange_perm _ _
      · exact List.Perm.refl _

end WellFormed

end Catalog

end MapCatalog
