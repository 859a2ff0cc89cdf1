import MapCatalog.Catalog.Operation
import MapCatalog.Proofs.Catalog.Links

/-! # What an operation does

For every operation there is a lemma that says when it succeeds and with which catalogue, and lemmas that say what it
does to the lists of children and the pointers to parents.
-/

namespace MapCatalog

namespace Catalog

/-! ## Links -/

def groupIds (c : Catalog) (id : SectionId) : List GroupId :=
  match c.sections.get? id with
  | some entry => entry.groups
  | none => []

def layerIds (c : Catalog) (id : GroupId) : List LayerId :=
  match c.groups.get? id with
  | some entry => entry.layers
  | none => []

def sectionOf? (c : Catalog) (id : GroupId) : Option SectionId :=
  (c.groups.get? id).map fun entry => entry.fields.sectionId

def groupOf? (c : Catalog) (id : LayerId) : Option GroupId :=
  (c.layers.get? id).map LayerEntry.group

theorem groupIds_of_get? {c : Catalog} {id : SectionId} {entry : SectionEntry}
    (h : c.sections.get? id = some entry) : c.groupIds id = entry.groups := by
  simp [groupIds, h]

theorem layerIds_of_get? {c : Catalog} {id : GroupId} {entry : GroupEntry}
    (h : c.groups.get? id = some entry) : c.layerIds id = entry.layers := by
  simp [layerIds, h]

theorem sectionOf?_of_get? {c : Catalog} {id : GroupId} {entry : GroupEntry}
    (h : c.groups.get? id = some entry) : c.sectionOf? id = some entry.fields.sectionId := by
  simp [sectionOf?, h]

theorem groupOf?_of_get? {c : Catalog} {id : LayerId} {entry : LayerEntry}
    (h : c.layers.get? id = some entry) : c.groupOf? id = some entry.group := by
  simp [groupOf?, h]

theorem groupIds_of_absent {c : Catalog} {id : SectionId} (h : c.sections.get? id = none) :
    c.groupIds id = [] := by
  simp [groupIds, h]

theorem layerIds_of_absent {c : Catalog} {id : GroupId} (h : c.groups.get? id = none) :
    c.layerIds id = [] := by
  simp [layerIds, h]

theorem mem_groupIds_iff {c : Catalog} {id : SectionId} {group : GroupId} :
    group ∈ c.groupIds id ↔ ∃ entry, c.sections.get? id = some entry ∧ group ∈ entry.groups := by
  unfold groupIds
  cases c.sections.get? id <;> simp

theorem mem_layerIds_iff {c : Catalog} {id : GroupId} {layer : LayerId} :
    layer ∈ c.layerIds id ↔ ∃ entry, c.groups.get? id = some entry ∧ layer ∈ entry.layers := by
  unfold layerIds
  cases c.groups.get? id <;> simp

theorem sectionOf?_eq_some_iff {c : Catalog} {id : GroupId} {parent : SectionId} :
    c.sectionOf? id = some parent ↔
      ∃ entry, c.groups.get? id = some entry ∧ entry.fields.sectionId = parent :=
  Option.map_eq_some_iff

theorem groupOf?_eq_some_iff {c : Catalog} {id : LayerId} {group : GroupId} :
    c.groupOf? id = some group ↔ ∃ entry, c.layers.get? id = some entry ∧ entry.group = group :=
  Option.map_eq_some_iff

section Links

variable {c after : Catalog}

theorem groupIds_insert {id : SectionId} {entry : SectionEntry}
    (h : after.sections = c.sections.insert id entry) (other : SectionId) :
    after.groupIds other = if id = other then entry.groups else c.groupIds other := by
  unfold groupIds
  rw [h, Table.get?_insert]
  by_cases ho : id = other <;> simp [ho]

theorem sectionOf?_insert {id : GroupId} {entry : GroupEntry}
    (h : after.groups = c.groups.insert id entry) (other : GroupId) :
    after.sectionOf? other =
      if id = other then some entry.fields.sectionId else c.sectionOf? other := by
  unfold sectionOf?
  rw [h, Table.get?_insert]
  by_cases ho : id = other <;> simp [ho]

theorem layerIds_insert {id : GroupId} {entry : GroupEntry}
    (h : after.groups = c.groups.insert id entry) (other : GroupId) :
    after.layerIds other = if id = other then entry.layers else c.layerIds other := by
  unfold layerIds
  rw [h, Table.get?_insert]
  by_cases ho : id = other <;> simp [ho]

theorem groupOf?_insert {id : LayerId} {entry : LayerEntry}
    (h : after.layers = c.layers.insert id entry) (other : LayerId) :
    after.groupOf? other = if id = other then some entry.group else c.groupOf? other := by
  unfold groupOf?
  rw [h, Table.get?_insert]
  by_cases ho : id = other <;> simp [ho]

theorem groupIds_modify {id : SectionId} {change : SectionEntry → SectionEntry}
    (f : List GroupId → List GroupId) (hnil : f [] = [])
    (h : after.sections = c.sections.modify id change)
    (hchange : ∀ entry, (change entry).groups = f entry.groups) (other : SectionId) :
    after.groupIds other = if id = other then f (c.groupIds other) else c.groupIds other := by
  unfold groupIds
  rw [h, Table.get?_modify]
  by_cases ho : id = other
  · subst ho
    cases c.sections.get? id <;> simp [hnil, hchange]
  · simp [ho]

theorem layerIds_modify {id : GroupId} {change : GroupEntry → GroupEntry}
    (f : List LayerId → List LayerId) (hnil : f [] = [])
    (h : after.groups = c.groups.modify id change)
    (hchange : ∀ entry, (change entry).layers = f entry.layers) (other : GroupId) :
    after.layerIds other = if id = other then f (c.layerIds other) else c.layerIds other := by
  unfold layerIds
  rw [h, Table.get?_modify]
  by_cases ho : id = other
  · subst ho
    cases c.groups.get? id <;> simp [hnil, hchange]
  · simp [ho]

theorem sectionOf?_modify {id : GroupId} {change : GroupEntry → GroupEntry}
    (h : after.groups = c.groups.modify id change)
    (hchange : ∀ entry, (change entry).fields = entry.fields) (other : GroupId) :
    after.sectionOf? other = c.sectionOf? other := by
  unfold sectionOf?
  rw [h, Table.get?_modify]
  by_cases ho : id = other
  · subst ho
    simp [hchange, Function.comp_def]
  · simp [ho]

end Links

/-! ## Success -/

theorem createSection_eq_ok {c after : Catalog} {id : SectionId} {fields : SectionFields}
    {record : SectionRecord} (h : c.createSection id fields = .ok (record, after)) :
    fields.validate = .ok () ∧ record = ⟨id, fields⟩ ∧
      after = { c with
        sections := c.sections.insert id ⟨fields, []⟩
        order := c.order ++ [id] } := by
  unfold createSection at h
  split at h
  · cases h
  · cases h
    exact ⟨by assumption, rfl, rfl⟩

theorem createGroup_eq_ok {c after : Catalog} {id : GroupId} {fields : GroupFields}
    {record : GroupRecord} (h : c.createGroup id fields = .ok (record, after)) :
    fields.validate = .ok () ∧ record = ⟨id, fields⟩ ∧
      ∃ entry, c.sections.get? fields.sectionId = some entry ∧
        after = { c with
          sections := c.sections.insert fields.sectionId
            { entry with groups := entry.groups ++ [id] }
          groups := c.groups.insert id ⟨fields, [], 0⟩ } := by
  unfold createGroup at h
  split at h
  · cases h
  · split at h
    · cases h
    · next entry hentry =>
      cases h
      exact ⟨by assumption, rfl, entry, hentry, rfl⟩

theorem createLayer_eq_ok {c after : Catalog} {id : LayerId} {group : GroupId}
    {fields : LayerFields} {record : LayerRecord}
    (h : c.createLayer id group fields = .ok (record, after)) :
    fields.validate = .ok () ∧
      ∃ entry, c.groups.get? group = some entry ∧
        record = ⟨id, group, place entry.layers.length, fields⟩ ∧
        after = { c with
          groups := c.groups.insert group
            { entry with layers := entry.layers ++ [id], revision := entry.revision + 1 }
          layers := c.layers.insert id ⟨group, fields⟩ } := by
  unfold createLayer at h
  split at h
  · cases h
  · split at h
    · cases h
    · next entry hentry =>
      cases h
      exact ⟨by assumption, entry, hentry, rfl, rfl⟩

theorem replaceSection_eq_ok {c after : Catalog} {id : SectionId} {fields : SectionFields}
    {record : SectionRecord} (h : c.replaceSection id fields = .ok (record, after)) :
    fields.validate = .ok () ∧ record = ⟨id, fields⟩ ∧
      ∃ entry, c.sections.get? id = some entry ∧
        after = { c with sections := c.sections.insert id { entry with fields := fields } } := by
  unfold replaceSection at h
  split at h
  · cases h
  · split at h
    · cases h
    · next entry hentry =>
      cases h
      exact ⟨by assumption, rfl, entry, hentry, rfl⟩

theorem replaceGroup_eq_ok {c after : Catalog} {id : GroupId} {fields : GroupFields}
    {record : GroupRecord} (h : c.replaceGroup id fields = .ok (record, after)) :
    fields.validate = .ok () ∧ record = ⟨id, fields⟩ ∧
      c.sections.contains fields.sectionId = true ∧
      ∃ entry, c.groups.get? id = some entry ∧
        after = { c with
          sections := moveGroup c.sections id entry.fields.sectionId fields.sectionId
          groups := c.groups.insert id { entry with fields := fields } } := by
  unfold replaceGroup at h
  split at h
  · cases h
  · split at h
    · cases h
    · next entry hentry =>
      split at h
      · next htarget =>
        cases h
        exact ⟨by assumption, rfl, htarget, entry, hentry, rfl⟩
      · cases h

theorem replaceLayer_eq_ok {c after : Catalog} {id : LayerId} {fields : LayerFields}
    {record : LayerRecord} (h : c.replaceLayer id fields = .ok (record, after)) :
    fields.validate = .ok () ∧ after.layer? id = some record ∧
      ∃ entry, c.layers.get? id = some entry ∧
        after = { c with layers := c.layers.insert id { entry with fields := fields } } := by
  unfold replaceLayer at h
  split at h
  · cases h
  · split at h
    · cases h
    · next entry hentry =>
      dsimp only at h
      split at h
      · cases h
      · next layer hlayer =>
        cases h
        exact ⟨by assumption, hlayer, entry, hentry, rfl⟩

/-- The catalogue without a section, whose groups stay in their table. -/
def detachSection (c : Catalog) (id : SectionId) : Catalog :=
  { c with
    sections := c.sections.erase id
    order := c.order.filter fun other => decide (other ≠ id) }

/-- The catalogue in which a section no longer lists a group, which stays in its table. -/
def detachGroup (c : Catalog) (parent : SectionId) (id : GroupId) : Catalog :=
  { c with
    sections := c.sections.modify parent fun entry =>
      { entry with groups := entry.groups.filter fun group => decide (group ≠ id) } }

/-- A group that moves is taken out of one list and put at the end of another. -/
theorem moveGroup_of_ne (c : Catalog) (id : GroupId) {source target : SectionId}
    (h : source ≠ target) :
    moveGroup c.sections id source target =
      (c.detachGroup source id).sections.modify target fun entry =>
        { entry with groups := entry.groups ++ [id] } :=
  if_neg h

theorem deleteSection_eq_ok {c after : Catalog} {id : SectionId} {counts : Counts}
    (h : c.deleteSection id = .ok (counts, after)) :
    ∃ entry, c.sections.get? id = some entry ∧
      counts = ⟨1, entry.groups.length, ((c.detachSection id).dropGroups entry.groups).1⟩ ∧
      after = ((c.detachSection id).dropGroups entry.groups).2 := by
  unfold deleteSection at h
  split at h
  · cases h
  · next entry hentry =>
    cases h
    exact ⟨entry, hentry, rfl, rfl⟩

theorem deleteGroup_eq_ok {c after : Catalog} {id : GroupId} {counts : Counts}
    (h : c.deleteGroup id = .ok (counts, after)) :
    ∃ entry, c.groups.get? id = some entry ∧
      counts = ⟨0, 1, ((c.detachGroup entry.fields.sectionId id).dropGroups [id]).1⟩ ∧
      after = ((c.detachGroup entry.fields.sectionId id).dropGroups [id]).2 := by
  unfold deleteGroup at h
  split at h
  · cases h
  · next entry hentry =>
    cases h
    exact ⟨entry, hentry, rfl, rfl⟩

theorem deleteLayer_eq_ok {c after : Catalog} {id : LayerId} {counts : Counts}
    (h : c.deleteLayer id = .ok (counts, after)) :
    counts = ⟨0, 0, 1⟩ ∧
      ∃ entry, c.layers.get? id = some entry ∧
        after = { c with
          layers := c.layers.erase id
          groups := c.groups.modify entry.group fun group =>
            { group with
              layers := group.layers.filter fun layer => decide (layer ≠ id)
              revision := group.revision + 1 } } := by
  unfold deleteLayer at h
  split at h
  · cases h
  · next entry hentry =>
    cases h
    exact ⟨rfl, entry, hentry, rfl⟩

/-- A move that succeeds finds the layer in its group, at the revision that the caller expects; at the
edge it changes nothing, and elsewhere it exchanges two neighbours. -/
theorem moveLayer_eq_ok {c after : Catalog} {id : LayerId} {direction : Direction}
    {expected : Option Nat} {moved : Moved}
    (h : c.moveLayer id direction expected = .ok (moved, after)) :
    ∃ entry group position, c.layers.get? id = some entry ∧
      c.groups.get? entry.group = some group ∧
      expected.getD group.revision = group.revision ∧
      position? id group.layers = some position ∧
      ((neighbour? direction position group.layers.length = none ∧
          moved = .unchanged (place position) group.revision ∧ after = c) ∨
        ∃ neighbour, neighbour? direction position group.layers.length = some neighbour ∧
          moved = .moved (place position) (place neighbour) (group.revision + 1) ∧
          after = { c with
            groups := c.groups.insert entry.group
              { group with
                layers := exchange (min position neighbour) group.layers
                revision := group.revision + 1 } }) := by
  unfold moveLayer at h
  split at h
  · cases h
  · next entry hentry =>
    split at h
    · cases h
    · next group hgroup =>
      split at h
      · cases h
      · next hexpected =>
        split at h
        · cases h
        · next position hposition =>
          refine ⟨entry, group, position, hentry, hgroup, not_ne_iff.1 hexpected, hposition, ?_⟩
          split at h
          · next hedge =>
            cases h
            exact .inl ⟨hedge, rfl, rfl⟩
          · next neighbour hneighbour =>
            cases h
            exact .inr ⟨neighbour, hneighbour, rfl, rfl⟩

/-! ## Dropping groups -/

theorem get?_foldl_erase {κ α : Type} [DecidableEq κ] (table : Table κ α) (keys : List κ)
    (other : κ) :
    (keys.foldl (fun table key => table.erase key) table).get? other =
      if other ∈ keys then none else table.get? other := by
  induction keys generalizing table with
  | nil =>
      simp
  | cons key rest ih =>
      rw [List.foldl_cons, ih, Table.get?_erase]
      by_cases hkey : key = other
      · simp [hkey]
      · simp [hkey, Ne.symm hkey]

theorem dropGroup_sections (c : Catalog) (id : GroupId) :
    (c.dropGroup id).2.sections = c.sections ∧ (c.dropGroup id).2.order = c.order := by
  unfold dropGroup
  split <;> exact ⟨rfl, rfl⟩

theorem dropGroup_groups (c : Catalog) (id other : GroupId) :
    (c.dropGroup id).2.groups.get? other = if id = other then none else c.groups.get? other := by
  unfold dropGroup
  cases h : c.groups.get? id with
  | none =>
      by_cases ho : id = other
      · subst ho
        simp [h]
      · simp [ho]
  | some entry =>
      exact Table.get?_erase _ _ _

theorem dropGroup_layers (c : Catalog) (id : GroupId) (layer : LayerId) :
    (c.dropGroup id).2.layers.get? layer =
      if layer ∈ c.layerIds id then none else c.layers.get? layer := by
  unfold dropGroup layerIds
  cases h : c.groups.get? id with
  | none =>
      simp
  | some entry =>
      exact get?_foldl_erase _ _ _

theorem dropGroup_layerIds (c : Catalog) (id other : GroupId) :
    (c.dropGroup id).2.layerIds other = if id = other then [] else c.layerIds other := by
  unfold layerIds
  rw [dropGroup_groups]
  by_cases h : id = other <;> simp [h]

theorem dropGroups_sections (c : Catalog) (ids : List GroupId) :
    (c.dropGroups ids).2.sections = c.sections ∧ (c.dropGroups ids).2.order = c.order := by
  induction ids generalizing c with
  | nil =>
      exact ⟨rfl, rfl⟩
  | cons id rest ih =>
      have hrest := ih (c.dropGroup id).2
      have hfirst := c.dropGroup_sections id
      exact ⟨hrest.1.trans hfirst.1, hrest.2.trans hfirst.2⟩

theorem dropGroups_groups (c : Catalog) (ids : List GroupId) (other : GroupId) :
    (c.dropGroups ids).2.groups.get? other =
      if other ∈ ids then none else c.groups.get? other := by
  induction ids generalizing c with
  | nil =>
      simp [dropGroups]
  | cons id rest ih =>
      have hrest := ih (c.dropGroup id).2
      rw [dropGroup_groups] at hrest
      apply hrest.trans
      by_cases hid : id = other
      · simp [hid]
      · simp [hid, Ne.symm hid]

theorem dropGroups_layers (c : Catalog) (ids : List GroupId) (layer : LayerId) :
    (c.dropGroups ids).2.layers.get? layer =
      if layer ∈ ids.flatMap c.layerIds then none else c.layers.get? layer := by
  induction ids generalizing c with
  | nil =>
      simp [dropGroups]
  | cons id rest ih =>
      have hrest := ih (c.dropGroup id).2
      rw [dropGroup_layers] at hrest
      apply hrest.trans
      by_cases hlayer : layer ∈ c.layerIds id
      · simp [hlayer]
      · -- the layers of the first group are gone already, and no other list has changed
        have hsame : layer ∈ rest.flatMap (c.dropGroup id).2.layerIds ↔
            layer ∈ rest.flatMap c.layerIds := by
          simp only [List.mem_flatMap, dropGroup_layerIds]
          apply exists_congr
          intro group
          apply and_congr_right
          intro _
          split
          · next heq =>
            simp [← heq, hlayer]
          · rfl
        simp [hlayer, hsame, -List.mem_flatMap]

theorem dropGroups_layerIds (c : Catalog) (ids : List GroupId) (other : GroupId) :
    (c.dropGroups ids).2.layerIds other = if other ∈ ids then [] else c.layerIds other := by
  unfold layerIds
  rw [dropGroups_groups]
  by_cases h : other ∈ ids <;> simp [h]

theorem dropGroups_sectionOf? (c : Catalog) (ids : List GroupId) (other : GroupId) :
    (c.dropGroups ids).2.sectionOf? other = if other ∈ ids then none else c.sectionOf? other := by
  unfold sectionOf?
  rw [dropGroups_groups]
  by_cases h : other ∈ ids <;> simp [h]

theorem dropGroups_groupOf? (c : Catalog) (ids : List GroupId) (layer : LayerId) :
    (c.dropGroups ids).2.groupOf? layer =
      if layer ∈ ids.flatMap c.layerIds then none else c.groupOf? layer := by
  unfold groupOf?
  rw [dropGroups_layers]
  by_cases h : layer ∈ ids.flatMap c.layerIds <;> simp [h, -List.mem_flatMap]

theorem contains_moveGroup (sections : Table SectionId SectionEntry) (id : GroupId)
    (source target other : SectionId) :
    (moveGroup sections id source target).contains other = sections.contains other := by
  unfold moveGroup
  split
  · rfl
  · rw [Table.contains_modify, Table.contains_modify]

theorem contains_dropGroups_groups (c : Catalog) (ids : List GroupId) (other : GroupId) :
    (c.dropGroups ids).2.groups.contains other =
      (decide (other ∉ ids) && c.groups.contains other) := by
  unfold Table.contains
  rw [dropGroups_groups]
  by_cases h : other ∈ ids <;> simp [h]

theorem contains_dropGroups_layers (c : Catalog) (ids : List GroupId) (other : LayerId) :
    (c.dropGroups ids).2.layers.contains other =
      (decide (other ∉ ids.flatMap c.layerIds) && c.layers.contains other) := by
  unfold Table.contains
  rw [dropGroups_layers]
  by_cases h : other ∈ ids.flatMap c.layerIds <;> simp [h, -List.mem_flatMap]

end Catalog

end MapCatalog
