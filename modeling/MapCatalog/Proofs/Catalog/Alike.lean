import MapCatalog.Proofs.Catalog.WellFormed
import MapCatalog.Proofs.Catalog.History

/-! # Catalogues that differ in revisions only

All that readers are shown of alike catalogues is the same, and every operation that expects no revision does the same
to both.
-/

namespace MapCatalog

def GroupEntry.shown (entry : GroupEntry) : GroupFields × List LayerId :=
  (entry.fields, entry.layers)

namespace Catalog

/-- The same records in the same order, whatever the revisions. -/
structure Alike (left right : Catalog) : Prop where
  order : left.order = right.order
  sections : ∀ id, left.sections.get? id = right.sections.get? id
  groups : ∀ id,
    (left.groups.get? id).map GroupEntry.shown = (right.groups.get? id).map GroupEntry.shown
  layers : ∀ id, left.layers.get? id = right.layers.get? id

/-- Answers that tell the same, but for the revision that a move reports. -/
inductive AnswersAlike : Answer → Answer → Prop where
  | same (answer : Answer) : AnswersAlike answer answer
  | moved {left right : Moved} (hchanged : left.changed = right.changed)
      (htarget : left.target = right.target) : AnswersAlike (.moved left) (.moved right)

inductive EditsAlike : Edit Answer → Edit Answer → Prop where
  | failed (e : CatalogError) : EditsAlike (.error e) (.error e)
  | done {answer other : Answer} {left right : Catalog} (hanswer : AnswersAlike answer other)
      (hcatalog : Alike left right) : EditsAlike (.ok (answer, left)) (.ok (other, right))

namespace Alike

theorem refl (c : Catalog) : Alike c c :=
  ⟨rfl, fun _ => rfl, fun _ => rfl, fun _ => rfl⟩

variable {left right : Catalog}

/-- A group is stored in neither, or with the same fields and layers in both. -/
theorem group_cases (h : Alike left right) (id : GroupId) :
    (left.groups.get? id = none ∧ right.groups.get? id = none) ∨
      ∃ fields layers revision other, left.groups.get? id = some ⟨fields, layers, revision⟩ ∧
        right.groups.get? id = some ⟨fields, layers, other⟩ := by
  have hshown := h.groups id
  cases hleft : left.groups.get? id with
  | none =>
      rw [hleft, Option.map_none, eq_comm, Option.map_eq_none_iff] at hshown
      exact .inl ⟨rfl, hshown⟩
  | some entry =>
      rw [hleft, Option.map_some, eq_comm, Option.map_eq_some_iff] at hshown
      obtain ⟨other, hright, hsame⟩ := hshown
      obtain ⟨fields, layers, revision⟩ := entry
      obtain ⟨fields', layers', revision'⟩ := other
      cases hsame
      exact .inr ⟨fields, layers, revision, revision', rfl, hright⟩

/-! ## Reads -/

theorem layerAt (h : Alike left right) (id : LayerId) (position : Nat) :
    left.layerAt id position = right.layerAt id position := by
  rw [Catalog.layerAt, Catalog.layerAt, h.layers]

theorem layersFrom (h : Alike left right) (position : Nat) (ids : List LayerId) :
    left.layersFrom position ids = right.layersFrom position ids := by
  induction ids generalizing position with
  | nil =>
      rfl
  | cons id rest ih =>
      rw [Catalog.layersFrom, Catalog.layersFrom, h.layerAt, ih]

theorem layer? (h : Alike left right) (id : LayerId) : left.layer? id = right.layer? id := by
  rw [Catalog.layer?, Catalog.layer?, h.layers]
  cases right.layers.get? id with
  | none =>
      rfl
  | some entry =>
      rcases h.group_cases entry.group with ⟨hleft, hright⟩ | ⟨_, layers, _, _, hleft, hright⟩
      · simp only [hleft, hright]
      · simp only [hleft, hright, h.layerAt]

theorem groupTree? (h : Alike left right) (depth : Nat) (id : GroupId) :
    left.groupTree? depth id = right.groupTree? depth id := by
  rcases h.group_cases id with ⟨hleft, hright⟩ | ⟨_, _, _, _, hleft, hright⟩
  · simp only [Catalog.groupTree?, hleft, hright]
    rfl
  · simp only [Catalog.groupTree?, hleft, hright, Option.map_some, h.layersFrom]

theorem sectionTree? (h : Alike left right) (depth : Nat) (id : SectionId) :
    left.sectionTree? depth id = right.sectionTree? depth id := by
  have htrees : left.groupTree? (depth - 1) = right.groupTree? (depth - 1) :=
    funext (h.groupTree? (depth - 1))
  rw [Catalog.sectionTree?, Catalog.sectionTree?, h.sections, htrees]

theorem trees (h : Alike left right) : left.trees = right.trees := by
  have hsections : left.sectionTree? fullDepth = right.sectionTree? fullDepth :=
    funext (h.sectionTree? fullDepth)
  rw [Catalog.trees, Catalog.trees, h.order, hsections]

theorem snapshot (h : Alike left right) : left.snapshot = right.snapshot := by
  rw [Catalog.snapshot, Catalog.snapshot, h.trees]

/-! ## Well-formedness -/

theorem groupIds (h : Alike left right) : left.groupIds = right.groupIds := by
  funext id
  rw [Catalog.groupIds, Catalog.groupIds, h.sections]

theorem layerIds (h : Alike left right) : left.layerIds = right.layerIds := by
  funext id
  rcases h.group_cases id with ⟨hleft, hright⟩ | ⟨_, _, _, _, hleft, hright⟩
  · rw [layerIds_of_absent hleft, layerIds_of_absent hright]
  · rw [layerIds_of_get? hleft, layerIds_of_get? hright]

theorem sectionOf? (h : Alike left right) : left.sectionOf? = right.sectionOf? := by
  funext id
  rcases h.group_cases id with ⟨hleft, hright⟩ | ⟨_, _, _, _, hleft, hright⟩
  · simp only [Catalog.sectionOf?, hleft, hright]
  · rw [sectionOf?_of_get? hleft, sectionOf?_of_get? hright]

theorem groupOf? (h : Alike left right) : left.groupOf? = right.groupOf? := by
  funext id
  rw [Catalog.groupOf?, Catalog.groupOf?, h.layers]

theorem wellFormed (h : Alike left right) (hleft : WellFormed left) : WellFormed right := by
  refine ⟨h.order ▸ hleft.order_nodup, ?_, ?_, ?_⟩
  · intro id
    rw [← h.order, hleft.mem_order id, Table.contains, Table.contains, h.sections]
  · exact h.groupIds ▸ h.sectionOf? ▸ hleft.groups
  · exact h.layerIds ▸ h.groupOf? ▸ hleft.layers

/-! ## Changes -/

theorem changeSections (h : Alike left right) {sections other : Table SectionId SectionEntry}
    (hsections : ∀ id, sections.get? id = other.get? id) :
    Alike { left with sections := sections } { right with sections := other } :=
  ⟨h.order, hsections, h.groups, h.layers⟩

theorem changeOrder (h : Alike left right) (change : List SectionId → List SectionId) :
    Alike { left with order := change left.order } { right with order := change right.order } :=
  ⟨congrArg change h.order, h.sections, h.groups, h.layers⟩

theorem insertSection (h : Alike left right) (id : SectionId) (entry : SectionEntry) :
    Alike { left with sections := left.sections.insert id entry }
      { right with sections := right.sections.insert id entry } := by
  apply h.changeSections
  intro other
  rw [Table.get?_insert, Table.get?_insert, h.sections]

theorem eraseSection (h : Alike left right) (id : SectionId) :
    Alike { left with sections := left.sections.erase id }
      { right with sections := right.sections.erase id } := by
  apply h.changeSections
  intro other
  rw [Table.get?_erase, Table.get?_erase, h.sections]

theorem modifySection (h : Alike left right) (id : SectionId)
    (change : SectionEntry → SectionEntry) :
    Alike { left with sections := left.sections.modify id change }
      { right with sections := right.sections.modify id change } := by
  apply h.changeSections
  intro other
  rw [Table.get?_modify, Table.get?_modify, h.sections, h.sections]

theorem insertGroup (h : Alike left right) (id : GroupId) (entry other : GroupEntry)
    (hshown : entry.shown = other.shown) :
    Alike { left with groups := left.groups.insert id entry }
      { right with groups := right.groups.insert id other } := by
  refine ⟨h.order, h.sections, fun group => ?_, h.layers⟩
  rw [Table.get?_insert, Table.get?_insert]
  by_cases hid : id = group
  · simp only [if_pos hid, Option.map_some, hshown]
  · simp only [if_neg hid, h.groups]

theorem insertLayer (h : Alike left right) (id : LayerId) (entry : LayerEntry) :
    Alike { left with layers := left.layers.insert id entry }
      { right with layers := right.layers.insert id entry } := by
  refine ⟨h.order, h.sections, h.groups, fun layer => ?_⟩
  rw [Table.get?_insert, Table.get?_insert, h.layers]

theorem dropGroup (h : Alike left right) (id : GroupId) :
    (left.dropGroup id).1 = (right.dropGroup id).1 ∧
      Alike (left.dropGroup id).2 (right.dropGroup id).2 := by
  rcases h.group_cases id with ⟨hleft, hright⟩ | ⟨_, layers, _, _, hleft, hright⟩
  · simp only [Catalog.dropGroup, hleft, hright]
    exact ⟨trivial, h⟩
  · simp only [Catalog.dropGroup, hleft, hright]
    refine ⟨trivial, h.order, h.sections, fun group => ?_, fun layer => ?_⟩
    · rw [Table.get?_erase, Table.get?_erase]
      by_cases hid : id = group
      · simp only [if_pos hid]
      · simp only [if_neg hid, h.groups]
    · rw [get?_foldl_erase, get?_foldl_erase, h.layers]

theorem dropGroups (h : Alike left right) (ids : List GroupId) :
    (left.dropGroups ids).1 = (right.dropGroups ids).1 ∧
      Alike (left.dropGroups ids).2 (right.dropGroups ids).2 := by
  induction ids generalizing left right with
  | nil =>
      exact ⟨rfl, h⟩
  | cons id rest ih =>
      obtain ⟨hfirst, hdropped⟩ := h.dropGroup id
      obtain ⟨hrest, halike⟩ := ih hdropped
      exact ⟨congrArg₂ (· + ·) hfirst hrest, halike⟩

/-! ## Operations -/

theorem createSection (h : Alike left right) (id : SectionId) (fields : SectionFields) :
    EditsAlike ((left.createSection id fields).as .aSection)
      ((right.createSection id fields).as .aSection) := by
  rw [Catalog.createSection, Catalog.createSection]
  cases fields.validate with
  | error e =>
      exact .failed (.invalid e)
  | ok _ =>
      exact .done (.same _) ((h.insertSection id ⟨fields, []⟩).changeOrder (· ++ [id]))

theorem createGroup (h : Alike left right) (id : GroupId) (fields : GroupFields) :
    EditsAlike ((left.createGroup id fields).as .aGroup)
      ((right.createGroup id fields).as .aGroup) := by
  rw [Catalog.createGroup, Catalog.createGroup, h.sections]
  cases fields.validate with
  | error e =>
      exact .failed (.invalid e)
  | ok _ =>
      cases right.sections.get? fields.sectionId with
      | none =>
          exact .failed (.notFound .sections fields.sectionId)
      | some entry =>
          exact .done (.same _) ((h.insertSection fields.sectionId
            { entry with groups := entry.groups ++ [id] }).insertGroup id _ _ rfl)

theorem createLayer (h : Alike left right) (id : LayerId) (group : GroupId)
    (fields : LayerFields) :
    EditsAlike ((left.createLayer id group fields).as .aLayer)
      ((right.createLayer id group fields).as .aLayer) := by
  rw [Catalog.createLayer, Catalog.createLayer]
  cases fields.validate with
  | error e =>
      exact .failed (.invalid e)
  | ok _ =>
      rcases h.group_cases group with
        ⟨hleft, hright⟩ | ⟨old, layers, revision, other, hleft, hright⟩
      · simp only [hleft, hright]
        exact .failed (.notFound .groups group)
      · simp only [hleft, hright]
        have hlisted := h.insertGroup group ⟨old, layers ++ [id], revision + 1⟩
          ⟨old, layers ++ [id], other + 1⟩ rfl
        exact .done (.same _) (hlisted.insertLayer id ⟨group, fields⟩)

theorem replaceSection (h : Alike left right) (id : SectionId) (fields : SectionFields) :
    EditsAlike ((left.replaceSection id fields).as .aSection)
      ((right.replaceSection id fields).as .aSection) := by
  rw [Catalog.replaceSection, Catalog.replaceSection, h.sections]
  cases fields.validate with
  | error e =>
      exact .failed (.invalid e)
  | ok _ =>
      cases right.sections.get? id with
      | none =>
          exact .failed (.notFound .sections id)
      | some entry =>
          exact .done (.same _) (h.insertSection id { entry with fields := fields })

theorem moveGroup (h : Alike left right) (id : GroupId) (source target : SectionId)
    (other : SectionId) :
    (Catalog.moveGroup left.sections id source target).get? other =
      (Catalog.moveGroup right.sections id source target).get? other := by
  by_cases hsame : source = target
  · rw [Catalog.moveGroup, Catalog.moveGroup, if_pos hsame, if_pos hsame, h.sections]
  · have hwithout := h.modifySection source fun entry =>
      { entry with groups := entry.groups.filter fun group => decide (group ≠ id) }
    have hwith := hwithout.modifySection target fun entry =>
      { entry with groups := entry.groups ++ [id] }
    rw [Catalog.moveGroup, Catalog.moveGroup, if_neg hsame, if_neg hsame]
    exact hwith.sections other

theorem replaceGroup (h : Alike left right) (id : GroupId) (fields : GroupFields) :
    EditsAlike ((left.replaceGroup id fields).as .aGroup)
      ((right.replaceGroup id fields).as .aGroup) := by
  rw [Catalog.replaceGroup, Catalog.replaceGroup, Table.contains, Table.contains, h.sections]
  cases fields.validate with
  | error e =>
      exact .failed (.invalid e)
  | ok _ =>
      rcases h.group_cases id with ⟨hleft, hright⟩ | ⟨old, layers, _, _, hleft, hright⟩
      · simp only [hleft, hright]
        exact .failed (.notFound .groups id)
      · simp only [hleft, hright]
        cases (right.sections.get? fields.sectionId).isSome with
        | false =>
            exact .failed (.notFound .sections fields.sectionId)
        | true =>
            exact .done (.same _)
              ((h.changeSections (h.moveGroup id old.sectionId fields.sectionId)).insertGroup id
                _ _ rfl)

theorem replaceLayer (h : Alike left right) (id : LayerId) (fields : LayerFields) :
    EditsAlike ((left.replaceLayer id fields).as .aLayer)
      ((right.replaceLayer id fields).as .aLayer) := by
  rw [Catalog.replaceLayer, Catalog.replaceLayer, h.layers]
  cases fields.validate with
  | error e =>
      exact .failed (.invalid e)
  | ok _ =>
      cases right.layers.get? id with
      | none =>
          exact .failed (.notFound .layers id)
      | some entry =>
          have hchanged := h.insertLayer id { entry with fields := fields }
          simp only [hchanged.layer?]
          cases Catalog.layer? { right with
              layers := right.layers.insert id { entry with fields := fields } } id with
          | none =>
              exact .failed (.notFound .layers id)
          | some layer =>
              exact .done (.same _) hchanged

theorem deleteSection (h : Alike left right) (id : SectionId) :
    EditsAlike ((left.deleteSection id).as .removed) ((right.deleteSection id).as .removed) := by
  rw [Catalog.deleteSection, Catalog.deleteSection, h.sections]
  cases right.sections.get? id with
  | none =>
      exact .failed (.notFound .sections id)
  | some entry =>
      obtain ⟨hcount, halike⟩ := ((h.eraseSection id).changeOrder
        (List.filter fun other => decide (other ≠ id))).dropGroups entry.groups
      simp only [hcount]
      exact .done (.same _) halike

theorem deleteGroup (h : Alike left right) (id : GroupId) :
    EditsAlike ((left.deleteGroup id).as .removed) ((right.deleteGroup id).as .removed) := by
  rw [Catalog.deleteGroup, Catalog.deleteGroup]
  rcases h.group_cases id with ⟨hleft, hright⟩ | ⟨fields, layers, _, _, hleft, hright⟩
  · simp only [hleft, hright]
    exact .failed (.notFound .groups id)
  · simp only [hleft, hright]
    obtain ⟨hcount, halike⟩ := (h.modifySection fields.sectionId fun parent =>
      { parent with groups := parent.groups.filter fun group => decide (group ≠ id) }).dropGroup id
    simp only [hcount]
    exact .done (.same _) halike

theorem deleteLayer (h : Alike left right) (id : LayerId) :
    EditsAlike ((left.deleteLayer id).as .removed) ((right.deleteLayer id).as .removed) := by
  rw [Catalog.deleteLayer, Catalog.deleteLayer, h.layers]
  cases right.layers.get? id with
  | none =>
      exact .failed (.notFound .layers id)
  | some entry =>
      refine .done (.same _) ⟨h.order, h.sections, fun group => ?_, fun layer => ?_⟩
      · rw [Table.get?_modify, Table.get?_modify]
        by_cases hgroup : entry.group = group
        · rcases h.group_cases entry.group with ⟨hleft, hright⟩ | ⟨_, _, _, _, hleft, hright⟩
          · simp only [hleft, hright, if_pos hgroup, Option.map_none]
          · simp only [hleft, hright, if_pos hgroup]
            rfl
        · simp only [if_neg hgroup, h.groups]
      · rw [Table.get?_erase, Table.get?_erase, h.layers]

/-- A move that expects no revision is never refused for one. -/
theorem moveLayer (h : Alike left right) (id : LayerId) (direction : Direction) :
    EditsAlike ((left.moveLayer id direction none).as .moved)
      ((right.moveLayer id direction none).as .moved) := by
  rw [Catalog.moveLayer, Catalog.moveLayer, h.layers]
  cases right.layers.get? id with
  | none =>
      exact .failed (.notFound .layers id)
  | some entry =>
      rcases h.group_cases entry.group with ⟨hleft, hright⟩ | ⟨_, layers, _, _, hleft, hright⟩
      · simp only [hleft, hright]
        exact .failed (.notFound .groups entry.group)
      · simp only [hleft, hright, Option.getD_none, ne_eq, not_true, if_false]
        cases position? id layers with
        | none =>
            exact .failed (.notFound .layers id)
        | some position =>
            cases hneighbour : neighbour? direction position layers.length with
            | none =>
                simp only [hneighbour]
                exact .done (.moved rfl rfl) h
            | some neighbour =>
                simp only [hneighbour]
                exact .done (.moved rfl rfl) (h.insertGroup entry.group _ _ rfl)

/-- No operation that expects no revision tells the two apart. -/
theorem perform (h : Alike left right) {operation : Operation}
    (hplain : ∀ id direction revision, operation ≠ .moveLayer id direction (some revision)) :
    EditsAlike (left.perform operation) (right.perform operation) := by
  cases operation with
  | createSection id fields => exact h.createSection id fields
  | createGroup id fields => exact h.createGroup id fields
  | createLayer id group fields => exact h.createLayer id group fields
  | replaceSection id fields => exact h.replaceSection id fields
  | replaceGroup id fields => exact h.replaceGroup id fields
  | replaceLayer id fields => exact h.replaceLayer id fields
  | deleteSection id => exact h.deleteSection id
  | deleteGroup id => exact h.deleteGroup id
  | deleteLayer id => exact h.deleteLayer id
  | moveLayer id direction expected =>
      cases expected with
      | none => exact h.moveLayer id direction
      | some revision => exact absurd rfl (hplain id direction revision)

end Alike

end Catalog

end MapCatalog
