import MapCatalog.Proofs.Catalog.Alike
import MapCatalog.Proofs.Catalog.Apart
import MapCatalog.Proofs.Catalog.Replacing

/-! # Full replacement

A replacement writes all fields of a record and reads none of them.
-/

namespace MapCatalog

/-- What is stored of a group besides the fields that are its own: its section, its layers and its
revision. -/
def GroupEntry.standing (entry : GroupEntry) : SectionId × List LayerId × Nat :=
  (entry.fields.sectionId, entry.layers, entry.revision)

namespace Catalog

/-! ## Catalogues that differ in one record -/

/-- Two catalogues agree on everything but the fields of one record, whose parent and place are the
same. -/
structure SameBut (record : RecordId) (left right : Catalog) : Prop where
  order : left.order = right.order
  sections : ∀ id : SectionId, record ≠ ⟨.sections, id⟩ →
    left.sections.get? id = right.sections.get? id
  groups : ∀ id : GroupId, record ≠ ⟨.groups, id⟩ → left.groups.get? id = right.groups.get? id
  layers : ∀ id : LayerId, record ≠ ⟨.layers, id⟩ → left.layers.get? id = right.layers.get? id
  listed : ∀ id, (left.sections.get? id).map SectionEntry.groups =
    (right.sections.get? id).map SectionEntry.groups
  standing : ∀ id, (left.groups.get? id).map GroupEntry.standing =
    (right.groups.get? id).map GroupEntry.standing
  parent : ∀ id, (left.layers.get? id).map LayerEntry.group =
    (right.layers.get? id).map LayerEntry.group

inductive Replaces : Operation → RecordId → Prop where
  | aSection (id : SectionId) (fields : SectionFields) :
      Replaces (.replaceSection id fields) ⟨.sections, id⟩
  | aGroup (id : GroupId) (fields : GroupFields) : Replaces (.replaceGroup id fields) ⟨.groups, id⟩
  | aLayer (id : LayerId) (fields : LayerFields) : Replaces (.replaceLayer id fields) ⟨.layers, id⟩

theorem Replaces.fresh {operation : Operation} {record : RecordId} (h : Replaces operation record)
    (c : Catalog) : Fresh c operation := by
  intro id hid
  cases h <;> cases hid

inductive EditsSame {α : Type} : Edit α → Edit α → Prop where
  | failed (e : CatalogError) : EditsSame (.error e) (.error e)
  | done (value : α) {left right : Catalog} (h : Same left right) :
      EditsSame (.ok (value, left)) (.ok (value, right))

theorem EditsSame.as {α : Type} {left right : Edit α} (h : EditsSame left right)
    (wrap : α → Answer) : EditsSame (left.as wrap) (right.as wrap) := by
  cases h with
  | failed e => exact .failed e
  | done value h => exact .done (wrap value) h

theorem record_ne {tier : Tier} {id other : Id tier} (h : id ≠ other) :
    (⟨tier, id⟩ : RecordId) ≠ ⟨tier, other⟩ :=
  fun hrecord => h (eq_of_heq (Sigma.mk.inj hrecord).2)

theorem record_ne_of_tier {tier tier' : Tier} {id : Id tier} {other : Id tier'} (h : tier ≠ tier') :
    (⟨tier, id⟩ : RecordId) ≠ ⟨tier', other⟩ :=
  fun hrecord => h (Sigma.mk.inj hrecord).1

/-- What has one image twice is absent twice, or present twice. -/
theorem absent_or_present {α β : Type} {f : α → β} {left right : Option α}
    (h : left.map f = right.map f) :
    (left = none ∧ right = none) ∨ ∃ x y, left = some x ∧ right = some y ∧ f x = f y := by
  cases left <;> cases right <;> simp_all

/-- Tables that agree beside a key agree once it has the same value in both. -/
theorem get?_insert_congr {κ α : Type} [DecidableEq κ] {left right : Table κ α} {key : κ}
    (h : ∀ other, key ≠ other → left.get? other = right.get? other) (value : α) (other : κ) :
    (left.insert key value).get? other = (right.insert key value).get? other := by
  rw [Table.get?_insert, Table.get?_insert]
  split
  · rfl
  · next hother => exact h other hother

theorem get?_moveGroup_congr {left right : Table SectionId SectionEntry}
    (h : ∀ id, left.get? id = right.get? id) (group : GroupId) (source target other : SectionId) :
    (moveGroup left group source target).get? other =
      (moveGroup right group source target).get? other := by
  unfold moveGroup
  split
  · exact h other
  · simp only [Table.get?_modify, h]

theorem Same.alike {left right : Catalog} (h : Same left right) : Alike left right :=
  ⟨h.order, h.sections, fun id => by rw [h.groups], h.layers⟩

namespace SameBut

variable {record : RecordId} {left right : Catalog} (h : SameBut record left right)
include h

theorem wellFormed (hleft : WellFormed left) : WellFormed right := by
  have hgroupIds : left.groupIds = right.groupIds := by
    funext id
    rcases absent_or_present (h.listed id) with ⟨hnone, hnone'⟩ | ⟨x, y, hx, hy, hsame⟩
    · rw [groupIds_of_absent hnone, groupIds_of_absent hnone']
    · rw [groupIds_of_get? hx, groupIds_of_get? hy, hsame]
  have hlayerIds : left.layerIds = right.layerIds := by
    funext id
    rcases absent_or_present (h.standing id) with ⟨hnone, hnone'⟩ | ⟨x, y, hx, hy, hsame⟩
    · rw [layerIds_of_absent hnone, layerIds_of_absent hnone']
    · rw [layerIds_of_get? hx, layerIds_of_get? hy]
      exact (Prod.mk.inj (Prod.mk.inj hsame).2).1
  have hsectionOf : left.sectionOf? = right.sectionOf? := by
    funext id
    have hstanding := congrArg (Option.map Prod.fst) (h.standing id)
    rwa [Option.map_map, Option.map_map] at hstanding
  have hgroupOf : left.groupOf? = right.groupOf? := funext h.parent
  refine ⟨h.order ▸ hleft.order_nodup, fun id => ?_, ?_, ?_⟩
  · rw [← h.order, hleft.mem_order id, Table.contains, Table.contains,
      ← Option.isSome_map (f := SectionEntry.groups), h.listed, Option.isSome_map]
  · exact hgroupIds ▸ hsectionOf ▸ hleft.groups
  · exact hlayerIds ▸ hgroupOf ▸ hleft.layers

omit h

theorem replaceSection {id : SectionId} (h : SameBut ⟨.sections, id⟩ left right)
    (fields : SectionFields) :
    EditsSame (left.replaceSection id fields) (right.replaceSection id fields) := by
  rw [Catalog.replaceSection, Catalog.replaceSection]
  cases fields.validate with
  | error e =>
      exact .failed (.invalid e)
  | ok _ =>
      rcases absent_or_present (h.listed id) with ⟨hleft, hright⟩ | ⟨old, other, hleft, hright, hsame⟩
      · simp only [hleft, hright]
        exact .failed (.notFound .sections id)
      · simp only [hleft, hright, hsame]
        refine .done _ ⟨h.order, ?_, fun group => h.groups group (record_ne_of_tier (by decide)),
          fun layer => h.layers layer (record_ne_of_tier (by decide))⟩
        exact get?_insert_congr (fun other hother => h.sections other (record_ne hother)) _

theorem replaceGroup {id : GroupId} (h : SameBut ⟨.groups, id⟩ left right) (fields : GroupFields) :
    EditsSame (left.replaceGroup id fields) (right.replaceGroup id fields) := by
  have hsections : ∀ parent, left.sections.get? parent = right.sections.get? parent :=
    fun parent => h.sections parent (record_ne_of_tier (by decide))
  have hcontains : left.sections.contains fields.sectionId =
      right.sections.contains fields.sectionId := by
    rw [Table.contains, Table.contains, hsections]
  rw [Catalog.replaceGroup, Catalog.replaceGroup]
  cases fields.validate with
  | error e =>
      exact .failed (.invalid e)
  | ok _ =>
      rcases absent_or_present (h.standing id) with
        ⟨hleft, hright⟩ | ⟨⟨old, layers, revision⟩, ⟨old', layers', revision'⟩, hleft, hright, hsame⟩
      · simp only [hleft, hright]
        exact .failed (.notFound .groups id)
      · simp only [GroupEntry.standing, Prod.mk.injEq] at hsame
        obtain ⟨hparent, rfl, rfl⟩ := hsame
        simp only [hleft, hright, hcontains, hparent]
        cases right.sections.contains fields.sectionId with
        | false =>
            exact .failed (.notFound .sections fields.sectionId)
        | true =>
            refine .done _ ⟨h.order, ?_, ?_,
              fun layer => h.layers layer (record_ne_of_tier (by decide))⟩
            · exact get?_moveGroup_congr hsections id _ _
            · exact get?_insert_congr (fun other hother => h.groups other (record_ne hother)) _

theorem replaceLayer {id : LayerId} (h : SameBut ⟨.layers, id⟩ left right) (fields : LayerFields) :
    EditsSame (left.replaceLayer id fields) (right.replaceLayer id fields) := by
  rw [Catalog.replaceLayer, Catalog.replaceLayer]
  cases fields.validate with
  | error e =>
      exact .failed (.invalid e)
  | ok _ =>
      rcases absent_or_present (h.parent id) with
        ⟨hleft, hright⟩ | ⟨⟨group, old⟩, ⟨group', old'⟩, hleft, hright, hsame⟩
      · simp only [hleft, hright]
        exact .failed (.notFound .layers id)
      · obtain rfl : group = group' := hsame
        have hwritten : Same { left with layers := left.layers.insert id ⟨group, fields⟩ }
            { right with layers := right.layers.insert id ⟨group, fields⟩ } := by
          refine ⟨h.order, fun parent => h.sections parent (record_ne_of_tier (by decide)),
            fun other => h.groups other (record_ne_of_tier (by decide)), ?_⟩
          exact get?_insert_congr (fun other hother => h.layers other (record_ne hother)) _
        simp only [hleft, hright, hwritten.alike.layer? id]
        split
        · exact .failed (.notFound .layers id)
        · exact .done _ hwritten

/-- A replacement of the record does the same to both and leaves the same. -/
theorem perform (h : SameBut record left right) {operation : Operation}
    (hreplaces : Replaces operation record) :
    EditsSame (left.perform operation) (right.perform operation) := by
  cases hreplaces with
  | aSection id fields => exact (h.replaceSection fields).as .aSection
  | aGroup id fields => exact (h.replaceGroup fields).as .aGroup
  | aLayer id fields => exact (h.replaceLayer fields).as .aLayer

end SameBut

/-! ## Replacements that are made again -/

theorem replaceSection_again {c next : Catalog} {id : SectionId} {fields : SectionFields}
    {record : SectionRecord} (hok : c.replaceSection id fields = .ok (record, next)) :
    next.replaceSection id fields = .ok (record, next) := by
  obtain ⟨hvalid, rfl, entry, -, hnext⟩ := replaceSection_eq_ok hok
  have hstored : next.sections.get? id = some { entry with fields := fields } := by
    rw [hnext]
    exact Table.get?_insert_self _ _ _
  exact replaceSection_same hstored hvalid

theorem WellFormed.replaceGroup_again {c next : Catalog} (h : WellFormed c) {id : GroupId}
    {fields : GroupFields} {record : GroupRecord}
    (hok : c.replaceGroup id fields = .ok (record, next)) :
    next.replaceGroup id fields = .ok (record, next) := by
  obtain ⟨hvalid, rfl, -, entry, -, hnext⟩ := replaceGroup_eq_ok hok
  have hstored : next.groups.get? id = some { entry with fields := fields } := by
    rw [hnext]
    exact Table.get?_insert_self _ _ _
  exact replaceGroup_same (h.replaceGroup hok) hstored hvalid

/-- What is read back of a layer that is replaced is the layer that was there, with the new fields. -/
theorem replaceLayer_eq_ok_iff {c next : Catalog} {id : LayerId} {fields : LayerFields}
    {record : LayerRecord} :
    c.replaceLayer id fields = .ok (record, next) ↔
      fields.validate = .ok () ∧ ∃ layer, c.layer? id = some layer ∧
        record = { layer with fields := fields } ∧ next = c.withLayerFields id fields := by
  constructor
  · intro hok
    obtain ⟨hvalid, hread, entry, hentry, rfl⟩ := replaceLayer_eq_ok hok
    obtain ⟨written, group, position, hwritten, hgroup, hposition, rfl⟩ := layer?_eq_some_iff.1 hread
    have hwritten : { entry with fields := fields } = written := by
      rw [Table.get?_insert_self] at hwritten
      exact Option.some.inj hwritten
    subst hwritten
    refine ⟨hvalid, ⟨id, entry.group, place position, entry.fields⟩, ?_, rfl, ?_⟩
    · exact layer?_eq_some_iff.2 ⟨entry, group, position, hentry, hgroup, hposition, rfl⟩
    · rw [withLayerFields, Table.modify_of_get? hentry]
  · rintro ⟨hvalid, layer, hlayer, rfl, rfl⟩
    exact replaceLayer_of_layer? hlayer hvalid

theorem replaceLayer_again {c next : Catalog} {id : LayerId} {fields : LayerFields}
    {record : LayerRecord} (hok : c.replaceLayer id fields = .ok (record, next)) :
    next.replaceLayer id fields = .ok (record, next) := by
  obtain ⟨hvalid, layer, hlayer, rfl, rfl⟩ := replaceLayer_eq_ok_iff.1 hok
  have hwritten := layer?_withLayerFields hlayer fields
  refine replaceLayer_eq_ok_iff.2 ⟨hvalid, _, hwritten, rfl, ?_⟩
  exact (withLayerFields_same hwritten).symm

theorem Edit.as_ok {α : Type} {edit : Edit α} {value : α} {c : Catalog} (h : edit = .ok (value, c))
    (wrap : α → Answer) : edit.as wrap = .ok (wrap value, c) := by
  rw [h, Edit.as]

/-- A replacement that is made again answers as it did and changes nothing. -/
theorem WellFormed.perform_again {c next : Catalog} (h : WellFormed c) {operation : Operation}
    {record : RecordId} (hreplaces : Replaces operation record) {answer : Answer}
    (hok : c.perform operation = .ok (answer, next)) :
    next.perform operation = .ok (answer, next) := by
  cases hreplaces with
  | aSection id fields =>
      obtain ⟨value, hvalue, rfl⟩ := Edit.as_eq_ok hok
      exact Edit.as_ok (replaceSection_again hvalue) .aSection
  | aGroup id fields =>
      obtain ⟨value, hvalue, rfl⟩ := Edit.as_eq_ok hok
      exact Edit.as_ok (h.replaceGroup_again hvalue) .aGroup
  | aLayer id fields =>
      obtain ⟨value, hvalue, rfl⟩ := Edit.as_eq_ok hok
      exact Edit.as_ok (replaceLayer_again hvalue) .aLayer

end Catalog

end MapCatalog
