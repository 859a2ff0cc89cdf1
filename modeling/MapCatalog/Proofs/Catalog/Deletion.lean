import MapCatalog.Proofs.Catalog.Consistency
import MapCatalog.Proofs.Catalog.InPlace

/-! # Deletion -/

namespace MapCatalog

namespace Operation

def deletes? : Operation → Option RecordId
  | .deleteSection id => some ⟨.sections, id⟩
  | .deleteGroup id => some ⟨.groups, id⟩
  | .deleteLayer id => some ⟨.layers, id⟩
  | _ => none

def needs? : Operation → Option RecordId
  | .createSection _ _ => none
  | .createGroup _ fields => some ⟨.sections, fields.sectionId⟩
  | .createLayer _ group _ => some ⟨.groups, group⟩
  | .replaceSection id _ | .deleteSection id => some ⟨.sections, id⟩
  | .replaceGroup id _ | .deleteGroup id => some ⟨.groups, id⟩
  | .replaceLayer id _ | .deleteLayer id | .moveLayer id _ _ => some ⟨.layers, id⟩

def IsNamed : Operation → Prop :=
  Brings (fun fields => Text.allBlank fields.name = false)
    (fun fields => Text.allBlank fields.name = false)
    fun fields => Text.allBlank fields.name = false

end Operation

/-- The identifiers in a forest: those of its records, and those of the parents that these name. -/
def Forest.mentions (forest : List SectionTree) : List RecordId :=
  forest.map (fun tree => ⟨.sections, tree.head.id⟩) ++
    (Forest.groups forest).flatMap (fun tree =>
      [⟨.groups, tree.group.id⟩, ⟨.sections, tree.group.fields.sectionId⟩]) ++
    (Forest.layers forest).flatMap fun layer => [⟨.layers, layer.id⟩, ⟨.groups, layer.groupId⟩]

namespace Catalog

/-! ## Below a record -/

/-- A record and what is below it: the groups that a section lists, and the layers that a group lists. -/
inductive Below (c : Catalog) (top : RecordId) : RecordId → Prop where
  | self : Below c top top
  | group {parent : SectionId} {group : GroupId} (h : Below c top ⟨.sections, parent⟩)
      (hlisted : group ∈ c.groupIds parent) : Below c top ⟨.groups, group⟩
  | layer {parent : GroupId} {layer : LayerId} (h : Below c top ⟨.groups, parent⟩)
      (hlisted : layer ∈ c.layerIds parent) : Below c top ⟨.layers, layer⟩

def idsBelow (c : Catalog) : RecordId → (tier : Tier) → List (Id tier)
  | ⟨.sections, id⟩, .sections => [id]
  | ⟨.sections, id⟩, .groups => c.groupIds id
  | ⟨.sections, id⟩, .layers => (c.groupIds id).flatMap c.layerIds
  | ⟨.groups, id⟩, .groups => [id]
  | ⟨.groups, id⟩, .layers => c.layerIds id
  | ⟨.layers, id⟩, .layers => [id]
  | ⟨.groups, _⟩, .sections | ⟨.layers, _⟩, .sections | ⟨.layers, _⟩, .groups => []

theorem below_iff {c : Catalog} {top id : RecordId} :
    Below c top id ↔ id.2 ∈ c.idsBelow top id.1 := by
  constructor
  · intro h
    induction h with
    | self =>
        rcases top with ⟨_ | _ | _, top⟩ <;> exact List.mem_singleton.2 rfl
    | group h hlisted ih =>
        rcases top with ⟨_ | _ | _, top⟩
        · have hparent := List.mem_singleton.1 ih
          exact hparent ▸ hlisted
        · cases ih
        · cases ih
    | layer h hlisted ih =>
        rcases top with ⟨_ | _ | _, top⟩
        · exact List.mem_flatMap.2 ⟨_, ih, hlisted⟩
        · have hparent := List.mem_singleton.1 ih
          exact hparent ▸ hlisted
        · cases ih
  · intro h
    rcases top with ⟨_ | _ | _, top⟩ <;> rcases id with ⟨_ | _ | _, id⟩
    · exact List.mem_singleton.1 h ▸ .self
    · exact .group .self h
    · obtain ⟨group, hgroup, hlayer⟩ := List.mem_flatMap.1 h
      exact .layer (.group .self hgroup) hlayer
    · cases h
    · exact List.mem_singleton.1 h ▸ .self
    · exact .layer .self h
    · cases h
    · cases h
    · exact List.mem_singleton.1 h ▸ .self

namespace WellFormed

variable {c : Catalog}

theorem idsBelow_nodup (h : WellFormed c) (top : RecordId) (tier : Tier) :
    (c.idsBelow top tier).Nodup := by
  rcases top with ⟨_ | _ | _, top⟩ <;> cases tier
  · exact List.nodup_singleton top
  · exact h.groups.nodup top
  · exact h.layers.nodup_flatMap (h.groups.nodup top)
  · exact List.nodup_nil
  · exact List.nodup_singleton top
  · exact h.layers.nodup top
  · exact List.nodup_nil
  · exact List.nodup_nil
  · exact List.nodup_singleton top

theorem holds_of_below (h : WellFormed c) {top id : RecordId} (htop : c.holds top = true)
    (hid : Below c top id) : c.holds id = true := by
  cases hid with
  | self =>
      exact htop
  | group _ hlisted =>
      obtain ⟨entry, hentry, -⟩ := h.group_of_mem hlisted
      exact c.groups.contains_iff.2 ⟨entry, hentry⟩
  | layer _ hlisted =>
      obtain ⟨entry, hentry, -⟩ := h.layer_of_mem hlisted
      exact c.layers.contains_iff.2 ⟨entry, hentry⟩

end WellFormed

/-! ## What a deletion takes out -/

def recordIds (c : Catalog) : (tier : Tier) → List (Id tier)
  | .sections => c.sections.keys
  | .groups => c.groups.keys
  | .layers => c.layers.keys

theorem recordIds_nodup (c : Catalog) (tier : Tier) : (c.recordIds tier).Nodup := by
  cases tier
  · exact c.sections.nodup_keys
  · exact c.groups.nodup_keys
  · exact c.layers.nodup_keys

theorem mem_recordIds_iff {c : Catalog} {tier : Tier} {id : Id tier} :
    id ∈ c.recordIds tier ↔ c.holds ⟨tier, id⟩ = true := by
  cases tier
  · exact c.sections.mem_keys_iff.trans c.sections.contains_iff.symm
  · exact c.groups.mem_keys_iff.trans c.groups.contains_iff.symm
  · exact c.layers.mem_keys_iff.trans c.layers.contains_iff.symm

theorem counts_eq (c : Catalog) :
    c.counts = ⟨(c.recordIds .sections).length, (c.recordIds .groups).length,
      (c.recordIds .layers).length⟩ := by
  simp only [counts, recordIds, Table.size, Table.keys, List.length_map]

/-- As many layers are dropped as the lists of distinct groups name. -/
theorem fst_dropGroups (c : Catalog) {ids : List GroupId} (hids : ids.Nodup) :
    (c.dropGroups ids).1 = (ids.flatMap c.layerIds).length := by
  induction ids generalizing c with
  | nil =>
      rfl
  | cons id rest ih =>
      obtain ⟨hid, hrest⟩ := List.nodup_cons.1 hids
      have hfirst : (c.dropGroup id).1 = (c.layerIds id).length := by
        unfold dropGroup layerIds
        cases c.groups.get? id <;> rfl
      -- the lists of the other groups are not touched by the first
      have hlists : rest.flatMap (c.dropGroup id).2.layerIds = rest.flatMap c.layerIds := by
        apply List.flatMap_congr
        intro group hgroup
        rw [dropGroup_layerIds, if_neg]
        exact fun heq => hid (heq ▸ hgroup)
      have hlater := ih (c.dropGroup id).2 hrest
      rw [hlists] at hlater
      rw [List.flatMap_cons, List.length_append, ← hfirst, ← hlater]
      rfl

/-- A stored record is taken out with everything below it, and counted tier by tier. -/
structure TakesOut (c : Catalog) (top : RecordId) (counts : Counts) (next : Catalog) : Prop where
  stored : c.holds top = true
  counted : counts = ⟨(c.idsBelow top .sections).length, (c.idsBelow top .groups).length,
    (c.idsBelow top .layers).length⟩
  holds : ∀ id, next.holds id = (decide (id.2 ∉ c.idsBelow top id.1) && c.holds id)

section TakesOut

variable {c next : Catalog} {counts : Counts}

theorem WellFormed.takesOut_section (h : WellFormed c) {id : SectionId}
    (hok : c.deleteSection id = .ok (counts, next)) : TakesOut c ⟨.sections, id⟩ counts next := by
  obtain ⟨entry, hentry, rfl, rfl⟩ := deleteSection_eq_ok hok
  have hgroups : c.groupIds id = entry.groups := groupIds_of_get? hentry
  refine ⟨c.sections.contains_iff.2 ⟨entry, hentry⟩, ?_, ?_⟩
  · rw [fst_dropGroups _ (hgroups ▸ h.groups.nodup id)]
    simp only [idsBelow, hgroups]
    rfl
  · rintro ⟨_ | _ | _, other⟩
    · simp [Catalog.holds, idsBelow, dropGroups_sections, detachSection, Table.contains_erase,
        eq_comm]
    · simp only [Catalog.holds, idsBelow, hgroups, contains_dropGroups_groups]
      rfl
    · simp only [Catalog.holds, idsBelow, hgroups, contains_dropGroups_layers]
      rfl

theorem takesOut_group {id : GroupId} (hok : c.deleteGroup id = .ok (counts, next)) :
    TakesOut c ⟨.groups, id⟩ counts next := by
  obtain ⟨entry, hentry, rfl, rfl⟩ := deleteGroup_eq_ok hok
  refine ⟨c.groups.contains_iff.2 ⟨entry, hentry⟩, ?_, ?_⟩
  · rw [fst_dropGroups _ (List.nodup_singleton id), List.flatMap_singleton]
    rfl
  · rintro ⟨_ | _ | _, other⟩
    · simp [Catalog.holds, idsBelow, dropGroups_sections, detachGroup, Table.contains_modify]
    · simp only [Catalog.holds, idsBelow, contains_dropGroups_groups]
      rfl
    · simp only [Catalog.holds, idsBelow, contains_dropGroups_layers, List.flatMap_singleton]
      rfl

theorem takesOut_layer {id : LayerId} (hok : c.deleteLayer id = .ok (counts, next)) :
    TakesOut c ⟨.layers, id⟩ counts next := by
  obtain ⟨rfl, entry, hentry, rfl⟩ := deleteLayer_eq_ok hok
  refine ⟨c.layers.contains_iff.2 ⟨entry, hentry⟩, rfl, ?_⟩
  rintro ⟨_ | _ | _, other⟩
  · simp [Catalog.holds, idsBelow]
  · simp [Catalog.holds, idsBelow, Table.contains_modify]
  · simp [Catalog.holds, idsBelow, Table.contains_erase, eq_comm]

end TakesOut

/-- An operation that deletes and succeeds answers with counts of what it takes out. -/
theorem WellFormed.takesOut {c next : Catalog} (h : WellFormed c) {operation : Operation}
    {top : RecordId} (hdeletes : operation.deletes? = some top) {answer : Answer}
    (hok : c.perform operation = .ok (answer, next)) :
    ∃ counts, answer = .removed counts ∧ TakesOut c top counts next := by
  cases operation with
  | deleteSection id =>
      cases hdeletes
      obtain ⟨counts, hok, hanswer⟩ := Edit.as_eq_ok hok
      exact ⟨counts, hanswer, h.takesOut_section hok⟩
  | deleteGroup id =>
      cases hdeletes
      obtain ⟨counts, hok, hanswer⟩ := Edit.as_eq_ok hok
      exact ⟨counts, hanswer, takesOut_group hok⟩
  | deleteLayer id =>
      cases hdeletes
      obtain ⟨counts, hok, hanswer⟩ := Edit.as_eq_ok hok
      exact ⟨counts, hanswer, takesOut_layer hok⟩
  | _ => cases hdeletes

/-- A record is removed with everything below it and nothing else, and the counts of the catalogue go down
by the counts that are answered. -/
structure Removal (c : Catalog) (top : RecordId) (counts : Counts) (next : Catalog) : Prop where
  sections : c.counts.sections = counts.sections + next.counts.sections
  groups : c.counts.groups = counts.groups + next.counts.groups
  layers : c.counts.layers = counts.layers + next.counts.layers
  removed_iff : ∀ id, c.holds id = true ∧ next.holds id = false ↔ Below c top id
  adds_nothing : ∀ id, next.holds id = true → c.holds id = true

/-- The stored records of a tier are those that go and those that stay. -/
theorem TakesOut.perm {c next : Catalog} {top : RecordId} {counts : Counts} (h : WellFormed c)
    (hout : TakesOut c top counts next) (tier : Tier) :
    (c.recordIds tier).Perm (c.idsBelow top tier ++ next.recordIds tier) := by
  have hstored : ∀ id, id ∈ c.idsBelow top tier → c.holds ⟨tier, id⟩ = true :=
    fun id hid => h.holds_of_below hout.stored (below_iff.2 hid)
  have hnodup : (c.idsBelow top tier ++ next.recordIds tier).Nodup := by
    refine List.nodup_append.2 ⟨h.idsBelow_nodup top tier, next.recordIds_nodup tier, ?_⟩
    rintro id hid _ hkept rfl
    rw [mem_recordIds_iff, hout.holds] at hkept
    simp [hid] at hkept
  refine (List.perm_ext_iff_of_nodup (c.recordIds_nodup tier) hnodup).2 ?_
  intro id
  rw [List.mem_append, mem_recordIds_iff, mem_recordIds_iff, hout.holds]
  by_cases hid : id ∈ c.idsBelow top tier
  · simp [hid, hstored id hid]
  · simp [hid]

theorem TakesOut.removal {c next : Catalog} {top : RecordId} {counts : Counts} (h : WellFormed c)
    (hout : TakesOut c top counts next) : Removal c top counts next := by
  have hlengths : ∀ tier, (c.recordIds tier).length =
      (c.idsBelow top tier).length + (next.recordIds tier).length := by
    intro tier
    rw [(hout.perm h tier).length_eq, List.length_append]
  rw [hout.counted]
  refine ⟨?_, ?_, ?_, ?_, ?_⟩
  · rw [c.counts_eq, next.counts_eq]
    exact hlengths .sections
  · rw [c.counts_eq, next.counts_eq]
    exact hlengths .groups
  · rw [c.counts_eq, next.counts_eq]
    exact hlengths .layers
  · intro id
    rw [hout.holds, below_iff]
    by_cases hid : id.2 ∈ c.idsBelow top id.1
    · simp [hid, h.holds_of_below hout.stored (below_iff.2 hid)]
    · simp [hid]
  · intro id hid
    rw [hout.holds] at hid
    exact (Bool.and_eq_true_iff.1 hid).2

/-! ## What is gone -/

/-- Reading a record finds nothing, whatever depth is asked for. -/
def Unread (c : Catalog) : RecordId → Prop
  | ⟨.sections, id⟩ => ∀ depth, c.sectionTree? depth id = none
  | ⟨.groups, id⟩ => (∀ depth, c.groupTree? depth id = none) ∧ c.revision? id = none
  | ⟨.layers, id⟩ => c.layer? id = none

/-- A record cannot be read, nothing can be done to it or put under it, and it is not listed. -/
structure Gone (c : Catalog) (id : RecordId) : Prop where
  unread : c.Unread id
  refused : ∀ operation : Operation, operation.needs? = some id → operation.IsNamed →
    operation.work.run c = .error (.notFound id.1 id.2) c
  unlisted : id ∉ Forest.mentions c.trees

theorem unread_of_not_held {c : Catalog} {id : RecordId} (h : c.holds id = false) :
    c.Unread id := by
  rcases id with ⟨_ | _ | _, id⟩
  · have hnone := c.sections.contains_eq_false_iff.1 h
    intro depth
    simp [sectionTree?, hnone]
  · have hnone := c.groups.contains_eq_false_iff.1 h
    refine ⟨?_, ?_⟩
    · intro depth
      simp [groupTree?, hnone]
    · simp [revision?, hnone]
  · have hnone := c.layers.contains_eq_false_iff.1 h
    simp [Unread, layer?, hnone]

/-- An operation that has its name fails for the record that it needs, when that is not there. -/
theorem fault?_of_not_held {c : Catalog} {id : RecordId} (h : c.holds id = false)
    {operation : Operation} (hneeds : operation.needs? = some id) (hnamed : operation.IsNamed) :
    c.fault? operation = some (.notFound id.1 id.2) := by
  have habsent : c.absent? id.1 id.2 = some (.notFound id.1 id.2) := by
    unfold absent?
    rw [h]
  have hblank : ∀ tier name, Text.allBlank name = false → blank? tier name = none := by
    intro tier name hname
    rw [blank?, hname, if_neg Bool.false_ne_true]
  cases operation with
  | createSection _ _ =>
      cases hneeds
  | createGroup _ fields | createLayer _ _ fields | replaceSection _ fields
  | replaceGroup _ fields | replaceLayer _ fields =>
      cases hneeds
      simp only [fault?, hblank _ _ hnamed, Option.none_or, habsent, Option.some_or]
  | deleteSection _ | deleteGroup _ | deleteLayer _ =>
      cases hneeds
      exact habsent
  | moveLayer _ _ _ =>
      cases hneeds
      simp only [fault?, habsent, Option.some_or]

namespace WellFormed

variable {c : Catalog}

/-- Whatever is listed is stored: records, and the parents that they name. -/
theorem holds_of_mentions (h : WellFormed c) {id : RecordId} (hid : id ∈ Forest.mentions c.trees) :
    c.holds id = true := by
  rw [Forest.mentions, List.mem_append, List.mem_append] at hid
  obtain (hsection | hgroup) | hlayer := hid
  · rw [h.trees_eq_map, List.map_map] at hsection
    obtain ⟨parent, hparent, rfl⟩ := List.mem_map.1 hsection
    exact (h.mem_order parent).1 hparent
  · obtain ⟨tree, htree, hid⟩ := List.mem_flatMap.1 hgroup
    have hstored := h.shown_groups.mem_iff.1 (List.mem_map_of_mem (f := GroupTree.group) htree)
    obtain ⟨⟨group, entry⟩, hentry, heq⟩ := List.mem_map.1 hstored
    have hget : c.groups.get? group = some entry := c.groups.get?_eq_some_iff.2 hentry
    obtain ⟨parent, hparent, -⟩ := h.section_of_group hget
    rw [← heq] at hid
    simp only [List.mem_cons, List.not_mem_nil, or_false] at hid
    obtain rfl | rfl := hid
    · exact c.groups.contains_iff.2 ⟨entry, hget⟩
    · exact c.sections.contains_iff.2 ⟨parent, hparent⟩
  · obtain ⟨layer, hlisted, hid⟩ := List.mem_flatMap.1 hlayer
    have hstored := h.shown_layers.mem_iff.1 (List.mem_map_of_mem (f := LayerRecord.stored) hlisted)
    have hentry : c.layers.get? layer.id = some ⟨layer.groupId, layer.fields⟩ :=
      c.layers.get?_eq_some_iff.2 hstored
    obtain ⟨group, hgroup, -⟩ := h.group_of_layer hentry
    simp only [List.mem_cons, List.not_mem_nil, or_false] at hid
    obtain rfl | rfl := hid
    · exact c.layers.contains_iff.2 ⟨_, hentry⟩
    · exact c.groups.contains_iff.2 ⟨group, hgroup⟩

theorem gone (h : WellFormed c) {id : RecordId} (hid : c.holds id = false) : Gone c id := by
  refine ⟨unread_of_not_held hid, ?_, ?_⟩
  · intro operation hneeds hnamed
    exact (h.failsCleanly.error_iff _ _ _).2 ⟨fault?_of_not_held hid hneeds hnamed, rfl⟩
  · intro hlisted
    rw [h.holds_of_mentions hlisted] at hid
    cases hid

end WellFormed

/-! ## Deletion is final -/

theorem Edit.eq_ok_of_settle {α : Type} {edit : Edit α} {c next : Catalog} {value : α}
    (h : edit.settle c = .ok value next) : edit = .ok (value, next) := by
  cases edit with
  | error e =>
      cases h
  | ok result =>
      cases h
      rfl

/-- A deletion that succeeds removes a record and everything below it, counts what it removes, and none of
that is ever back, whatever is done later. -/
theorem deletion_is_final {c next : Catalog} (hreached : Reachable c) {operation : Operation}
    {top : RecordId} (hdeletes : operation.deletes? = some top) {answer : Answer}
    (hok : operation.work.run c = .ok answer next) {later : List Operation}
    (hids : NeverRepeats c (operation :: later)) :
    ∃ counts, answer = .removed counts ∧ Removal c top counts next ∧
      ∀ id, Below c top id → Gone (next.runInPlace later) id := by
  have hc := hreached.wellFormed
  have hperform : c.perform operation = .ok (answer, next) :=
    Edit.eq_ok_of_settle ((hc.run_work operation).symm.trans hok)
  obtain ⟨counts, hanswer, hout⟩ := hc.takesOut hdeletes hperform
  have hremoval := hout.removal hc
  have hsplit : NeverRepeats c ([operation] ++ later) := hids
  have hafter : c.run [operation] = next := after_of_ok hperform
  have hlater : NeverRepeats next later := hafter ▸ hsplit.right
  have hnext : WellFormed next := hafter ▸ hc.run hsplit.left
  refine ⟨counts, hanswer, hremoval, ?_⟩
  intro id hbelow
  rw [hnext.runInPlace_eq hlater]
  apply (hnext.run hlater).gone
  apply Bool.eq_false_iff.2
  intro hback
  obtain ⟨hstored, hremoved⟩ := (hremoval.removed_iff id).2 hbelow
  have hend : (c.run ([operation] ++ later)).holds id = true := by
    rw [run_append, hafter]
    exact hback
  have hheld := hsplit.holds_between hstored hend
  rw [hafter, hremoved] at hheld
  cases hheld

/-- What is done after the section of the sample has gone: another section comes, the group is to be moved
there, and a layer is to be put into it. -/
def sampleLater : List Operation :=
  [.createSection ⟨6⟩ ⟨"Borders"⟩,
   .replaceGroup ⟨3⟩ (.named "Streets" ⟨6⟩),
   .createLayer ⟨7⟩ ⟨3⟩ (.named "Lines" default default)]

def sampleCleared : Catalog :=
  (empty.run sample).after (.deleteSection ⟨2⟩)

/-- The section goes with the group and its two layers, and they do not come back. -/
theorem sample_deletion_is_final :
    Reachable (empty.run sample) ∧
      NeverRepeats (empty.run sample) (.deleteSection ⟨2⟩ :: sampleLater) ∧
      (∃ counts, Answer.removed ⟨1, 1, 2⟩ = .removed counts ∧
        Removal (empty.run sample) ⟨.sections, ⟨2⟩⟩ counts sampleCleared ∧
        ∀ id, Below (empty.run sample) ⟨.sections, ⟨2⟩⟩ id →
          Gone (sampleCleared.runInPlace sampleLater) id) ∧
      Below (empty.run sample) ⟨.sections, ⟨2⟩⟩ ⟨.layers, ⟨4⟩⟩ := by
  have hids : NeverRepeats (empty.run sample) (.deleteSection ⟨2⟩ :: sampleLater) :=
    ⟨by decide, by decide⟩
  have hok : (Operation.deleteSection ⟨2⟩).work.run (empty.run sample) =
      .ok (.removed ⟨1, 1, 2⟩) sampleCleared := rfl
  refine ⟨reachable_sample, hids, ?_, below_iff.2 (by decide)⟩
  exact deletion_is_final reachable_sample rfl hok hids

end Catalog

end MapCatalog
