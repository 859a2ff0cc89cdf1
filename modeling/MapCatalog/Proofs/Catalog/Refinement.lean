import Mathlib.Data.List.Perm.Subperm
import MapCatalog.Proofs.Catalog.Exchange
import MapCatalog.Proofs.Catalog.Frame

/-! # The catalogue as a plain forest -/

namespace MapCatalog

def LayerRecord.unplaced (layer : LayerRecord) : LayerRecord :=
  { layer with order := 0 }

namespace Catalog

open Forest

/-- No group has more layers than there are places. -/
def Placeable (c : Catalog) : Prop :=
  ∀ id, (c.layerIds id).length ≤ 2 ^ 32

/-- In a well-formed catalogue with few layers no group has too many of them. -/
theorem WellFormed.placeable {c : Catalog} (h : WellFormed c) (hsize : c.layers.size ≤ 2 ^ 32) :
    Placeable c := by
  intro id
  have hsub : c.layerIds id ⊆ c.layers.keys := by
    intro layer hlayer
    obtain ⟨entry, hentry, -⟩ := h.layer_of_mem hlayer
    exact c.layers.mem_keys_iff.2 ⟨entry, hentry⟩
  have hlength := ((h.layers.nodup id).subperm hsub).length_le
  have hkeys : c.layers.keys.length = c.layers.size := List.length_map Prod.fst
  omega

/-! ## Numbering -/

theorem renumber_map_unplaced (layers : List LayerRecord) :
    renumber (layers.map LayerRecord.unplaced) = renumber layers := by
  apply List.ext_getElem?
  intro i
  simp only [renumber, List.getElem?_mapIdx, List.getElem?_map, Option.map_map]
  rfl

theorem map_unplaced_placed (layers : List LayerRecord) :
    (placed layers).map LayerRecord.unplaced = layers.map LayerRecord.unplaced :=
  map_numbered place (fun _ _ => rfl) layers

theorem placed_eq_renumber {layers : List LayerRecord} (h : layers.length ≤ 2 ^ 32) :
    placed layers = renumber layers := by
  apply List.ext_getElem
  · simp [renumber]
  · intro i hleft hright
    have hi : i < 2 ^ 32 := by
      rw [length_placed] at hleft
      omega
    have hmin : min i (2 ^ 32 - 1) = i := by omega
    simp only [placed, renumber, List.getElem_mapIdx, place, hmin]

/-- A change that does not look at places may be made before the layers get theirs. -/
theorem renumber_change_placed {change : List LayerRecord → List LayerRecord}
    (hchange : ∀ layers, (change layers).map LayerRecord.unplaced =
      change (layers.map LayerRecord.unplaced)) (layers : List LayerRecord) :
    renumber (change (placed layers)) = renumber (change layers) := by
  rw [← renumber_map_unplaced, hchange, map_unplaced_placed, ← hchange, renumber_map_unplaced]

/-- Up to 2³² layers, the one behind all others gets their number. -/
theorem placed_concat {layers : List LayerRecord} (layer : LayerRecord)
    (h : layers.length < 2 ^ 32) :
    placed (layers ++ [layer]) =
      placed layers ++ [{ layer with order := UInt32.ofNat layers.length }] := by
  have hmin : min layers.length (2 ^ 32 - 1) = layers.length := by omega
  have hnumber : place layers.length = UInt32.ofNat layers.length := by rw [place, hmin]
  simp [placed, List.mapIdx_append, hnumber]

namespace WellFormed

variable {c next : Catalog}

/-! ## Sections -/

theorem trees_createSection (h : WellFormed c) (hnext : WellFormed next) {id : SectionId}
    {fields : SectionFields} {record : SectionRecord} (hnew : c.sections.get? id = none)
    (hok : c.createSection id fields = .ok (record, next)) :
    next.trees = c.trees ++ [⟨⟨id, fields⟩, []⟩] := by
  rcases createSection_eq_ok hok with ⟨-, -, heq⟩
  have hsections : next.sections = c.sections.insert id ⟨fields, []⟩ := by rw [heq]
  have hold : ∀ other ∈ c.order, next.sectionTree other = c.sectionTree other := by
    intro other hmem
    have hne : id ≠ other := by
      rintro rfl
      obtain ⟨entry, hentry⟩ := h.mem_order_iff.1 hmem
      rw [hnew] at hentry
      cases hentry
    refine sectionTree_congr ?_ ?_ fun group _ => by rw [heq]; rfl
    · rw [sectionRecord_insert hsections, if_neg hne]
    · rw [groupIds_insert hsections, if_neg hne]
  have hself : next.sectionTree id = ⟨⟨id, fields⟩, []⟩ := by
    rw [sectionTree, sectionRecord_insert hsections, groupIds_insert hsections, if_pos rfl,
      if_pos rfl, List.map_nil]
  have horder : next.order = c.order ++ [id] := by rw [heq]
  rw [hnext.trees_eq_map, h.trees_eq_map, horder, List.map_append, List.map_congr_left hold,
    List.map_singleton, hself]

theorem trees_replaceSection (h : WellFormed c) (hnext : WellFormed next) {id : SectionId}
    {fields : SectionFields} {record : SectionRecord}
    (hok : c.replaceSection id fields = .ok (record, next)) :
    next.trees = mapSection id (fun tree => { tree with head := ⟨id, fields⟩ }) c.trees := by
  rcases replaceSection_eq_ok hok with ⟨-, -, entry, hentry, heq⟩
  have hsections : next.sections = c.sections.insert id { entry with fields := fields } := by
    rw [heq]
  have hgroups : ∀ group, next.groupTree group = c.groupTree group := by
    intro group
    rw [heq]
    rfl
  refine h.trees_eq_mapSection hnext (by rw [heq]) ?_ ?_
  · rw [sectionTree, sectionRecord_insert hsections, groupIds_insert hsections, if_pos rfl,
      if_pos rfl, sectionTree, groupIds_of_get? hentry,
      List.map_congr_left fun group _ => hgroups group]
  · intro other _ hne
    refine sectionTree_congr ?_ ?_ fun group _ => hgroups group
    · rw [sectionRecord_insert hsections, if_neg hne]
    · rw [groupIds_insert hsections, if_neg hne]

/-- Dropping groups leaves the trees of all others as they are. -/
theorem groupTree_dropGroups (h : Linked c.layerIds c.groupOf?) {ids : List GroupId}
    {id : GroupId} (hkept : id ∉ ids) :
    (c.dropGroups ids).2.groupTree id = c.groupTree id := by
  refine groupTree_congr ?_ ?_ ?_
  · apply groupRecord_congr
    rw [dropGroups_groups, if_neg hkept]
  · rw [dropGroups_layerIds, if_neg hkept]
  · intro layer hlayer
    apply layerRecord_congr
    rw [dropGroups_layers, if_neg]
    rw [h.mem_flatMap]
    rintro ⟨group, hgroup, hparent⟩
    rw [(h.mem_iff id layer).1 hlayer] at hparent
    cases hparent
    exact hkept hgroup

theorem trees_deleteSection (h : WellFormed c) (hnext : WellFormed next) {id : SectionId}
    {counts : Counts} (hok : c.deleteSection id = .ok (counts, next)) :
    next.trees = c.trees.filter fun tree => decide (tree.head.id ≠ id) := by
  rcases deleteSection_eq_ok hok with ⟨entry, hentry, -, rfl⟩
  have hsame := (c.detachSection id).dropGroups_sections entry.groups
  have hkept : ∀ other, other ≠ id →
      ((c.detachSection id).dropGroups entry.groups).2.sections.get? other =
        c.sections.get? other := by
    intro other hne
    rw [hsame.1, detachSection, Table.get?_erase, if_neg (Ne.symm hne)]
  rw [hnext.trees_eq_map, h.trees_eq_map, hsame.2, List.filter_map]
  apply List.map_congr_left
  intro other hmem
  have hne : other ≠ id := of_decide_eq_true (List.mem_filter.1 hmem).2
  refine sectionTree_congr (sectionRecord_congr (hkept other hne)) ?_ ?_
  · rw [groupIds, hkept other hne, groupIds]
  · intro group hgroup
    -- a group of another section is not one of those that go
    have hother : group ∉ entry.groups := by
      intro hgone
      rw [← groupIds_of_get? hentry] at hgone
      exact hne (h.groups.parent_unique hgroup hgone)
    exact groupTree_dropGroups (c := c.detachSection id) h.layers hother

/-! ## Groups -/

theorem trees_createGroup (h : WellFormed c) (hnext : WellFormed next) {id : GroupId}
    {fields : GroupFields} {record : GroupRecord} (hnew : c.groups.get? id = none)
    (hok : c.createGroup id fields = .ok (record, next)) :
    next.trees = appendGroup fields.sectionId ⟨⟨id, fields⟩, []⟩ c.trees := by
  rcases createGroup_eq_ok hok with ⟨-, -, entry, hentry, heq⟩
  have hsections : next.sections = c.sections.insert fields.sectionId
      { entry with groups := entry.groups ++ [id] } := by
    rw [heq]
  have hgroups : next.groups = c.groups.insert id ⟨fields, [], 0⟩ := by rw [heq]
  have hold : ∀ parent, ∀ group ∈ c.groupIds parent,
      next.groupTree group = c.groupTree group := by
    intro parent group hgroup
    have hne : id ≠ group := by
      rintro rfl
      exact h.groups.not_mem_of_none (by simp [sectionOf?, hnew]) parent hgroup
    refine groupTree_congr ?_ ?_ fun layer _ => by rw [heq]; rfl
    · rw [groupRecord_insert hgroups, if_neg hne]
    · rw [layerIds_insert hgroups, if_neg hne]
  have hself : next.groupTree id = ⟨⟨id, fields⟩, []⟩ := by
    rw [groupTree, groupRecord_insert hgroups, layerIds_insert hgroups, if_pos rfl, if_pos rfl]
    rfl
  refine h.trees_eq_mapSection hnext (by rw [heq]) ?_ ?_
  · have hlist : c.groupIds fields.sectionId = entry.groups := groupIds_of_get? hentry
    rw [sectionTree, sectionRecord_insert hsections, groupIds_insert hsections, if_pos rfl,
      if_pos rfl, List.map_append, List.map_singleton, hself, sectionTree, hlist,
      sectionRecord_of_get? hentry, List.map_congr_left (hlist ▸ hold fields.sectionId)]
  · intro other _ hne
    refine sectionTree_congr ?_ ?_ (hold other)
    · rw [sectionRecord_insert hsections, if_neg hne]
    · rw [groupIds_insert hsections, if_neg hne]

/-- Where all other groups keep their trees, a list without a group shows the trees without its tree. -/
theorem map_groupTree_filter {id : GroupId}
    (hkept : ∀ group, group ≠ id → next.groupTree group = c.groupTree group)
    (ids : List GroupId) :
    (ids.filter fun group => decide (group ≠ id)).map next.groupTree =
      (ids.map c.groupTree).filter fun tree => decide (tree.group.id ≠ id) := by
  rw [List.filter_map]
  apply List.map_congr_left
  intro group hgroup
  exact hkept group (of_decide_eq_true (List.mem_filter.1 hgroup).2)

theorem trees_deleteGroup (h : WellFormed c) (hnext : WellFormed next) {id : GroupId}
    {counts : Counts} (hok : c.deleteGroup id = .ok (counts, next)) :
    next.trees = removeGroup id c.trees := by
  rcases deleteGroup_eq_ok hok with ⟨entry, hentry, -, rfl⟩
  have hsame := (c.detachGroup entry.fields.sectionId id).dropGroups_sections [id]
  have hkept : ∀ group, group ≠ id →
      ((c.detachGroup entry.fields.sectionId id).dropGroups [id]).2.groupTree group =
        c.groupTree group := by
    intro group hne
    exact groupTree_dropGroups (c := c.detachGroup _ id) h.layers (by simpa using hne)
  rw [hnext.trees_eq_map, h.trees_eq_map, hsame.2, removeGroup, List.map_map]
  apply List.map_congr_left
  intro other _
  have hrecord := sectionRecord_modify (c := c) hsame.1 (by intro _; rfl) other
  have hids := h.groupIds_filter (sectionOf?_of_get? hentry) hsame.1 other
  rw [Function.comp_apply, sectionTree, hrecord, hids, map_groupTree_filter hkept, sectionTree]

theorem nests_trees (h : WellFormed c) (parent : SectionId) (id : GroupId) :
    nests parent id c.trees = decide (c.sectionOf? id = some parent) := by
  rw [Bool.eq_iff_iff, decide_eq_true_eq, ← h.groups.mem_iff, nests, h.trees_eq_map]
  simp only [List.any_map, List.any_eq_true, Function.comp_apply, Bool.and_eq_true,
    decide_eq_true_eq]
  simp only [sectionTree, List.mem_map, groupTree, sectionRecord_id]
  constructor
  · rintro ⟨other, -, rfl, tree, ⟨group, hgroup, rfl⟩, rfl⟩
    exact hgroup
  · intro hmem
    obtain ⟨entry, hentry, -⟩ := mem_groupIds_iff.1 hmem
    exact ⟨parent, h.mem_order_iff.2 ⟨entry, hentry⟩, rfl, _, ⟨id, hmem, rfl⟩, rfl⟩

theorem find?_groups_trees (h : WellFormed c) {id : GroupId} {entry : GroupEntry}
    (hentry : c.groups.get? id = some entry) :
    (Forest.groups c.trees).find? (fun tree => decide (tree.group.id = id)) =
      some (c.groupTree id) := by
  have hstored := c.groups.contains_iff.2 ⟨entry, hentry⟩
  rw [← h.groupTree?_eq_find?, h.groupTree?_eq (by decide), if_pos hstored]

theorem groupTree_replaceGroup {id : GroupId} {fields : GroupFields} {entry : GroupEntry}
    (hentry : c.groups.get? id = some entry)
    (hgroups : next.groups = c.groups.insert id { entry with fields := fields })
    (hlayers : next.layers = c.layers) (group : GroupId) :
    next.groupTree group =
      if group = id then { c.groupTree id with group := ⟨id, fields⟩ } else c.groupTree group := by
  have hids : next.layerIds group = c.layerIds group := by
    rw [layerIds_insert hgroups]
    split
    · next heq =>
      rw [← heq, layerIds_of_get? hentry]
    · rfl
  have hrecords : ∀ layer, next.layerRecord layer = c.layerRecord layer := by
    intro layer
    exact layerRecord_congr (by rw [hlayers])
  split
  · next heq =>
    subst heq
    rw [groupTree, groupRecord_insert hgroups, if_pos rfl, hids,
      List.map_congr_left fun layer _ => hrecords layer, groupTree]
  · next hne =>
    refine groupTree_congr ?_ hids fun layer _ => hrecords layer
    rw [groupRecord_insert hgroups, if_neg (Ne.symm hne)]

/-- A group that goes to another section comes behind the groups of that section. -/
theorem trees_moveGroup (h : WellFormed c) (hnext : WellFormed next) {id : GroupId}
    {source target : SectionId} (hsource : c.sectionOf? id = some source)
    (htarget : c.sections.contains target = true) (hne : source ≠ target)
    (horder : next.order = c.order) (hsections : next.sections = moveGroup c.sections id source target)
    (hkept : ∀ group, group ≠ id → next.groupTree group = c.groupTree group) :
    next.trees = appendGroup target (next.groupTree id) (removeGroup id c.trees) := by
  rw [hnext.trees_eq_map, h.trees_eq_map, horder, removeGroup, appendGroup, mapSection,
    List.map_map, List.map_map]
  apply List.map_congr_left
  intro other _
  have hrecord := sectionRecord_moveGroup hsections other
  have hids := h.groupIds_moveGroup hsource htarget hne hsections other
  have hrest := map_groupTree_filter hkept (c.groupIds other)
  by_cases hother : target = other
  · subst hother
    rw [if_pos rfl] at hids
    refine Eq.trans ?_ (if_pos rfl).symm
    rw [sectionTree, hrecord, hids, List.map_append, List.map_singleton, hrest]
    rfl
  · rw [if_neg hother] at hids
    refine Eq.trans ?_ (if_neg (Ne.symm hother)).symm
    rw [sectionTree, hrecord, hids, hrest]
    rfl

theorem trees_replaceGroup (h : WellFormed c) (hnext : WellFormed next) {id : GroupId}
    {fields : GroupFields} {record : GroupRecord}
    (hok : c.replaceGroup id fields = .ok (record, next)) :
    next.trees = overwriteGroup id fields c.trees := by
  rcases replaceGroup_eq_ok hok with ⟨-, -, htarget, entry, hentry, heq⟩
  have hsource := sectionOf?_of_get? hentry
  have hsections : next.sections =
      moveGroup c.sections id entry.fields.sectionId fields.sectionId := by
    rw [heq]
  have horder : next.order = c.order := by rw [heq]
  have hgroupTree : ∀ group, next.groupTree group =
      if group = id then { c.groupTree id with group := ⟨id, fields⟩ } else c.groupTree group :=
    groupTree_replaceGroup hentry (by rw [heq]) (by rw [heq])
  by_cases hsame : entry.fields.sectionId = fields.sectionId
  · have hnests : nests fields.sectionId id c.trees = true := by
      rw [h.nests_trees, hsource, hsame]
      exact decide_eq_true rfl
    rw [overwriteGroup, if_pos hnests]
    refine h.trees_eq_mapGroups hnext horder (by rw [hsections, moveGroup, if_pos hsame]) ?_
    intro group
    rw [hgroupTree]
    by_cases hgroup : group = id
    · subst hgroup
      exact (if_pos rfl).trans (if_pos rfl).symm
    · exact (if_neg hgroup).trans (if_neg hgroup).symm
  · have hnests : nests fields.sectionId id c.trees = false := by
      rw [h.nests_trees, hsource]
      exact decide_eq_false fun heq => hsame (Option.some.inj heq)
    have hself : next.groupTree id = { c.groupTree id with group := ⟨id, fields⟩ } :=
      (hgroupTree id).trans (if_pos rfl)
    have hkept : ∀ group, group ≠ id → next.groupTree group = c.groupTree group :=
      fun group hne => (hgroupTree group).trans (if_neg hne)
    have hplain : overwriteGroup id fields c.trees =
        appendGroup fields.sectionId (next.groupTree id) (removeGroup id c.trees) := by
      simp [overwriteGroup, hnests, h.find?_groups_trees hentry, hself]
    rw [hplain]
    exact h.trees_moveGroup hnext hsource htarget hsame horder hsections hkept

/-! ## Layers -/

theorem trees_createLayer (h : WellFormed c) (hnext : WellFormed next) (hplaces : Placeable next)
    {id : LayerId} {group : GroupId} {fields : LayerFields} {record : LayerRecord}
    (hnew : c.layers.get? id = none)
    (hok : c.createLayer id group fields = .ok (record, next)) :
    next.trees = mapGroup group (fun tree =>
      { tree with
        layers := tree.layers ++
          [⟨id, group, UInt32.ofNat tree.layers.length, fields⟩] }) c.trees := by
  rcases createLayer_eq_ok hok with ⟨-, entry, hentry, -, heq⟩
  have hgroups : next.groups = c.groups.insert group
      { entry with layers := entry.layers ++ [id], revision := entry.revision + 1 } := by
    rw [heq]
  have hlayers : next.layers = c.layers.insert id ⟨group, fields⟩ := by rw [heq]
  have hold : ∀ other, ∀ layer ∈ c.layerIds other,
      next.layerRecord layer = c.layerRecord layer := by
    intro other layer hlayer
    rw [layerRecord_insert hlayers, if_neg]
    rintro rfl
    exact h.layers.not_mem_of_none (by simp [groupOf?, hnew]) other hlayer
  refine h.trees_eq_mapGroups hnext (by rw [heq]) (by rw [heq]) ?_
  intro other
  by_cases hother : group = other
  · subst hother
    have hlist : c.layerIds group = entry.layers := layerIds_of_get? hentry
    have hlong := hplaces group
    rw [layerIds_insert hgroups, if_pos rfl, List.length_append, List.length_singleton] at hlong
    have hshort : (entry.layers.map c.layerRecord).length < 2 ^ 32 := by
      rw [List.length_map]
      omega
    refine Eq.trans ?_ (if_pos rfl).symm
    rw [groupTree, groupRecord_insert hgroups, if_pos rfl, layerIds_insert hgroups, if_pos rfl,
      List.map_append, List.map_singleton, layerRecord_insert hlayers, if_pos rfl,
      List.map_congr_left (hlist ▸ hold group), placed_concat _ hshort, groupTree, hlist,
      groupRecord_of_get? hentry]
    simp only [length_placed]
  · refine Eq.trans ?_ (if_neg (Ne.symm hother)).symm
    refine groupTree_congr ?_ ?_ (hold other)
    · rw [groupRecord_insert hgroups, if_neg hother]
    · rw [layerIds_insert hgroups, if_neg hother]

theorem trees_replaceLayer (h : WellFormed c) (hnext : WellFormed next) {id : LayerId}
    {fields : LayerFields} {record : LayerRecord}
    (hok : c.replaceLayer id fields = .ok (record, next)) :
    next.trees = overwriteLayer id fields c.trees := by
  rcases replaceLayer_eq_ok hok with ⟨-, -, entry, hentry, heq⟩
  have hlayers : next.layers = c.layers.insert id { entry with fields := fields } := by rw [heq]
  have hrecords : ∀ layer, next.layerRecord layer =
      if layer = id then { c.layerRecord layer with fields := fields }
      else c.layerRecord layer := by
    intro layer
    rw [layerRecord_insert hlayers]
    by_cases hlayer : layer = id
    · subst hlayer
      rw [if_pos rfl, if_pos rfl, layerRecord_of_get? hentry]
    · rw [if_neg (Ne.symm hlayer), if_neg hlayer]
  refine h.trees_eq_mapGroups hnext (by rw [heq]) (by rw [heq]) ?_
  intro group
  have hrecord : next.groupRecord group = c.groupRecord group :=
    groupRecord_congr (by rw [heq])
  have hids : next.layerIds group = c.layerIds group := by
    rw [heq]
    rfl
  rw [groupTree, hrecord, hids, groupTree]
  refine congrArg (GroupTree.mk _) ?_
  apply List.ext_getElem?
  intro i
  simp only [placed, List.getElem?_map, List.getElem?_mapIdx, Option.map_map]
  congr 1
  funext layer
  simp only [Function.comp_apply, hrecords]
  by_cases hlayer : layer = id <;> simp [hlayer]

/-- An operation that puts the siblings of a layer into another order, or takes it out, does the same to
the trees. -/
theorem trees_eq_mapSiblings (h : WellFormed c) (hnext : WellFormed next)
    (hplaces : Placeable next) {id : LayerId} {change : List LayerRecord → List LayerRecord}
    {changeIds : List LayerId → List LayerId}
    (horder : next.order = c.order) (hsections : next.sections = c.sections)
    (hrecords : ∀ group, next.groupRecord group = c.groupRecord group)
    (hids : ∀ group, next.layerIds group =
      if id ∈ c.layerIds group then changeIds (c.layerIds group) else c.layerIds group)
    (hlayers : ∀ group, ∀ layer ∈ next.layerIds group,
      next.layerRecord layer = c.layerRecord layer)
    (hunplaced : ∀ layers, (change layers).map LayerRecord.unplaced =
      change (layers.map LayerRecord.unplaced))
    (hchange : ∀ ids, change (ids.map c.layerRecord) = (changeIds ids).map c.layerRecord) :
    next.trees = mapSiblings id change c.trees := by
  refine h.trees_eq_mapGroups hnext horder hsections ?_
  intro group
  rw [map_id_groupTree]
  by_cases hmem : id ∈ c.layerIds group
  · have hlist := hids group
    rw [if_pos hmem] at hlist
    have hsize : ((changeIds (c.layerIds group)).map c.layerRecord).length ≤ 2 ^ 32 := by
      rw [List.length_map, ← hlist]
      exact hplaces group
    rw [if_pos hmem, groupTree, hrecords, List.map_congr_left (hlayers group), hlist,
      placed_eq_renumber hsize, groupTree, renumber_change_placed hunplaced, hchange]
  · have hlist := hids group
    rw [if_neg hmem] at hlist
    rw [if_neg hmem]
    exact groupTree_congr (hrecords group) hlist (hlist ▸ hlayers group)

theorem trees_deleteLayer (h : WellFormed c) (hnext : WellFormed next)
    (hplaces : Placeable next) {id : LayerId} {counts : Counts}
    (hok : c.deleteLayer id = .ok (counts, next)) :
    next.trees =
      mapSiblings id (List.filter fun layer => decide (layer.id ≠ id)) c.trees := by
  rcases deleteLayer_eq_ok hok with ⟨-, entry, hentry, heq⟩
  have hgroups : next.groups = c.groups.modify entry.group fun group =>
      { group with
        layers := group.layers.filter fun layer => decide (layer ≠ id)
        revision := group.revision + 1 } := by
    rw [heq]
  have hmem := h.layers.mem_iff
  have hids : ∀ group, next.layerIds group =
      if id ∈ c.layerIds group then (c.layerIds group).filter fun layer => decide (layer ≠ id)
      else c.layerIds group := by
    intro group
    rw [layerIds_modify (List.filter _) rfl hgroups fun _ => rfl]
    by_cases hgroup : entry.group = group
    · rw [if_pos hgroup, if_pos ((hmem group id).2 (hgroup ▸ groupOf?_of_get? hentry))]
    · rw [if_neg hgroup, if_neg]
      intro hlisted
      exact hgroup (h.layers.parent_unique ((hmem _ id).2 (groupOf?_of_get? hentry)) hlisted)
  refine h.trees_eq_mapSiblings hnext hplaces (by rw [heq]) (by rw [heq]) ?_ hids ?_ ?_ ?_
  · exact groupRecord_modify hgroups fun _ => rfl
  · intro group layer hlayer
    apply layerRecord_congr
    have hne : id ≠ layer := by
      rintro rfl
      rw [hnext.layers.mem_iff, groupOf?, heq, Table.get?_erase, if_pos rfl] at hlayer
      cases hlayer
    rw [heq, Table.get?_erase, if_neg hne]
  · intro layers
    rw [List.filter_map]
    rfl
  · intro ids
    rw [List.filter_map]
    rfl

/-- A move exchanges a layer with its neighbour, where there is one. -/
theorem layerIds_moveLayer (h : WellFormed c) {id : LayerId} {direction : Direction}
    {expected : Option Nat} {moved : Moved}
    (hok : c.moveLayer id direction expected = .ok (moved, next)) (group : GroupId) :
    next.layerIds group =
      if id ∈ c.layerIds group then
        swap direction (fun layer => decide (layer = id)) (c.layerIds group)
      else c.layerIds group := by
  rcases moveLayer_eq_ok hok with ⟨entry, parent, position, hentry, hparent, -, hposition, hmove⟩
  have hlist : c.layerIds entry.group = parent.layers := layerIds_of_get? hparent
  have hlisted : id ∈ c.layerIds entry.group :=
    (h.layers.mem_iff _ id).2 (groupOf?_of_get? hentry)
  by_cases hgroup : entry.group = group
  · subst hgroup
    rw [if_pos hlisted]
    have hnodup := h.layers.nodup entry.group
    rw [hlist] at hnodup ⊢
    obtain ⟨hedge, -, rfl⟩ | ⟨neighbour, hneighbour, -, rfl⟩ := hmove
    · rw [hlist, swap_of_edge hnodup hposition hedge]
    · rw [layerIds_insert rfl, if_pos rfl, exchange_eq_swap hposition hneighbour]
  · have habsent : id ∉ c.layerIds group := fun hmem =>
      hgroup (h.layers.parent_unique hlisted hmem)
    rw [if_neg habsent]
    obtain ⟨-, -, rfl⟩ | ⟨neighbour, -, -, rfl⟩ := hmove
    · rfl
    · rw [layerIds_insert rfl, if_neg hgroup]

theorem trees_moveLayer (h : WellFormed c) (hnext : WellFormed next) (hplaces : Placeable next)
    {id : LayerId} {direction : Direction} {expected : Option Nat} {moved : Moved}
    (hok : c.moveLayer id direction expected = .ok (moved, next)) :
    next.trees =
      mapSiblings id (swap direction fun layer => decide (layer.id = id)) c.trees := by
  rcases moveLayer_eq_ok hok with ⟨entry, parent, position, -, hparent, -, -, hmove⟩
  have hkept : next.order = c.order ∧ next.sections = c.sections ∧ next.layers = c.layers ∧
      ∀ group, next.groupRecord group = c.groupRecord group := by
    obtain ⟨-, -, rfl⟩ | ⟨neighbour, -, -, rfl⟩ := hmove
    · exact ⟨rfl, rfl, rfl, fun _ => rfl⟩
    · refine ⟨rfl, rfl, rfl, fun group => ?_⟩
      rw [groupRecord_insert rfl]
      split
      · next hgroup =>
        rw [← hgroup, groupRecord_of_get? hparent]
      · rfl
  obtain ⟨horder, hsections, hlayers, hrecords⟩ := hkept
  refine h.trees_eq_mapSiblings hnext hplaces horder hsections hrecords
    (h.layerIds_moveLayer hok) ?_ ?_ ?_
  · intro group layer _
    exact layerRecord_congr (by rw [hlayers])
  · intro layers
    rw [swap_map]
    rfl
  · intro ids
    rw [swap_map]
    rfl

end WellFormed

/-! ## Operations -/

theorem WellFormed.trees_perform {c next : Catalog} {operation : Operation} {answer : Answer}
    (h : WellFormed c) (hfresh : Fresh c operation) (hplaces : Placeable next)
    (hok : c.perform operation = .ok (answer, next)) :
    next.trees = Forest.perform c.trees operation := by
  have hnext := h.perform hfresh hok
  cases operation with
  | createSection id fields =>
      rcases Edit.as_eq_ok hok with ⟨_, hok, -⟩
      exact h.trees_createSection hnext (c.sections.contains_eq_false_iff.1 (hfresh _ rfl)) hok
  | createGroup id fields =>
      rcases Edit.as_eq_ok hok with ⟨_, hok, -⟩
      exact h.trees_createGroup hnext (c.groups.contains_eq_false_iff.1 (hfresh _ rfl)) hok
  | createLayer id group fields =>
      rcases Edit.as_eq_ok hok with ⟨_, hok, -⟩
      have hnew := c.layers.contains_eq_false_iff.1 (hfresh _ rfl)
      exact h.trees_createLayer hnext hplaces hnew hok
  | replaceSection id fields =>
      rcases Edit.as_eq_ok hok with ⟨_, hok, -⟩
      exact h.trees_replaceSection hnext hok
  | replaceGroup id fields =>
      rcases Edit.as_eq_ok hok with ⟨_, hok, -⟩
      exact h.trees_replaceGroup hnext hok
  | replaceLayer id fields =>
      rcases Edit.as_eq_ok hok with ⟨_, hok, -⟩
      exact h.trees_replaceLayer hnext hok
  | deleteSection id =>
      rcases Edit.as_eq_ok hok with ⟨_, hok, -⟩
      exact h.trees_deleteSection hnext hok
  | deleteGroup id =>
      rcases Edit.as_eq_ok hok with ⟨_, hok, -⟩
      exact h.trees_deleteGroup hnext hok
  | deleteLayer id =>
      rcases Edit.as_eq_ok hok with ⟨_, hok, -⟩
      exact h.trees_deleteLayer hnext hplaces hok
  | moveLayer id direction expected =>
      rcases Edit.as_eq_ok hok with ⟨_, hok, -⟩
      exact h.trees_moveLayer hnext hplaces hok

def successes (c : Catalog) : List Operation → List Operation
  | [] => []
  | operation :: rest =>
      match c.perform operation with
      | .error _ => c.successes rest
      | .ok (_, c) => operation :: c.successes rest

/-- A whole run does to the listing what the plain operations do, those that fail left out. -/
theorem WellFormed.trees_run {c : Catalog} {history : List Operation} (h : WellFormed c)
    (hids : NeverRepeats c history)
    (hplaces : ∀ past, past <+: history → Placeable (c.run past)) :
    (c.run history).trees = (c.successes history).foldl Forest.perform c.trees := by
  induction history generalizing c with
  | nil =>
      rfl
  | cons operation rest ih =>
      have hsplit : NeverRepeats c ([operation] ++ rest) := hids
      have hrest : NeverRepeats (c.after operation) rest := hsplit.right
      have hplaces' : ∀ past, past <+: rest → Placeable ((c.after operation).run past) :=
        fun past hpast => hplaces (operation :: past) (List.cons_prefix_cons.2 ⟨rfl, hpast⟩)
      have hrun : c.run (operation :: rest) = (c.after operation).run rest := rfl
      rw [hrun]
      cases hok : c.perform operation with
      | error error =>
          rw [after_of_error hok] at hrest hplaces' ⊢
          rw [successes, hok]
          exact ih h hrest hplaces'
      | ok result =>
          obtain ⟨answer, next⟩ := result
          rw [after_of_ok hok] at hrest hplaces' ⊢
          have hfresh := hids.fresh hok
          have hplacesNext : Placeable next := hplaces' [] List.nil_prefix
          have hstep := h.trees_perform hfresh hplacesNext hok
          rw [ih (h.perform hfresh hok) hrest hplaces', successes, hok, List.foldl_cons, hstep]

/-- At every catalogue at which a run arrives, an operation that succeeds does to the listing what the
plain operation does to a list of trees. -/
theorem perform_refines {c next : Catalog} {operation : Operation} {answer : Answer}
    (h : Reachable c) (hfresh : Fresh c operation) (hplaces : Placeable next)
    (hok : c.perform operation = .ok (answer, next)) :
    next.trees = Forest.perform c.trees operation :=
  h.wellFormed.trees_perform hfresh hplaces hok

theorem sample_refines :
    Reachable (empty.run sample) ∧
      ∃ answer next, Fresh (empty.run sample) (.deleteLayer ⟨5⟩) ∧ Placeable next ∧
        (empty.run sample).perform (.deleteLayer ⟨5⟩) = .ok (answer, next) ∧
          next.trees = Forest.perform (empty.run sample).trees (.deleteLayer ⟨5⟩) := by
  have hfresh : Fresh (empty.run sample) (.deleteLayer ⟨5⟩) := by
    intro id hid
    cases hid
  obtain ⟨⟨answer, next⟩, hok⟩ : ∃ result,
      (empty.run sample).perform (.deleteLayer ⟨5⟩) = .ok result := ⟨_, rfl⟩
  have hplaces : Placeable next := by
    refine (reachable_sample.wellFormed.perform hfresh hok).placeable ?_
    cases hok
    decide
  exact ⟨reachable_sample, answer, next, hfresh, hplaces, hok,
    perform_refines reachable_sample hfresh hplaces hok⟩

end Catalog

end MapCatalog
