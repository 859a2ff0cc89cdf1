import MapCatalog.Proofs.Catalog.Deletion
import MapCatalog.Proofs.Catalog.Refinement
import MapCatalog.Proofs.Catalog.Replacing

/-! # Views of a record

A record is read on its own, inside the record that it is in, and inside the listing, and each of these reads finds its
order in a way of its own.
-/

namespace MapCatalog

/-! ## Records of any tier -/

/-- A record of any tier, with what was read below it. -/
inductive Node where
  | aSection (tree : SectionTree)
  | aGroup (tree : GroupTree)
  | aLayer (record : LayerRecord)
deriving DecidableEq

def GroupTree.cut : Nat → GroupTree → GroupTree
  | 0, tree => { tree with layers := [] }
  | _ + 1, tree => tree

def SectionTree.cut : Nat → SectionTree → SectionTree
  | 0, tree => { tree with groups := [] }
  | depth + 1, tree => { tree with groups := tree.groups.map (GroupTree.cut depth) }

/-- A record without what is more than some levels below it.  A layer has nothing below it. -/
def Node.cut (depth : Nat) : Node → Node
  | .aSection tree => .aSection (tree.cut depth)
  | .aGroup tree => .aGroup (tree.cut depth)
  | .aLayer record => .aLayer record

theorem Node.cut_of_le {depth : Nat} (h : Catalog.fullDepth ≤ depth) (node : Node) :
    node.cut depth = node := by
  obtain ⟨depth, rfl⟩ := Nat.exists_eq_add_of_le' h
  cases node with
  | aSection tree =>
      have hgroups : tree.groups.map (GroupTree.cut (depth + 1)) = tree.groups := List.map_id _
      simp [Node.cut, SectionTree.cut, Catalog.fullDepth, hgroups]
  | aGroup tree =>
      rfl
  | aLayer record =>
      rfl

theorem Node.cut_zero_cut (depth : Nat) (node : Node) : (node.cut depth).cut 0 = node.cut 0 := by
  cases node <;> cases depth <;> rfl

def Answer.node? : Answer → Option Node
  | .aSection record => some (.aSection ⟨record, []⟩)
  | .aGroup record => some (.aGroup ⟨record, []⟩)
  | .aLayer record => some (.aLayer record)
  | .removed _ | .moved _ => none

def Operation.writes? : Operation → Option RecordId
  | .createSection id _ | .replaceSection id _ => some ⟨.sections, id⟩
  | .createGroup id _ | .replaceGroup id _ => some ⟨.groups, id⟩
  | .createLayer id _ _ | .replaceLayer id _ => some ⟨.layers, id⟩
  | .deleteSection _ | .deleteGroup _ | .deleteLayer _ | .moveLayer _ _ _ => none

namespace Catalog

/-- Read a record of any tier with so many levels below it. -/
def read? (c : Catalog) (depth : Nat) : RecordId → Option Node
  | ⟨.sections, id⟩ => (c.sectionTree? depth id).map .aSection
  | ⟨.groups, id⟩ => (c.groupTree? depth id).map .aGroup
  | ⟨.layers, id⟩ => (c.layer? id).map .aLayer

/-! ## Depths -/

theorem groupTree?_eq_cut (c : Catalog) (depth deeper : Nat) (id : GroupId) :
    c.groupTree? depth id = (c.groupTree? (deeper + 1) id).map (GroupTree.cut depth) := by
  cases depth <;> simp [groupTree?, GroupTree.cut, Function.comp_def]

theorem sectionTree?_eq_cut (c : Catalog) (depth : Nat) (id : SectionId) :
    c.sectionTree? depth id = (c.sectionTree? fullDepth id).map (SectionTree.cut depth) := by
  cases depth with
  | zero =>
      simp [sectionTree?, SectionTree.cut, Function.comp_def]
  | succ depth =>
      have hgroups : ∀ ids : List GroupId, ids.filterMap (c.groupTree? depth) =
          (ids.filterMap (c.groupTree? 1)).map (GroupTree.cut depth) := by
        intro ids
        rw [List.map_filterMap]
        exact List.filterMap_congr fun group _ => c.groupTree?_eq_cut depth 0 group
      simp [sectionTree?, SectionTree.cut, fullDepth, Function.comp_def, hgroups]

/-- A read to some depth is the full read with the rest cut off. -/
theorem read?_eq_cut (c : Catalog) (depth : Nat) (id : RecordId) :
    c.read? depth id = (c.read? fullDepth id).map (Node.cut depth) := by
  rcases id with ⟨_ | _ | _, id⟩
  · simp only [read?, c.sectionTree?_eq_cut depth, Option.map_map]
    rfl
  · simp only [read?, c.groupTree?_eq_cut depth 1, fullDepth, Option.map_map]
    rfl
  · simp only [read?, Option.map_map]
    rfl

theorem read?_of_le (c : Catalog) {depth : Nat} (h : fullDepth ≤ depth) (id : RecordId) :
    c.read? depth id = c.read? fullDepth id := by
  rw [c.read?_eq_cut depth, funext (Node.cut_of_le h)]
  exact Option.map_id'

/-- Every read of a record shows the record alone in the same way. -/
theorem map_cut_zero_read? (c : Catalog) (depth : Nat) (id : RecordId) :
    (c.read? depth id).map (Node.cut 0) = c.read? 0 id := by
  rw [c.read?_eq_cut depth, c.read?_eq_cut 0, Option.map_map]
  exact congrArg (Option.map · _) (funext (Node.cut_zero_cut depth))

variable {c next : Catalog}

/-! ## Places -/

structure ShowsSection (c : Catalog) (tree : SectionTree) : Prop where
  read : c.sectionTree? fullDepth tree.head.id = some tree
  listed : c.trees.find? (fun other => decide (other.head.id = tree.head.id)) = some tree

structure ShowsGroup (c : Catalog) (parent : SectionTree) (tree : GroupTree) : Prop where
  read : c.groupTree? fullDepth tree.group.id = some tree
  parent_id : tree.group.fields.sectionId = parent.head.id
  inside : parent.groups.find? (fun other => decide (other.group.id = tree.group.id)) = some tree

/-- A layer is read as it stands in its group, at the index that its order gives. -/
structure ShowsLayer (c : Catalog) (parent : GroupTree) (layer : LayerRecord) : Prop where
  read : c.layer? layer.id = some layer
  parent_id : layer.groupId = parent.group.id
  inside : parent.layers[layer.order.toNat]? = some layer

theorem toNat_place_listed (hplaces : Placeable c) {parent : GroupId} {id : LayerId} {position : Nat}
    (hposition : (c.layerIds parent)[position]? = some id) : (place position).toNat = position := by
  obtain ⟨hlt, -⟩ := List.getElem?_eq_some_iff.1 hposition
  exact toNat_place (Nat.lt_of_lt_of_le hlt (hplaces parent))

theorem getElem?_of_position? {id : LayerId} {ids : List LayerId} {position : Nat}
    (h : position? id ids = some position) : ids[position]? = some id := by
  obtain ⟨hlt, hat, -⟩ := List.findIdx?_eq_some_iff_getElem.1 h
  exact List.getElem?_eq_some_iff.2 ⟨hlt, of_decide_eq_true hat⟩

namespace WellFormed

theorem contains_of_mem_groupIds (h : WellFormed c) {parent : SectionId} {id : GroupId}
    (hmem : id ∈ c.groupIds parent) : c.groups.contains id = true := by
  obtain ⟨entry, hentry, -⟩ := h.group_of_mem hmem
  exact c.groups.contains_iff.2 ⟨entry, hentry⟩

theorem showsSection (h : WellFormed c) {id : SectionId} (hstored : c.sections.contains id = true) :
    ShowsSection c (c.sectionTree id) := by
  have hread : c.sectionTree? fullDepth id = some (c.sectionTree id) := by
    rw [h.sectionTree?_eq, if_pos hstored]
  exact ⟨hread, (h.sectionTree?_eq_find? id).symm.trans hread⟩

theorem showsGroup (h : WellFormed c) {parent : SectionId} {id : GroupId}
    (hmem : id ∈ c.groupIds parent) : ShowsGroup c (c.sectionTree parent) (c.groupTree id) := by
  obtain ⟨entry, hentry, hparent⟩ := h.group_of_mem hmem
  refine ⟨?_, ?_, ?_⟩
  · exact (h.groupTree?_eq (by decide) id).trans (if_pos (h.contains_of_mem_groupIds hmem))
  · simp [groupTree, groupRecord, hentry, hparent, sectionTree]
  · have hids : (c.sectionTree parent).groups.map (fun tree => tree.group.id) = c.groupIds parent := by
      rw [sectionTree, List.map_map]
      exact List.map_id _
    refine (find?_eq_some_iff_of_nodup ?_).2 ⟨List.mem_map_of_mem hmem, rfl⟩
    rw [hids]
    exact h.groups.nodup parent

theorem showsLayer (h : WellFormed c) (hplaces : Placeable c) {parent : GroupId} {id : LayerId}
    {position : Nat} (hposition : (c.layerIds parent)[position]? = some id) :
    ShowsLayer c (c.groupTree parent) { c.layerRecord id with order := place position } := by
  obtain ⟨entry, hentry, hparent⟩ := h.layer_of_mem (List.mem_of_getElem? hposition)
  have hplace := toNat_place_listed hplaces hposition
  refine ⟨h.layer?_of_getElem? hposition, ?_, ?_⟩
  · simp [layerRecord, groupOf?_of_get? hentry, hparent, groupTree]
  · simp [hplace, groupTree, placed, List.getElem?_mapIdx, hposition]

end WellFormed

/-- Whatever a read shows of a record, the other reads show as well. -/
structure ViewsAgree (c : Catalog) : Prop where
  section_read : ∀ id tree, c.sectionTree? fullDepth id = some tree →
    tree.head.id = id ∧ ShowsSection c tree
  group_read : ∀ id tree, c.groupTree? fullDepth id = some tree →
    tree.group.id = id ∧ ∃ parent, ShowsSection c parent ∧ ShowsGroup c parent tree
  layer_read : ∀ id layer, c.layer? id = some layer →
    layer.id = id ∧ ∃ parent tree, ShowsSection c parent ∧ ShowsGroup c parent tree ∧
      ShowsLayer c tree layer
  listed : ∀ parent ∈ c.trees, ShowsSection c parent ∧
    ∀ tree ∈ parent.groups, ShowsGroup c parent tree ∧
      ∀ index layer, tree.layers[index]? = some layer →
        ShowsLayer c tree layer ∧ layer.order.toNat = index
  depths : ∀ depth id, c.read? depth id = (c.read? fullDepth id).map (Node.cut depth)
  full_depth : ∀ depth id, fullDepth ≤ depth → c.read? depth id = c.read? fullDepth id

namespace WellFormed

theorem exists_showsGroup (h : WellFormed c) {id : GroupId} {entry : GroupEntry}
    (hentry : c.groups.get? id = some entry) :
    ∃ parent, ShowsSection c parent ∧ ShowsGroup c parent (c.groupTree id) := by
  obtain ⟨parent, hparent, hmem⟩ := h.section_of_group hentry
  have hstored : c.sections.contains entry.fields.sectionId = true :=
    c.sections.contains_iff.2 ⟨parent, hparent⟩
  exact ⟨c.sectionTree entry.fields.sectionId, h.showsSection hstored,
    h.showsGroup (mem_groupIds_iff.2 ⟨parent, hparent, hmem⟩)⟩

theorem exists_showsLayer (h : WellFormed c) (hplaces : Placeable c) {id : LayerId}
    {layer : LayerRecord} (hlayer : c.layer? id = some layer) :
    ∃ parent tree, ShowsSection c parent ∧ ShowsGroup c parent tree ∧ ShowsLayer c tree layer := by
  obtain ⟨entry, group, position, -, hgroup, hposition, -⟩ := layer?_eq_some_iff.1 hlayer
  obtain ⟨parent, hparent, hshown⟩ := h.exists_showsGroup hgroup
  have hat : (c.layerIds entry.group)[position]? = some id := by
    rw [layerIds_of_get? hgroup]
    exact getElem?_of_position? hposition
  obtain rfl := Option.some.inj ((h.layer?_of_getElem? hat).symm.trans hlayer)
  exact ⟨parent, c.groupTree entry.group, hparent, hshown, h.showsLayer hplaces hat⟩

theorem viewsAgree (h : WellFormed c) (hplaces : Placeable c) : ViewsAgree c := by
  refine ⟨?_, ?_, ?_, ?_, c.read?_eq_cut, fun depth id hdepth => c.read?_of_le hdepth id⟩
  · intro id tree hread
    rw [h.sectionTree?_eq] at hread
    split at hread
    · next hstored =>
      cases hread
      exact ⟨rfl, h.showsSection hstored⟩
    · cases hread
  · intro id tree hread
    rw [h.groupTree?_eq (by decide)] at hread
    split at hread
    · next hstored =>
      cases hread
      obtain ⟨entry, hentry⟩ := c.groups.contains_iff.1 hstored
      exact ⟨rfl, h.exists_showsGroup hentry⟩
    · cases hread
  · intro id layer hlayer
    obtain ⟨entry, group, position, -, -, -, rfl⟩ := layer?_eq_some_iff.1 hlayer
    exact ⟨rfl, h.exists_showsLayer hplaces hlayer⟩
  · intro parent hparent
    rw [h.trees_eq_map] at hparent
    obtain ⟨id, hid, rfl⟩ := List.mem_map.1 hparent
    refine ⟨h.showsSection ((h.mem_order id).1 hid), fun tree htree => ?_⟩
    obtain ⟨group, hgroup, rfl⟩ := List.mem_map.1 htree
    refine ⟨h.showsGroup hgroup, fun index layer hat => ?_⟩
    simp only [groupTree, placed, List.getElem?_mapIdx, List.getElem?_map, Option.map_map,
      Option.map_eq_some_iff] at hat
    obtain ⟨id, hid, rfl⟩ := hat
    exact ⟨h.showsLayer hplaces hid, toNat_place_listed hplaces hid⟩

end WellFormed

/-! ## Answers -/

/-- The record that an operation creates or replaces is answered as it is read afterwards, whatever is read
with it. -/
def AnswersRead (operation : Operation) (answer : Answer) (next : Catalog) : Prop :=
  ∀ id, operation.writes? = some id →
    ∃ record, answer.node? = some record ∧
      ∀ depth, (next.read? depth id).map (Node.cut 0) = some record

theorem read?_section_alone {id : SectionId} {fields : SectionFields}
    (h : (c.sections.get? id).map SectionEntry.fields = some fields) :
    c.read? 0 ⟨.sections, id⟩ = some (.aSection ⟨⟨id, fields⟩, []⟩) := by
  obtain ⟨entry, hentry, rfl⟩ := Option.map_eq_some_iff.1 h
  simp [read?, sectionTree?, hentry]

theorem read?_group_alone {id : GroupId} {fields : GroupFields}
    (h : (c.groups.get? id).map GroupEntry.fields = some fields) :
    c.read? 0 ⟨.groups, id⟩ = some (.aGroup ⟨⟨id, fields⟩, []⟩) := by
  obtain ⟨entry, hentry, rfl⟩ := Option.map_eq_some_iff.1 h
  simp [read?, groupTree?, hentry]

/-- What is put behind a list without it is found at the length of the list. -/
theorem position?_concat {id : LayerId} {ids : List LayerId} (h : id ∉ ids) :
    position? id (ids ++ [id]) = some ids.length := by
  have hearlier : ∀ other ∈ ids, decide (other = id) = false := by
    rintro other hother
    exact decide_eq_false fun heq => h (heq ▸ hother)
  rw [position?, List.findIdx?_append, List.findIdx?_eq_none_iff.2 hearlier]
  simp

/-- A new layer stands behind the others, where its answer places it. -/
theorem WellFormed.layer?_createLayer (h : WellFormed c) {id : LayerId} {group : GroupId}
    {fields : LayerFields} {record : LayerRecord} (hnew : c.layers.get? id = none)
    (hok : c.createLayer id group fields = .ok (record, next)) : next.layer? id = some record := by
  rcases createLayer_eq_ok hok with ⟨-, entry, hentry, rfl, rfl⟩
  have hunlisted : id ∉ entry.layers := by
    rw [← layerIds_of_get? hentry]
    exact h.layers.not_mem_of_none (by simp [groupOf?, hnew]) group
  exact layer?_eq_some_iff.2 ⟨_, _, _, Table.get?_insert_self _ _ _, Table.get?_insert_self _ _ _,
    position?_concat hunlisted, rfl⟩

/-- The record that was written is read alone as it was answered. -/
theorem WellFormed.read?_written (h : WellFormed c) {operation : Operation} {answer : Answer}
    (hfresh : Fresh c operation) (hok : c.perform operation = .ok (answer, next)) {id : RecordId}
    (hid : operation.writes? = some id) :
    ∃ record, answer.node? = some record ∧ next.read? 0 id = some record := by
  cases operation with
  | createSection new fields =>
      cases hid
      obtain ⟨record, hedit, rfl⟩ := Edit.as_eq_ok hok
      obtain ⟨-, rfl, rfl⟩ := createSection_eq_ok hedit
      exact ⟨_, rfl, read?_section_alone (by simp)⟩
  | createGroup new fields =>
      cases hid
      obtain ⟨record, hedit, rfl⟩ := Edit.as_eq_ok hok
      obtain ⟨-, rfl, entry, -, rfl⟩ := createGroup_eq_ok hedit
      exact ⟨_, rfl, read?_group_alone (by simp)⟩
  | createLayer new group fields =>
      cases hid
      obtain ⟨record, hedit, rfl⟩ := Edit.as_eq_ok hok
      have hnew := c.layers.contains_eq_false_iff.1 (hfresh _ rfl)
      exact ⟨_, rfl, congrArg (Option.map Node.aLayer) (h.layer?_createLayer hnew hedit)⟩
  | replaceSection old fields =>
      cases hid
      obtain ⟨record, hedit, rfl⟩ := Edit.as_eq_ok hok
      obtain ⟨-, rfl, entry, -, rfl⟩ := replaceSection_eq_ok hedit
      exact ⟨_, rfl, read?_section_alone (by simp)⟩
  | replaceGroup old fields =>
      cases hid
      obtain ⟨record, hedit, rfl⟩ := Edit.as_eq_ok hok
      obtain ⟨-, rfl, -, entry, -, rfl⟩ := replaceGroup_eq_ok hedit
      exact ⟨_, rfl, read?_group_alone (by simp)⟩
  | replaceLayer old fields =>
      cases hid
      obtain ⟨record, hedit, rfl⟩ := Edit.as_eq_ok hok
      exact ⟨_, rfl, congrArg (Option.map Node.aLayer) (replaceLayer_eq_ok hedit).2.1⟩
  | deleteSection | deleteGroup | deleteLayer | moveLayer =>
      cases hid

theorem WellFormed.answersRead (h : WellFormed c) {operation : Operation} {answer : Answer}
    (hfresh : Fresh c operation) (hok : c.perform operation = .ok (answer, next)) :
    AnswersRead operation answer next := by
  intro id hid
  obtain ⟨record, hrecord, hread⟩ := h.read?_written hfresh hok hid
  exact ⟨record, hrecord, fun depth => (next.map_cut_zero_read? depth id).trans hread⟩

/-- At every catalogue at which a run arrives all reads agree, as long as the places suffice, and what a
creation or a replacement answers is what is read of its record afterwards. -/
theorem reads_agree (h : Reachable c) (hplaces : Placeable c) :
    ViewsAgree c ∧
      ∀ operation answer next, Fresh c operation → operation.work.run c = .ok answer next →
        AnswersRead operation answer next ∧ (Placeable next → ViewsAgree next) := by
  have hwell := h.wellFormed
  refine ⟨hwell.viewsAgree hplaces, fun operation answer next hfresh hok => ?_⟩
  have hperform : c.perform operation = .ok (answer, next) :=
    Edit.eq_ok_of_settle ((hwell.run_work operation).symm.trans hok)
  exact ⟨hwell.answersRead hfresh hperform, (hwell.perform hfresh hperform).viewsAgree⟩

theorem sample_reads_agree :
    Reachable (empty.run sample) ∧ Placeable (empty.run sample) ∧
      ViewsAgree (empty.run sample) ∧
      ∀ operation answer next, Fresh (empty.run sample) operation →
        operation.work.run (empty.run sample) = .ok answer next →
        AnswersRead operation answer next ∧ (Placeable next → ViewsAgree next) := by
  have hplaces : Placeable (empty.run sample) := reachable_sample.wellFormed.placeable (by decide)
  exact ⟨reachable_sample, hplaces, reads_agree reachable_sample hplaces⟩

end Catalog

end MapCatalog
