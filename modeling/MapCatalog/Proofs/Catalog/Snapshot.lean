import MapCatalog.Proofs.Catalog.Refinement

/-! # Snapshots

A listing is in normal form already, and reading a record is looking it up in the listing, so nothing is lost by
taking a snapshot and loading it.
-/

namespace MapCatalog

namespace Forest

/-! ## Normal form -/

def Placeable (forest : List SectionTree) : Prop :=
  ∀ tree ∈ groups forest, tree.layers.length ≤ 2 ^ 32

theorem sortLayers_perm (layers : List LayerRecord) : (sortLayers layers).Perm layers :=
  List.mergeSort_perm _ _

theorem length_renumber (layers : List LayerRecord) : (renumber layers).length = layers.length :=
  List.length_mapIdx

theorem sortLayers_renumber {layers : List LayerRecord} (h : layers.length ≤ 2 ^ 32) :
    sortLayers (renumber layers) = renumber layers := by
  apply List.mergeSort_of_pairwise
  rw [List.pairwise_iff_getElem]
  intro i j hi hj hij
  rw [length_renumber] at hi hj
  simp only [renumber, List.getElem_mapIdx, decide_eq_true_eq, UInt32.le_iff_toNat_le,
    UInt32.toNat_ofNat']
  omega

theorem renumber_renumber (layers : List LayerRecord) :
    renumber (renumber layers) = renumber layers := by
  apply List.ext_getElem?
  intro i
  simp only [renumber, List.getElem?_mapIdx, Option.map_map]
  rfl

theorem normaliseGroup_of_renumbered {parent : SectionId} {tree : GroupTree}
    {layers : List LayerRecord} (hsize : layers.length ≤ 2 ^ 32)
    (hparent : tree.group.fields.sectionId = parent)
    (hgroup : ∀ layer ∈ layers, layer.groupId = tree.group.id)
    (hlayers : tree.layers = renumber layers) : normaliseGroup parent tree = tree := by
  have hnested : (renumber layers).map (fun layer => { layer with groupId := tree.group.id }) =
      renumber layers := by
    refine (List.map_congr_left fun layer hlayer => ?_).trans (List.map_id _)
    obtain ⟨i, hi, rfl⟩ := List.mem_mapIdx.1 hlayer
    rw [← hgroup layers[i] (List.getElem_mem hi)]
    rfl
  subst hparent
  rw [normaliseGroup, hlayers, sortLayers_renumber hsize, hnested, renumber_renumber, ← hlayers]

theorem sortLayers_normaliseGroup {parent : SectionId} {tree : GroupTree}
    (hsize : tree.layers.length ≤ 2 ^ 32) :
    sortLayers (normaliseGroup parent tree).layers = (normaliseGroup parent tree).layers := by
  apply sortLayers_renumber
  rw [List.length_map, (sortLayers_perm tree.layers).length_eq]
  exact hsize

end Forest

namespace Catalog

open Forest

theorem sortedLayers_eq (tree : GroupTree) : sortedLayers tree = sortLayers tree.layers := by
  rw [sortedLayers, Sequence.stableSort_eq_mergeSort, sortLayers]
  congr 1
  funext a b
  exact decide_eq_decide.2 (Int.ofNat_le.trans UInt32.le_iff_toNat_le.symm)

/-! ## Loading -/

/-- Trees can be loaded exactly when no identifier occurs twice in its tier. -/
theorem exists_ofTrees_iff {trees : List SectionTree} :
    (∃ c, ofTrees trees = .ok c) ↔ DistinctIds trees := by
  simp only [ofTrees_eq_ok_iff]
  rw [exists_contents_eq_iff]
  have hsections : (contentsOf trees).sections.map Prod.fst = trees.map fun tree => tree.head.id := by
    simp [contentsOf, sectionEntry, Function.comp_def]
  have hgroups : (contentsOf trees).groups.map Prod.fst =
      (Forest.groups trees).map fun tree => tree.group.id := by
    simp [contentsOf, groupEntry, Forest.groups, List.map_flatMap, Function.comp_def]
  have hlayers : ((contentsOf trees).layers.map Prod.fst).Perm
      ((Forest.layers trees).map LayerRecord.id) := by
    have hsorted : (contentsOf trees).layers.map Prod.fst =
        (Forest.groups trees).flatMap fun tree => (sortedLayers tree).map LayerRecord.id := by
      simp [contentsOf, layerEntries, layerEntry, Forest.groups, List.map_flatMap,
        List.flatMap_assoc, Function.comp_def]
    rw [hsorted, Forest.layers, List.map_flatMap]
    apply List.Perm.flatMap_left _
    intro tree _
    rw [sortedLayers_eq]
    exact (sortLayers_perm tree.layers).map _
  constructor
  · intro h
    exact ⟨hsections ▸ h.sections, hgroups ▸ h.groups, hlayers.nodup_iff.1 h.layers⟩
  · intro h
    exact ⟨hsections.symm ▸ h.sections, hgroups.symm ▸ h.groups, hlayers.nodup_iff.2 h.layers⟩

theorem trees_ofTrees {trees : List SectionTree} {c : Catalog} (hplaces : Forest.Placeable trees)
    (h : ofTrees trees = .ok c) : c.trees = normalise trees := by
  have hcontents := ofTrees_eq_ok_iff.1 h
  have horder : c.order = trees.map fun tree => tree.head.id :=
    congrArg Contents.order hcontents
  rw [(wellFormed_ofTrees h).trees_eq_map, horder, List.map_map, normalise]
  apply List.map_congr_left
  intro tree htree
  have hsection := (get?_sections_of_contents hcontents).2 ⟨tree, htree, rfl⟩
  rw [Function.comp_apply, sectionTree, sectionRecord_of_get? hsection, groupIds_of_get? hsection,
    List.map_map]
  refine congrArg (SectionTree.mk _) (List.map_congr_left fun group hgroup => ?_)
  have hentry := (get?_groups_of_contents hcontents).2 ⟨tree, htree, group, hgroup, rfl⟩
  have hrecords : ((sortedLayers group).map LayerRecord.id).map c.layerRecord =
      ((sortLayers group.layers).map fun layer =>
        { layer with groupId := group.group.id }).map LayerRecord.unplaced := by
    rw [List.map_map, List.map_map, ← sortedLayers_eq]
    apply List.map_congr_left
    intro layer hlayer
    have hlayer := (get?_layers_of_contents hcontents).2
      ⟨tree, htree, group, hgroup, layer, hlayer, rfl⟩
    exact layerRecord_of_get? hlayer
  have hsize : ((sortLayers group.layers).map fun layer =>
      { layer with groupId := group.group.id }).length ≤ 2 ^ 32 := by
    rw [List.length_map, (sortLayers_perm group.layers).length_eq]
    exact hplaces group (List.mem_flatMap.2 ⟨tree, htree, hgroup⟩)
  rw [Function.comp_apply, groupTree, groupRecord_of_get? hentry, layerIds_of_get? hentry,
    hrecords, placed_eq_renumber (by rw [List.length_map]; exact hsize),
    renumber_map_unplaced]
  rfl

theorem contentsOf_normalise {trees : List SectionTree} (hplaces : Forest.Placeable trees) :
    contentsOf (normalise trees) = contentsOf trees := by
  have hsorted : ∀ tree ∈ trees, ∀ group ∈ tree.groups,
      sortedLayers (normaliseGroup tree.head.id group) =
        (normaliseGroup tree.head.id group).layers := by
    intro tree htree group hgroup
    rw [sortedLayers_eq]
    exact sortLayers_normaliseGroup (hplaces group (List.mem_flatMap.2 ⟨tree, htree, hgroup⟩))
  have hgroup : ∀ tree ∈ trees, ∀ group ∈ tree.groups,
      groupEntry tree.head.id (normaliseGroup tree.head.id group) =
        groupEntry tree.head.id group := by
    intro tree htree group hgroup
    have hids : (normaliseGroup tree.head.id group).layers.map LayerRecord.id =
        (sortedLayers group).map LayerRecord.id := by
      rw [normaliseGroup, renumber, map_numbered UInt32.ofNat fun _ _ => rfl, List.map_map,
        sortedLayers_eq]
      rfl
    rw [groupEntry, hsorted tree htree group hgroup, hids]
    rfl
  have hlayers : ∀ tree ∈ trees, ∀ group ∈ tree.groups,
      layerEntries (normaliseGroup tree.head.id group) = layerEntries group := by
    intro tree htree group hgroup
    rw [layerEntries, hsorted tree htree group hgroup, layerEntries, sortedLayers_eq,
      normaliseGroup, renumber, map_numbered UInt32.ofNat fun _ _ => rfl, List.map_map]
    rfl
  simp only [contentsOf, normalise, Contents.mk.injEq, List.map_map, List.flatMap_map]
  refine ⟨rfl, ?_, ?_, ?_⟩
  · apply List.map_congr_left
    intro tree _
    simp only [Function.comp_apply, sectionEntry, List.map_map]
    rfl
  · apply List.flatMap_congr
    intro tree htree
    exact List.map_congr_left (hgroup tree htree)
  · apply List.flatMap_congr
    intro tree htree
    exact List.flatMap_congr (hlayers tree htree)

/-! ## The listing is in normal form -/

namespace WellFormed

variable {c : Catalog}

theorem placeable_trees (h : WellFormed c) (hplaces : Placeable c) :
    Forest.Placeable c.trees := by
  intro tree htree
  rw [h.groups_trees] at htree
  obtain ⟨id, -, rfl⟩ := List.mem_map.1 htree
  rw [groupTree, length_placed, List.length_map]
  exact hplaces id

theorem normalise_trees (h : WellFormed c) (hplaces : Placeable c) :
    normalise c.trees = c.trees := by
  rw [h.trees_eq_map, normalise, List.map_map]
  apply List.map_congr_left
  intro id _
  rw [Function.comp_apply, sectionTree, List.map_map]
  refine congrArg (SectionTree.mk _) (List.map_congr_left fun group hgroup => ?_)
  obtain ⟨entry, hentry, hparent⟩ := h.group_of_mem hgroup
  have hsize : ((c.layerIds group).map c.layerRecord).length ≤ 2 ^ 32 := by
    rw [List.length_map]
    exact hplaces group
  refine normaliseGroup_of_renumbered hsize ?_ ?_ (placed_eq_renumber hsize)
  · rw [groupTree, groupRecord_of_get? hentry]
    exact hparent
  · intro layer hlayer
    obtain ⟨layerId, hmem, rfl⟩ := List.mem_map.1 hlayer
    obtain ⟨found, hfound, hgroup⟩ := h.layer_of_mem hmem
    rw [layerRecord_of_get? hfound]
    exact hgroup

end WellFormed

/-! ## Reads after loading -/

/-- Every read of the one catalogue answers what it answers of the other. -/
structure SameReads (c other : Catalog) : Prop where
  trees : other.trees = c.trees
  sections : ∀ id, other.sectionTree? fullDepth id = c.sectionTree? fullDepth id
  groups : ∀ id, other.groupTree? fullDepth id = c.groupTree? fullDepth id
  layers : ∀ id, other.layer? id = c.layer? id

theorem sameReads_of_trees {c other : Catalog} (h : WellFormed c) (hother : WellFormed other)
    (htrees : other.trees = c.trees) : SameReads c other := by
  refine ⟨htrees, ?_, ?_, ?_⟩
  · intro id
    rw [hother.sectionTree?_eq_find?, htrees, h.sectionTree?_eq_find?]
  · intro id
    rw [hother.groupTree?_eq_find?, htrees, h.groupTree?_eq_find?]
  · intro id
    rw [hother.layer?_eq_find?, htrees, h.layer?_eq_find?]

theorem WellFormed.exists_ofSnapshot {c : Catalog} (h : WellFormed c) (hplaces : Placeable c) :
    ∃ other, ofSnapshot c.snapshot = .ok other ∧ SameReads c other := by
  obtain ⟨other, hload⟩ := exists_ofTrees_iff.2 h.distinctIds
  have htrees := trees_ofTrees (h.placeable_trees hplaces) hload
  rw [h.normalise_trees hplaces] at htrees
  exact ⟨other, hload, sameReads_of_trees h (wellFormed_ofTrees hload) htrees⟩

/-- A catalogue that has been loaded is what its own snapshot loads as. -/
theorem ofSnapshot_snapshot {snapshot : Snapshot} {c : Catalog}
    (hplaces : Forest.Placeable snapshot.sections) (h : ofSnapshot snapshot = .ok c) :
    ofSnapshot c.snapshot = .ok c := by
  apply ofTrees_eq_ok_iff.2
  have htrees : c.snapshot.sections = normalise snapshot.sections := trees_ofTrees hplaces h
  rw [htrees, contentsOf_normalise hplaces]
  exact ofTrees_eq_ok_iff.1 h

/-- Nothing that readers see is lost by a snapshot; a document loads exactly when no identifier occurs
twice in it, and shows its normal form then; and what has been loaded once loads as it is. -/
theorem snapshots_keep_reads :
    (∀ c, Reachable c → Placeable c →
      ∃ other, ofSnapshot c.snapshot = .ok other ∧ SameReads c other ∧
        ofSnapshot other.snapshot = .ok other) ∧
    ∀ snapshot : Snapshot,
      ((∃ c, ofSnapshot snapshot = .ok c) ↔ DistinctIds snapshot.sections) ∧
      ∀ c, Forest.Placeable snapshot.sections → ofSnapshot snapshot = .ok c →
        c.trees = normalise snapshot.sections ∧ ofSnapshot c.snapshot = .ok c := by
  refine ⟨?_, fun snapshot => ⟨exists_ofTrees_iff, ?_⟩⟩
  · intro c hc hplaces
    obtain ⟨other, hload, hreads⟩ := hc.wellFormed.exists_ofSnapshot hplaces
    have hshown : Forest.Placeable c.snapshot.sections :=
      hc.wellFormed.placeable_trees hplaces
    exact ⟨other, hload, hreads, ofSnapshot_snapshot hshown hload⟩
  · intro c hplaces hload
    exact ⟨trees_ofTrees hplaces hload, ofSnapshot_snapshot hplaces hload⟩

def shuffled : Snapshot :=
  .current
    [⟨⟨⟨1⟩, ⟨"Base"⟩⟩,
      [⟨⟨⟨2⟩, .named "Roads" ⟨9⟩⟩,
        [⟨⟨3⟩, ⟨9⟩, 7, .named "Lines" default default⟩,
          ⟨⟨4⟩, ⟨9⟩, 5, .named "Labels" default default⟩]⟩]⟩]

theorem sample_keeps_reads :
    (Reachable (empty.run sample) ∧ Placeable (empty.run sample) ∧
      ∃ other, ofSnapshot (empty.run sample).snapshot = .ok other ∧
        SameReads (empty.run sample) other ∧ ofSnapshot other.snapshot = .ok other) ∧
    ∃ c, Forest.Placeable shuffled.sections ∧ ofSnapshot shuffled = .ok c ∧
      c.trees = normalise shuffled.sections ∧ ofSnapshot c.snapshot = .ok c := by
  have hplaces : Placeable (empty.run sample) :=
    reachable_sample.wellFormed.placeable (by decide)
  have hshuffled : Forest.Placeable shuffled.sections := by
    unfold Forest.Placeable
    decide
  obtain ⟨c, hload⟩ : ∃ c, ofSnapshot shuffled = .ok c := ⟨_, rfl⟩
  exact ⟨⟨reachable_sample, hplaces, snapshots_keep_reads.1 _ reachable_sample hplaces⟩,
    c, hshuffled, hload, (snapshots_keep_reads.2 shuffled).2 c hshuffled hload⟩

end Catalog

end MapCatalog
