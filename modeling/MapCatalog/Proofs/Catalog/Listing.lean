import MapCatalog.Proofs.Catalog.Forest
import MapCatalog.Proofs.Catalog.History

/-! # What the listing shows -/

namespace MapCatalog

/-- What is stored of a layer: everything but its place. -/
def LayerRecord.stored (layer : LayerRecord) : LayerId × LayerEntry :=
  (layer.id, ⟨layer.groupId, layer.fields⟩)

namespace Catalog

/-! ## Records and trees of identifiers -/

def sectionRecord (c : Catalog) (id : SectionId) : SectionRecord :=
  ⟨id, ((c.sections.get? id).map SectionEntry.fields).getD default⟩

def groupRecord (c : Catalog) (id : GroupId) : GroupRecord :=
  ⟨id, ((c.groups.get? id).map GroupEntry.fields).getD default⟩

def layerRecord (c : Catalog) (id : LayerId) : LayerRecord :=
  ⟨id, (c.groupOf? id).getD default, 0, ((c.layers.get? id).map LayerEntry.fields).getD default⟩

/-- Give each layer of a list its place. -/
def placed (layers : List LayerRecord) : List LayerRecord :=
  layers.mapIdx fun position layer => { layer with order := place position }

def groupTree (c : Catalog) (id : GroupId) : GroupTree :=
  ⟨c.groupRecord id, placed ((c.layerIds id).map c.layerRecord)⟩

def sectionTree (c : Catalog) (id : SectionId) : SectionTree :=
  ⟨c.sectionRecord id, (c.groupIds id).map c.groupTree⟩

def listedGroups (c : Catalog) : List GroupId :=
  c.order.flatMap c.groupIds

def listedLayers (c : Catalog) : List LayerId :=
  c.listedGroups.flatMap c.layerIds

def storedSections (c : Catalog) : List SectionRecord :=
  c.sections.entries.map fun entry => ⟨entry.1, entry.2.fields⟩

def storedGroups (c : Catalog) : List GroupRecord :=
  c.groups.entries.map fun entry => ⟨entry.1, entry.2.fields⟩

theorem storedSections_eq_map (c : Catalog) :
    c.storedSections = c.sections.keys.map c.sectionRecord := by
  rw [storedSections, Table.keys, List.map_map]
  apply List.map_congr_left
  intro entry hentry
  have hget := c.sections.get?_eq_some_iff.2 hentry
  simp [sectionRecord, hget]

theorem storedGroups_eq_map (c : Catalog) :
    c.storedGroups = c.groups.keys.map c.groupRecord := by
  rw [storedGroups, Table.keys, List.map_map]
  apply List.map_congr_left
  intro entry hentry
  have hget := c.groups.get?_eq_some_iff.2 hentry
  simp [groupRecord, hget]

theorem layers_entries_eq_map (c : Catalog) :
    c.layers.entries = c.layers.keys.map fun id => (c.layerRecord id).stored := by
  rw [Table.keys, List.map_map]
  conv_lhs => rw [← List.map_id c.layers.entries]
  apply List.map_congr_left
  intro entry hentry
  have hget := c.layers.get?_eq_some_iff.2 hentry
  simp [layerRecord, LayerRecord.stored, groupOf?, hget]

@[simp] theorem sectionRecord_id (c : Catalog) (id : SectionId) : (c.sectionRecord id).id = id :=
  rfl

@[simp] theorem groupRecord_id (c : Catalog) (id : GroupId) : (c.groupRecord id).id = id :=
  rfl

@[simp] theorem layerRecord_id (c : Catalog) (id : LayerId) : (c.layerRecord id).id = id :=
  rfl

theorem map_stored_placed (layers : List LayerRecord) :
    (placed layers).map LayerRecord.stored = layers.map LayerRecord.stored :=
  Forest.map_numbered place (fun _ _ => rfl) layers

@[simp] theorem length_placed (layers : List LayerRecord) :
    (placed layers).length = layers.length :=
  List.length_mapIdx

/-- Up to 2³² layers have the places `0, 1, …` in sequence. -/
theorem map_order_placed {layers : List LayerRecord} (h : layers.length ≤ 2 ^ 32) :
    (placed layers).map (fun layer => layer.order.toNat) = List.range layers.length := by
  apply List.ext_getElem
  · simp
  · intro i hleft hright
    have hi : i < 2 ^ 32 := by
      rw [List.length_range] at hright
      omega
    simp [placed, toNat_place hi]

theorem map_id_groupTree (c : Catalog) (id : GroupId) :
    (c.groupTree id).layers.map LayerRecord.id = c.layerIds id := by
  have hids : (placed ((c.layerIds id).map c.layerRecord)).map LayerRecord.id =
      ((c.layerIds id).map c.layerRecord).map LayerRecord.id :=
    Forest.map_numbered place (fun _ _ => rfl) _
  rw [groupTree, hids, List.map_map]
  exact List.map_id _

theorem layerAt_of_get? {c : Catalog} {id : LayerId} {entry : LayerEntry}
    (h : c.layers.get? id = some entry) (position : Nat) :
    c.layerAt id position = some { c.layerRecord id with order := place position } := by
  simp [layerAt, layerRecord, groupOf?, h]

theorem layersFrom_eq_mapIdx {c : Catalog} {ids : List LayerId}
    (h : ∀ id ∈ ids, ∃ entry, c.layers.get? id = some entry) (position : Nat) :
    c.layersFrom position ids =
      (ids.map c.layerRecord).mapIdx fun index layer =>
        { layer with order := place (position + index) } := by
  induction ids generalizing position with
  | nil =>
      rfl
  | cons id rest ih =>
      obtain ⟨entry, hentry⟩ := h id List.mem_cons_self
      have hrest := ih (fun other hother => h other (List.mem_cons_of_mem id hother)) (position + 1)
      simp only [layersFrom, layerAt_of_get? hentry, hrest, List.map_cons, List.mapIdx_cons,
        Nat.add_zero]
      congr 2
      funext index layer
      rw [Nat.add_right_comm, Nat.add_assoc]

/-- An element is found by a key that no other element has. -/
theorem find?_eq_some_iff_of_nodup {α κ : Type} [DecidableEq κ] {key : α → κ} {xs : List α}
    (hnodup : (xs.map key).Nodup) {k : κ} {x : α} :
    xs.find? (fun y => decide (key y = k)) = some x ↔ x ∈ xs ∧ key x = k := by
  constructor
  · intro h
    have hkey := List.find?_some h
    exact ⟨List.mem_of_find?_eq_some h, of_decide_eq_true hkey⟩
  · rintro ⟨hx, rfl⟩
    cases hfound : xs.find? fun y => decide (key y = key x) with
    | none =>
        have hnone := List.find?_eq_none.1 hfound x hx
        simp at hnone
    | some y =>
        have hfits := List.find?_some hfound
        have hkey : key y = key x := of_decide_eq_true hfits
        rw [List.inj_on_of_nodup_map hnodup (List.mem_of_find?_eq_some hfound) hx hkey]

/-- In a list without duplicates an identifier is found where it stands. -/
theorem position?_of_getElem? {id : LayerId} {ids : List LayerId} {position : Nat}
    (hnodup : ids.Nodup) (h : ids[position]? = some id) : position? id ids = some position := by
  obtain ⟨hlt, hat⟩ := List.getElem?_eq_some_iff.1 h
  refine List.findIdx?_eq_some_iff_getElem.2 ⟨hlt, decide_eq_true hat, ?_⟩
  intro earlier hearlier hsame
  have hequal : ids[earlier] = ids[position] := (of_decide_eq_true hsame).trans hat.symm
  have hindices := (hnodup.getElem_inj_iff).1 hequal
  omega

namespace WellFormed

variable {c : Catalog}

theorem groupTree?_eq (h : WellFormed c) {depth : Nat} (hdepth : depth ≠ 0) (id : GroupId) :
    c.groupTree? depth id =
      if c.groups.contains id then some (c.groupTree id) else none := by
  unfold groupTree? Table.contains
  cases hentry : c.groups.get? id with
  | none =>
      simp
  | some entry =>
      have hlayers : ∀ layer ∈ entry.layers, ∃ entry, c.layers.get? layer = some entry := by
        intro layer hlayer
        obtain ⟨found, hfound, -⟩ := h.layer_of_mem (mem_layerIds_iff.2 ⟨entry, hentry, hlayer⟩)
        exact ⟨found, hfound⟩
      simp [hdepth, layersFrom_eq_mapIdx hlayers, groupTree, groupRecord, placed, hentry,
        layerIds_of_get? hentry]

theorem sectionTree?_eq (h : WellFormed c) (id : SectionId) :
    c.sectionTree? fullDepth id =
      if c.sections.contains id then some (c.sectionTree id) else none := by
  unfold sectionTree? Table.contains
  cases hentry : c.sections.get? id with
  | none =>
      simp
  | some entry =>
      have hgroups : entry.groups.filterMap (c.groupTree? (fullDepth - 1)) =
          entry.groups.map c.groupTree := by
        rw [← List.filterMap_eq_map]
        apply List.filterMap_congr
        intro group hgroup
        obtain ⟨found, hfound, -⟩ := h.group_of_mem (mem_groupIds_iff.2 ⟨entry, hentry, hgroup⟩)
        rw [h.groupTree?_eq (by decide), if_pos (c.groups.contains_iff.2 ⟨found, hfound⟩)]
        rfl
      have hfull : fullDepth ≠ 0 := by decide
      simp [hfull, hgroups, sectionTree, sectionRecord, hentry, groupIds_of_get? hentry]

theorem trees_eq_map (h : WellFormed c) : c.trees = c.order.map c.sectionTree := by
  unfold trees
  rw [← List.filterMap_eq_map]
  apply List.filterMap_congr
  intro id hid
  rw [h.sectionTree?_eq, if_pos ((h.mem_order id).1 hid)]
  rfl

/-! ## Every record once -/

theorem order_perm (h : WellFormed c) : c.order.Perm c.sections.keys := by
  refine (List.perm_ext_iff_of_nodup h.order_nodup c.sections.nodup_keys).2 fun id => ?_
  exact h.mem_order_iff.trans c.sections.mem_keys_iff.symm

theorem mem_listedGroups (h : WellFormed c) {id : GroupId} :
    id ∈ c.listedGroups ↔ ∃ entry, c.groups.get? id = some entry := by
  rw [listedGroups, h.groups.mem_flatMap]
  constructor
  · rintro ⟨parent, -, hparent⟩
    obtain ⟨entry, hentry, -⟩ := sectionOf?_eq_some_iff.1 hparent
    exact ⟨entry, hentry⟩
  · rintro ⟨entry, hentry⟩
    obtain ⟨parent, hparent, -⟩ := h.section_of_group hentry
    exact ⟨_, h.mem_order_iff.2 ⟨parent, hparent⟩, sectionOf?_of_get? hentry⟩

theorem mem_listedLayers (h : WellFormed c) {id : LayerId} :
    id ∈ c.listedLayers ↔ ∃ entry, c.layers.get? id = some entry := by
  rw [listedLayers, h.layers.mem_flatMap]
  constructor
  · rintro ⟨group, -, hgroup⟩
    obtain ⟨entry, hentry, -⟩ := groupOf?_eq_some_iff.1 hgroup
    exact ⟨entry, hentry⟩
  · rintro ⟨entry, hentry⟩
    obtain ⟨group, hgroup, -⟩ := h.group_of_layer hentry
    exact ⟨_, h.mem_listedGroups.2 ⟨group, hgroup⟩, groupOf?_of_get? hentry⟩

theorem listedGroups_nodup (h : WellFormed c) : c.listedGroups.Nodup :=
  h.groups.nodup_flatMap h.order_nodup

theorem listedLayers_nodup (h : WellFormed c) : c.listedLayers.Nodup :=
  h.layers.nodup_flatMap h.listedGroups_nodup

theorem listedGroups_perm (h : WellFormed c) : c.listedGroups.Perm c.groups.keys := by
  refine (List.perm_ext_iff_of_nodup h.listedGroups_nodup c.groups.nodup_keys).2 fun id => ?_
  exact h.mem_listedGroups.trans c.groups.mem_keys_iff.symm

theorem listedLayers_perm (h : WellFormed c) : c.listedLayers.Perm c.layers.keys := by
  refine (List.perm_ext_iff_of_nodup h.listedLayers_nodup c.layers.nodup_keys).2 fun id => ?_
  exact h.mem_listedLayers.trans c.layers.mem_keys_iff.symm

theorem groups_trees (h : WellFormed c) :
    Forest.groups c.trees = c.listedGroups.map c.groupTree := by
  rw [Forest.groups, h.trees_eq_map, listedGroups, List.flatMap_map, List.map_flatMap]
  rfl

theorem layers_trees (h : WellFormed c) :
    Forest.layers c.trees =
      c.listedGroups.flatMap fun id => placed ((c.layerIds id).map c.layerRecord) := by
  rw [Forest.layers, h.groups_trees, List.flatMap_map]
  rfl

theorem shown_sections (h : WellFormed c) :
    (c.trees.map SectionTree.head).Perm c.storedSections := by
  rw [h.trees_eq_map, List.map_map, c.storedSections_eq_map]
  exact h.order_perm.map c.sectionRecord

theorem shown_groups (h : WellFormed c) :
    ((Forest.groups c.trees).map GroupTree.group).Perm c.storedGroups := by
  rw [h.groups_trees, List.map_map, c.storedGroups_eq_map]
  exact h.listedGroups_perm.map c.groupRecord

/-- The listing shows the stored layers, each once and in its own group. -/
theorem shown_layers (h : WellFormed c) :
    ((Forest.layers c.trees).map LayerRecord.stored).Perm c.layers.entries := by
  rw [h.layers_trees, List.map_flatMap, c.layers_entries_eq_map]
  have hshown : c.listedGroups.flatMap (fun id =>
      (placed ((c.layerIds id).map c.layerRecord)).map LayerRecord.stored) =
      c.listedLayers.map fun id => (c.layerRecord id).stored := by
    rw [listedLayers, List.map_flatMap]
    simp only [map_stored_placed, List.map_map, Function.comp_def]
  rw [hshown]
  exact h.listedLayers_perm.map _

/-! ## Reads are look-ups -/

theorem distinctIds (h : WellFormed c) : Forest.DistinctIds c.trees := by
  refine ⟨?_, ?_, ?_⟩
  · rw [h.trees_eq_map, List.map_map]
    exact (List.map_id c.order).symm ▸ h.order_nodup
  · rw [h.groups_trees, List.map_map]
    exact (List.map_id c.listedGroups).symm ▸ h.listedGroups_nodup
  · have hids : (Forest.layers c.trees).map LayerRecord.id = c.listedLayers := by
      rw [Forest.layers, h.groups_trees, List.flatMap_map, List.map_flatMap, listedLayers]
      simp only [map_id_groupTree]
    rw [hids]
    exact h.listedLayers_nodup

theorem sectionTree?_eq_find? (h : WellFormed c) (id : SectionId) :
    c.sectionTree? fullDepth id = c.trees.find? fun tree => decide (tree.head.id = id) := by
  apply Option.ext
  intro tree
  rw [find?_eq_some_iff_of_nodup h.distinctIds.sections, h.sectionTree?_eq, h.trees_eq_map,
    List.mem_map]
  constructor
  · intro hread
    split at hread
    · next hstored =>
      cases hread
      exact ⟨⟨id, (h.mem_order id).2 hstored, rfl⟩, rfl⟩
    · cases hread
  · rintro ⟨⟨other, hother, rfl⟩, rfl⟩
    exact if_pos ((h.mem_order other).1 hother)

theorem groupTree?_eq_find? (h : WellFormed c) (id : GroupId) :
    c.groupTree? fullDepth id =
      (Forest.groups c.trees).find? fun tree => decide (tree.group.id = id) := by
  apply Option.ext
  intro tree
  rw [find?_eq_some_iff_of_nodup h.distinctIds.groups, h.groupTree?_eq (by decide),
    h.groups_trees, List.mem_map]
  constructor
  · intro hread
    split at hread
    · next hstored =>
      cases hread
      exact ⟨⟨id, h.mem_listedGroups.2 (c.groups.contains_iff.1 hstored), rfl⟩, rfl⟩
    · cases hread
  · rintro ⟨⟨other, hother, rfl⟩, rfl⟩
    exact if_pos (c.groups.contains_iff.2 (h.mem_listedGroups.1 hother))

/-- The layer at a position of a group is read with that place. -/
theorem layer?_of_getElem? (h : WellFormed c) {id : LayerId} {group : GroupId} {position : Nat}
    (hposition : (c.layerIds group)[position]? = some id) :
    c.layer? id = some { c.layerRecord id with order := place position } := by
  obtain ⟨entry, hentry, hgroup⟩ := h.layer_of_mem (List.mem_of_getElem? hposition)
  subst hgroup
  obtain ⟨found, hfound, -⟩ := h.group_of_layer hentry
  have hnodup := h.layers.nodup entry.group
  rw [layerIds_of_get? hfound] at hposition hnodup
  have hindex := position?_of_getElem? hnodup hposition
  simp only [layer?, hentry, hfound, hindex, layerAt_of_get? hentry]

theorem layer?_eq_find? (h : WellFormed c) (id : LayerId) :
    c.layer? id = (Forest.layers c.trees).find? fun layer => decide (layer.id = id) := by
  have hread : ∀ group ∈ c.listedGroups, ∀ layer ∈ (c.groupTree group).layers,
      c.layer? layer.id = some layer := by
    intro group _ layer hlayer
    obtain ⟨position, hlt, rfl⟩ := List.mem_mapIdx.1 hlayer
    rw [List.length_map] at hlt
    simp only [List.getElem_map, layerRecord_id]
    exact h.layer?_of_getElem? (List.getElem?_eq_getElem hlt)
  have hshown : ∀ layer, layer ∈ Forest.layers c.trees ↔
      ∃ group ∈ c.listedGroups, layer ∈ (c.groupTree group).layers := by
    intro layer
    rw [Forest.layers, h.groups_trees, List.flatMap_map, List.mem_flatMap]
  apply Option.ext
  intro layer
  rw [find?_eq_some_iff_of_nodup h.distinctIds.layers, hshown]
  constructor
  · intro hlayer
    have hstored : ∃ entry, c.layers.get? id = some entry := by
      unfold layer? at hlayer
      split at hlayer
      · cases hlayer
      · next entry hentry =>
        exact ⟨entry, hentry⟩
    obtain ⟨group, hgroup, hmem⟩ := List.mem_flatMap.1 (h.mem_listedLayers.2 hstored)
    rw [← map_id_groupTree, List.mem_map] at hmem
    obtain ⟨shown, hmem, rfl⟩ := hmem
    rw [hread group hgroup shown hmem] at hlayer
    cases hlayer
    exact ⟨⟨group, hgroup, hmem⟩, rfl⟩
  · rintro ⟨⟨group, hgroup, hmem⟩, rfl⟩
    exact hread group hgroup layer hmem

end WellFormed

end Catalog

end MapCatalog
