import MapCatalog.Proofs.Catalog.Alike
import MapCatalog.Proofs.Catalog.Snapshot

/-! # Catalogues that are loaded again -/

namespace MapCatalog

/-- A table that lists what another stores, in whatever order, answers the same. -/
theorem Table.get?_of_listed {κ α β : Type} [DecidableEq κ] {table : Table κ α}
    {listed : Table κ β} {keys : List κ} {entry : κ → κ × β} (change : α → β)
    (hentries : listed.entries = keys.map entry)
    (hkeys : ∀ key, key ∈ keys ↔ ∃ value, table.get? key = some value)
    (hentry : ∀ key value, table.get? key = some value → entry key = (key, change value))
    (key : κ) : listed.get? key = (table.get? key).map change := by
  cases hvalue : table.get? key with
  | some value =>
      rw [Option.map_some, get?_eq_some_iff, hentries, ← hentry key value hvalue]
      exact List.mem_map_of_mem ((hkeys key).2 ⟨value, hvalue⟩)
  | none =>
      rw [Option.map_none, get?_eq_none_iff, Table.keys, hentries, List.map_map]
      intro hmem
      obtain ⟨other, hother, hsame⟩ := List.mem_map.1 hmem
      obtain ⟨value, hstored⟩ := (hkeys other).1 hother
      have hkey : other = key := by
        rw [Function.comp_apply, hentry other value hstored] at hsame
        exact hsame
      rw [hkey, hvalue] at hstored
      cases hstored

namespace Catalog

open Forest

theorem place_mono {i j : Nat} (h : i ≤ j) : place i ≤ place j := by
  simp only [place, UInt32.le_iff_toNat_le, UInt32.toNat_ofNat']
  omega

/-- Layers that stand in the order of their places are not moved by sorting. -/
theorem sortedLayers_groupTree (c : Catalog) (id : GroupId) :
    sortedLayers (c.groupTree id) = (c.groupTree id).layers := by
  rw [sortedLayers_eq, groupTree]
  apply List.mergeSort_of_pairwise
  rw [List.pairwise_iff_getElem]
  intro i j hi hj hij
  simp only [placed, List.getElem_mapIdx, decide_eq_true_eq]
  exact place_mono (Nat.le_of_lt hij)

/-- What a group is stored as when it is loaded again. -/
def groupAgain (c : Catalog) (id : GroupId) : GroupId × GroupEntry :=
  (id, ⟨(c.groupRecord id).fields, c.layerIds id, 0⟩)

namespace WellFormed

variable {c : Catalog}

theorem groupEntry_groupTree (h : WellFormed c) {parent : SectionId} {id : GroupId}
    (hmem : id ∈ c.groupIds parent) : groupEntry parent (c.groupTree id) = c.groupAgain id := by
  obtain ⟨entry, hentry, rfl⟩ := h.group_of_mem hmem
  rw [groupEntry, sortedLayers_groupTree, map_id_groupTree, groupAgain, groupTree,
    groupRecord_of_get? hentry]

theorem layerEntries_groupTree (h : WellFormed c) (id : GroupId) :
    layerEntries (c.groupTree id) =
      (c.layerIds id).map fun layer => (c.layerRecord layer).stored := by
  have hplaces : (c.groupTree id).layers.map (layerEntry id) =
      ((c.layerIds id).map c.layerRecord).map (layerEntry id) :=
    map_numbered place (fun _ _ => rfl) _
  rw [layerEntries, sortedLayers_groupTree, groupTree, groupRecord_id]
  rw [groupTree] at hplaces
  rw [hplaces, List.map_map]
  apply List.map_congr_left
  intro layer hlayer
  obtain ⟨entry, hentry, rfl⟩ := h.layer_of_mem hlayer
  rw [Function.comp_apply, layerRecord_of_get? hentry]
  rfl

theorem contentsOf_trees (h : WellFormed c) :
    contentsOf c.trees =
      { order := c.order
        sections := c.order.map fun id => sectionEntry (c.sectionTree id)
        groups := c.listedGroups.map c.groupAgain
        layers := c.listedLayers.map fun id => (c.layerRecord id).stored } := by
  rw [h.trees_eq_map]
  simp only [contentsOf, Contents.mk.injEq, List.map_map, List.flatMap_map]
  refine ⟨List.map_id c.order, rfl, ?_, ?_⟩
  · rw [listedGroups, List.map_flatMap]
    apply List.flatMap_congr
    intro id _
    rw [sectionTree, sectionRecord_id, List.map_map]
    exact List.map_congr_left fun group hgroup => h.groupEntry_groupTree hgroup
  · rw [listedLayers, listedGroups, List.flatMap_assoc, List.map_flatMap]
    apply List.flatMap_congr
    intro id _
    rw [sectionTree, List.flatMap_map, List.map_flatMap]
    exact List.flatMap_congr fun group _ => h.layerEntries_groupTree group

/-- Nothing but revisions is lost when a catalogue is saved and loaded again. -/
theorem exists_reloaded (h : WellFormed c) :
    ∃ loaded, ofSnapshot c.snapshot = .ok loaded ∧ Alike c loaded := by
  obtain ⟨loaded, hload⟩ := exists_ofTrees_iff.2 h.distinctIds
  have hcontents := (ofTrees_eq_ok_iff.1 hload).trans h.contentsOf_trees
  have hsections : ∀ id, loaded.sections.get? id = (c.sections.get? id).map fun entry => entry :=
    Table.get?_of_listed _ (congrArg Contents.sections hcontents) (fun _ => h.mem_order_iff) (by
      intro id entry hentry
      rw [sectionTree, sectionEntry, List.map_map, sectionRecord_of_get? hentry,
        groupIds_of_get? hentry]
      exact congrArg (fun groups => (id, SectionEntry.mk entry.fields groups)) (List.map_id _))
  have hgroups : ∀ id, loaded.groups.get? id =
      (c.groups.get? id).map fun entry => { entry with revision := 0 } :=
    Table.get?_of_listed _ (congrArg Contents.groups hcontents) (fun _ => h.mem_listedGroups) (by
      intro id entry hentry
      rw [groupAgain, groupRecord_of_get? hentry, layerIds_of_get? hentry])
  have hlayers : ∀ id, loaded.layers.get? id = (c.layers.get? id).map fun entry => entry :=
    Table.get?_of_listed _ (congrArg Contents.layers hcontents) (fun _ => h.mem_listedLayers) (by
      intro id entry hentry
      rw [layerRecord_of_get? hentry]
      rfl)
  refine ⟨loaded, hload, (congrArg Contents.order hcontents).symm, ?_, ?_, ?_⟩
  · intro id
    rw [hsections, Option.map_id']
  · intro id
    rw [hgroups, Option.map_map]
    rfl
  · intro id
    rw [hlayers, Option.map_id']

end WellFormed

end Catalog

end MapCatalog
