import MapCatalog.Proofs.Catalog.Listing
import MapCatalog.Proofs.Catalog.Stored

/-! # Consistency of every run -/

namespace MapCatalog

namespace Catalog

/-! ## Names -/

structure Named (c : Catalog) : Prop where
  sections : c.sections.All fun entry => Text.allBlank entry.fields.name = false
  groups : c.groups.All fun entry => Text.allBlank entry.fields.name = false
  layers : c.layers.All fun entry => Text.allBlank entry.fields.name = false

theorem named_empty : Named empty :=
  ⟨Table.All.empty, Table.All.empty, Table.All.empty⟩

theorem named_of_validSection {fields : SectionFields} (h : fields.validate = .ok ()) :
    Text.allBlank fields.name = false := by
  unfold SectionFields.validate at h
  split at h
  · cases h
  · next hname =>
    simpa using hname

theorem named_of_validGroup {fields : GroupFields} (h : fields.validate = .ok ()) :
    Text.allBlank fields.name = false := by
  unfold GroupFields.validate at h
  split at h
  · cases h
  · next hname =>
    simpa using hname

theorem named_of_validLayer {fields : LayerFields} (h : fields.validate = .ok ()) :
    Text.allBlank fields.name = false := by
  unfold LayerFields.validate at h
  split at h
  · cases h
  · next hname =>
    simpa using hname

/-- Only valid fields come into the catalogue, so names stay. -/
theorem Named.perform {c next : Catalog} (h : Named c) {operation : Operation} {answer : Answer}
    (hok : c.perform operation = .ok (answer, next)) : Named next := by
  have hstores := Stores.perform ⟨h.sections, h.groups, h.layers⟩ hok
    ((brings_of_perform hok).mono (fun _ => named_of_validSection) (fun _ => named_of_validGroup)
      fun _ => named_of_validLayer)
  exact ⟨hstores.sections, hstores.groups, hstores.layers⟩

/-! ## Consistency -/

/-- Over all lists, each stored record is named once and nothing else is named. -/
structure ListsOnce (c : Catalog) : Prop where
  sections : c.order.Perm c.sections.keys
  groups : c.listedGroups.Perm c.groups.keys
  layers : c.listedLayers.Perm c.layers.keys

/-- The listing shows each stored record once, with its fields, as many as are counted, and numbers the
layers of each group from zero. -/
structure ShowsOnce (c : Catalog) : Prop where
  sections : (c.trees.map SectionTree.head).Perm c.storedSections
  groups : ((Forest.groups c.trees).map GroupTree.group).Perm c.storedGroups
  layers : ((Forest.layers c.trees).map LayerRecord.stored).Perm c.layers.entries
  counts : Forest.counts c.trees = c.counts
  places : ∀ tree ∈ Forest.groups c.trees, tree.layers.length ≤ 2 ^ 32 →
    tree.layers.map (fun layer => layer.order.toNat) = List.range tree.layers.length

theorem WellFormed.listsOnce {c : Catalog} (h : WellFormed c) : ListsOnce c :=
  ⟨h.order_perm, h.listedGroups_perm, h.listedLayers_perm⟩

theorem WellFormed.showsOnce {c : Catalog} (h : WellFormed c) : ShowsOnce c := by
  refine ⟨h.shown_sections, h.shown_groups, h.shown_layers, ?_, ?_⟩
  · have hsections := h.shown_sections.length_eq
    have hgroups := h.shown_groups.length_eq
    have hlayers := h.shown_layers.length_eq
    simp only [List.length_map, storedSections, storedGroups] at hsections hgroups hlayers
    simp only [Forest.counts, counts, Table.size, hsections, hgroups, hlayers]
  · intro tree htree hsize
    rw [h.groups_trees] at htree
    obtain ⟨id, -, rfl⟩ := List.mem_map.1 htree
    simp only [groupTree, length_placed] at hsize ⊢
    exact map_order_placed hsize

/-- In every catalogue at which a run arrives the lists name every stored record once, in the record it
belongs to, and the listing shows each of them once; when the store started empty, no name is blank. -/
theorem run_consistent {start : Catalog} {history : List Operation} (hstart : Initial start)
    (hids : NeverRepeats start history) :
    WellFormed (start.run history) ∧ ListsOnce (start.run history) ∧
      ShowsOnce (start.run history) ∧ (start = empty → Named (start.run history)) := by
  have hwell := hstart.wellFormed.run hids
  refine ⟨hwell, hwell.listsOnce, hwell.showsOnce, ?_⟩
  rintro rfl
  exact hids.run_induction named_empty fun _ _ _ _ hc _ hok => hc.perform hok

theorem sample_consistent :
    Initial empty ∧ NeverRepeats empty sample ∧
      WellFormed (empty.run sample) ∧ ListsOnce (empty.run sample) ∧
        ShowsOnce (empty.run sample) ∧ (empty = empty → Named (empty.run sample)) :=
  ⟨.inl rfl, neverRepeats_sample, run_consistent (.inl rfl) neverRepeats_sample⟩

end Catalog

end MapCatalog
