import MapCatalog.Catalog.Load
import MapCatalog.Proofs.Catalog.WellFormed

/-! # What loading builds

Loading trees succeeds with a catalogue exactly when its contents are those of the trees.  As no table has a key
twice, that is possible exactly when no identifier occurs twice in its tier.
-/

namespace MapCatalog

structure Contents where
  order : List SectionId
  sections : List (SectionId × SectionEntry)
  groups : List (GroupId × GroupEntry)
  layers : List (LayerId × LayerEntry)

namespace Contents

instance : Append Contents :=
  ⟨fun a b =>
    ⟨a.order ++ b.order, a.sections ++ b.sections, a.groups ++ b.groups, a.layers ++ b.layers⟩⟩

theorem append_def (a b : Contents) :
    a ++ b =
      ⟨a.order ++ b.order, a.sections ++ b.sections, a.groups ++ b.groups, a.layers ++ b.layers⟩ :=
  rfl

theorem append_assoc (a b d : Contents) : a ++ b ++ d = a ++ (b ++ d) := by
  simp [append_def]

structure Distinct (contents : Contents) : Prop where
  sections : (contents.sections.map Prod.fst).Nodup
  groups : (contents.groups.map Prod.fst).Nodup
  layers : (contents.layers.map Prod.fst).Nodup

theorem Distinct.of_append {a b : Contents} (h : Distinct (a ++ b)) : Distinct a := by
  have hsections := h.sections
  have hgroups := h.groups
  have hlayers := h.layers
  simp only [append_def, List.map_append] at hsections hgroups hlayers
  exact ⟨(List.nodup_append.1 hsections).1, (List.nodup_append.1 hgroups).1,
    (List.nodup_append.1 hlayers).1⟩

end Contents

namespace Catalog

def contents (c : Catalog) : Contents :=
  ⟨c.order, c.sections.entries, c.groups.entries, c.layers.entries⟩

theorem distinct_contents (c : Catalog) : c.contents.Distinct :=
  ⟨c.sections.nodup_keys, c.groups.nodup_keys, c.layers.nodup_keys⟩

theorem eq_of_contents_eq {c other : Catalog} (h : c.contents = other.contents) : c = other := by
  cases c
  cases other
  simp only [contents, Contents.mk.injEq] at h
  obtain ⟨rfl, hsections, hgroups, hlayers⟩ := h
  rw [Table.entries_inj.1 hsections, Table.entries_inj.1 hgroups, Table.entries_inj.1 hlayers]

theorem exists_contents_eq_iff {contents : Contents} :
    (∃ c : Catalog, c.contents = contents) ↔ contents.Distinct := by
  constructor
  · rintro ⟨c, rfl⟩
    exact c.distinct_contents
  · intro h
    exact ⟨⟨contents.order, ⟨_, h.sections⟩, ⟨_, h.groups⟩, ⟨_, h.layers⟩⟩, rfl⟩

/-! ## Loading in steps -/

/-- When each step of a loop adds to the contents, the loop adds what its steps add. -/
theorem foldlM_eq_ok_iff {α : Type} {step : Catalog → α → Except SnapshotFault Catalog}
    (added : List α → Contents) (hnil : added [] = ⟨[], [], [], []⟩)
    (hcons : ∀ x xs, added (x :: xs) = added [x] ++ added xs)
    (hstep : ∀ c x after, step c x = .ok after ↔ after.contents = c.contents ++ added [x])
    (xs : List α) (c after : Catalog) :
    xs.foldlM step c = .ok after ↔ after.contents = c.contents ++ added xs := by
  induction xs generalizing c with
  | nil =>
      rw [hnil]
      constructor
      · intro h
        cases h
        simp [Contents.append_def, contents]
      · intro h
        have heq : c = after := eq_of_contents_eq (by simpa [Contents.append_def, contents] using h.symm)
        rw [heq]
        rfl
  | cons x rest ih =>
      rw [List.foldlM_cons, hcons, ← Contents.append_assoc]
      constructor
      · intro h
        cases hx : step c x with
        | error e =>
            rw [hx] at h
            cases h
        | ok mid =>
            rw [hx] at h
            rw [← (hstep c x mid).1 hx]
            exact (ih mid).1 h
      · intro h
        obtain ⟨mid, hmid⟩ : ∃ mid : Catalog, mid.contents = c.contents ++ added [x] :=
          exists_contents_eq_iff.2 (Contents.Distinct.of_append (h ▸ after.distinct_contents))
        rw [(hstep c x mid).2 hmid]
        exact (ih mid).2 (hmid ▸ h)

/-! ## What the records of a tree become -/

def layerEntry (group : GroupId) (layer : LayerRecord) : LayerId × LayerEntry :=
  (layer.id, ⟨group, layer.fields⟩)

def groupEntry (parent : SectionId) (tree : GroupTree) : GroupId × GroupEntry :=
  (tree.group.id,
    { fields := { tree.group.fields with sectionId := parent }
      layers := (sortedLayers tree).map LayerRecord.id
      revision := 0 })

def sectionEntry (tree : SectionTree) : SectionId × SectionEntry :=
  (tree.head.id, ⟨tree.head.fields, tree.groups.map fun group => group.group.id⟩)

def layerEntries (tree : GroupTree) : List (LayerId × LayerEntry) :=
  (sortedLayers tree).map (layerEntry tree.group.id)

def contentsOf (trees : List SectionTree) : Contents :=
  { order := trees.map fun tree => tree.head.id
    sections := trees.map sectionEntry
    groups := trees.flatMap fun tree => tree.groups.map (groupEntry tree.head.id)
    layers := trees.flatMap fun tree => tree.groups.flatMap layerEntries }

theorem loadLayer_eq_ok_iff {group : GroupId} {c after : Catalog} {layer : LayerRecord} :
    loadLayer group c layer = .ok after ↔
      after.contents = c.contents ++ ⟨[], [], [], [layerEntry group layer]⟩ := by
  obtain ⟨order, sections, groups, layers⟩ := after
  simp only [contents, Contents.append_def, Contents.mk.injEq, List.append_nil, layerEntry,
    Table.entries_inj, Table.entries_eq_append_iff]
  unfold loadLayer
  cases c.layers.contains layer.id with
  | true =>
      simp
  | false =>
      simp [eq_comm]

theorem loadLayers_eq_ok_iff {group : GroupId} {c after : Catalog} {layers : List LayerRecord} :
    layers.foldlM (loadLayer group) c = .ok after ↔
      after.contents = c.contents ++ ⟨[], [], [], layers.map (layerEntry group)⟩ := by
  refine foldlM_eq_ok_iff (fun layers => ⟨[], [], [], layers.map (layerEntry group)⟩)
    rfl (fun _ _ => rfl) (fun _ _ _ => ?_) layers c after
  exact loadLayer_eq_ok_iff

theorem loadGroup_eq_ok_iff {parent : SectionId} {c after : Catalog} {tree : GroupTree} :
    loadGroup parent c tree = .ok after ↔
      after.contents =
        c.contents ++ ⟨[], [], [groupEntry parent tree], layerEntries tree⟩ := by
  have hlayers : ∀ mid, (sortedLayers tree).foldlM (loadLayer tree.group.id) c = .ok mid ↔ _ :=
    fun mid => loadLayers_eq_ok_iff
  simp only [contents, Contents.append_def, Contents.mk.injEq, List.append_nil, groupEntry,
    layerEntries, Table.entries_inj, Table.entries_eq_append_iff] at hlayers ⊢
  unfold loadGroup
  constructor
  · intro h
    split at h
    · cases h
    · next hnew =>
      split at h
      · cases h
      · next mid hmid =>
        cases h
        obtain ⟨horder, hsections, hgroups, hentries⟩ := (hlayers mid).1 hmid
        exact ⟨horder, hsections, ⟨by simpa using hnew, by rw [hgroups]⟩, hentries⟩
  · rintro ⟨horder, hsections, ⟨hnew, hgroups⟩, hentries⟩
    have hmid := (hlayers { after with groups := c.groups }).2 ⟨horder, hsections, rfl, hentries⟩
    rw [hnew, hmid]
    simp [← hgroups]

theorem loadGroups_eq_ok_iff {parent : SectionId} {c after : Catalog} {trees : List GroupTree} :
    trees.foldlM (loadGroup parent) c = .ok after ↔
      after.contents =
        c.contents ++ ⟨[], [], trees.map (groupEntry parent), trees.flatMap layerEntries⟩ := by
  refine foldlM_eq_ok_iff
    (fun trees => ⟨[], [], trees.map (groupEntry parent), trees.flatMap layerEntries⟩)
    rfl (fun _ _ => ?_) (fun _ _ _ => ?_) trees c after
  · simp [Contents.append_def]
  · simpa using loadGroup_eq_ok_iff

theorem loadSection_eq_ok_iff {c after : Catalog} {tree : SectionTree} :
    loadSection c tree = .ok after ↔ after.contents = c.contents ++ contentsOf [tree] := by
  have hgroups : ∀ mid, tree.groups.foldlM (loadGroup tree.head.id) c = .ok mid ↔ _ :=
    fun mid => loadGroups_eq_ok_iff
  simp only [contents, Contents.append_def, Contents.mk.injEq, List.append_nil, contentsOf,
    sectionEntry, List.map_cons, List.map_nil, List.flatMap_cons, List.flatMap_nil,
    Table.entries_inj, Table.entries_eq_append_iff] at hgroups ⊢
  unfold loadSection
  constructor
  · intro h
    split at h
    · cases h
    · next hnew =>
      split at h
      · cases h
      · next mid hmid =>
        cases h
        obtain ⟨horder, hsections, hrest⟩ := (hgroups mid).1 hmid
        exact ⟨by rw [horder], ⟨by simpa using hnew, by rw [hsections]⟩, hrest⟩
  · rintro ⟨horder, ⟨hnew, hsections⟩, hrest⟩
    have hmid := (hgroups { after with order := c.order, sections := c.sections }).2
      ⟨rfl, rfl, hrest⟩
    rw [hnew, hmid]
    simp [← hsections, ← horder]

/-- Loading trees yields the catalogue whose contents are those of the trees, and fails when there is
none. -/
theorem ofTrees_eq_ok_iff {trees : List SectionTree} {c : Catalog} :
    ofTrees trees = .ok c ↔ c.contents = contentsOf trees := by
  refine foldlM_eq_ok_iff contentsOf rfl (fun _ _ => ?_) (fun _ _ _ => ?_) trees empty c
  · simp [contentsOf, Contents.append_def]
  · exact loadSection_eq_ok_iff

/-! ## The loaded catalogue -/

section Loaded

variable {c : Catalog} {trees : List SectionTree}

theorem get?_sections_of_contents (h : c.contents = contentsOf trees) {id : SectionId}
    {entry : SectionEntry} :
    c.sections.get? id = some entry ↔ ∃ tree ∈ trees, sectionEntry tree = (id, entry) := by
  have hentries : c.sections.entries = _ := congrArg Contents.sections h
  rw [Table.get?_eq_some_iff, hentries]
  simp [contentsOf]

theorem get?_groups_of_contents (h : c.contents = contentsOf trees) {id : GroupId}
    {entry : GroupEntry} :
    c.groups.get? id = some entry ↔
      ∃ tree ∈ trees, ∃ group ∈ tree.groups, groupEntry tree.head.id group = (id, entry) := by
  have hentries : c.groups.entries = _ := congrArg Contents.groups h
  rw [Table.get?_eq_some_iff, hentries]
  simp [contentsOf]

theorem get?_layers_of_contents (h : c.contents = contentsOf trees) {id : LayerId}
    {entry : LayerEntry} :
    c.layers.get? id = some entry ↔
      ∃ tree ∈ trees, ∃ group ∈ tree.groups, ∃ layer ∈ sortedLayers group,
        layerEntry group.group.id layer = (id, entry) := by
  have hentries : c.layers.entries = _ := congrArg Contents.layers h
  rw [Table.get?_eq_some_iff, hentries]
  simp [contentsOf, layerEntries]

theorem linked_groups_of_contents (h : c.contents = contentsOf trees) :
    Linked c.groupIds c.sectionOf? := by
  have hnodup := c.distinct_contents.groups
  rw [h] at hnodup
  simp only [contentsOf, List.map_flatMap, List.map_map, List.nodup_flatMap] at hnodup
  constructor
  · intro id
    unfold groupIds
    split
    · next entry hentry =>
      obtain ⟨tree, htree, heq⟩ := (get?_sections_of_contents h).1 hentry
      cases heq
      exact hnodup.1 tree htree
    · exact List.nodup_nil
  · intro id group
    rw [mem_groupIds_iff, sectionOf?_eq_some_iff]
    constructor
    · rintro ⟨entry, hentry, hmem⟩
      obtain ⟨tree, htree, heq⟩ := (get?_sections_of_contents h).1 hentry
      cases heq
      obtain ⟨groupTree, hgroupTree, rfl⟩ := List.mem_map.1 hmem
      exact ⟨_, (get?_groups_of_contents h).2 ⟨tree, htree, groupTree, hgroupTree, rfl⟩, rfl⟩
    · rintro ⟨entry, hentry, rfl⟩
      obtain ⟨tree, htree, groupTree, hgroupTree, heq⟩ := (get?_groups_of_contents h).1 hentry
      cases heq
      exact ⟨_, (get?_sections_of_contents h).2 ⟨tree, htree, rfl⟩,
        List.mem_map.2 ⟨groupTree, hgroupTree, rfl⟩⟩

theorem linked_layers_of_contents (h : c.contents = contentsOf trees) :
    Linked c.layerIds c.groupOf? := by
  have hnodup := c.distinct_contents.layers
  rw [h] at hnodup
  simp only [contentsOf, layerEntries, List.map_flatMap, List.map_map,
    List.nodup_flatMap] at hnodup
  constructor
  · intro id
    unfold layerIds
    split
    · next entry hentry =>
      obtain ⟨tree, htree, group, hgroup, heq⟩ := (get?_groups_of_contents h).1 hentry
      cases heq
      exact (hnodup.1 tree htree).1 group hgroup
    · exact List.nodup_nil
  · intro id layer
    rw [mem_layerIds_iff, groupOf?_eq_some_iff]
    constructor
    · rintro ⟨entry, hentry, hmem⟩
      obtain ⟨tree, htree, group, hgroup, heq⟩ := (get?_groups_of_contents h).1 hentry
      cases heq
      obtain ⟨record, hrecord, rfl⟩ := List.mem_map.1 hmem
      exact ⟨_, (get?_layers_of_contents h).2
        ⟨tree, htree, group, hgroup, record, hrecord, rfl⟩, rfl⟩
    · rintro ⟨entry, hentry, rfl⟩
      obtain ⟨tree, htree, group, hgroup, record, hrecord, heq⟩ :=
        (get?_layers_of_contents h).1 hentry
      cases heq
      exact ⟨_, (get?_groups_of_contents h).2 ⟨tree, htree, group, hgroup, rfl⟩,
        List.mem_map.2 ⟨record, hrecord, rfl⟩⟩

theorem wellFormed_of_contents (h : c.contents = contentsOf trees) : WellFormed c := by
  have horder : c.order = c.sections.keys := by
    have hsections : c.sections.entries = _ := congrArg Contents.sections h
    have horder : c.order = (contentsOf trees).order := congrArg Contents.order h
    rw [Table.keys, hsections, horder]
    simp [contentsOf, sectionEntry]
  refine ⟨?_, ?_, linked_groups_of_contents h, linked_layers_of_contents h⟩
  · rw [horder]
    exact c.sections.nodup_keys
  · intro id
    rw [horder, Table.mem_keys_iff, Table.contains_iff]

/-- Whatever trees a catalogue was loaded from, it is well formed. -/
theorem wellFormed_ofTrees (h : ofTrees trees = .ok c) : WellFormed c :=
  wellFormed_of_contents (ofTrees_eq_ok_iff.1 h)

end Loaded

end Catalog

end MapCatalog
