import MapCatalog.Proofs.Catalog.Stored
import MapCatalog.Proofs.Record.RoundTrip

/-! # The cameras of a catalogue -/

namespace MapCatalog

def Operation.camera? : Operation → Option Camera
  | .createGroup _ fields | .replaceGroup _ fields => some fields.camera
  | .createLayer _ _ fields | .replaceLayer _ fields => some fields.camera
  | _ => none

namespace Catalog

structure AllCameras (P : Camera → Prop) (c : Catalog) : Prop where
  groups : ∀ id entry, c.groups.get? id = some entry → P entry.fields.camera
  layers : ∀ id entry, c.layers.get? id = some entry → P entry.fields.camera

namespace AllCameras

variable {P : Camera → Prop} {c : Catalog}

theorem of_empty : AllCameras P empty := by
  constructor <;> simp [empty]

/-! ## Operations -/

theorem stores_iff :
    Stores (fun _ => True) (fun fields => P fields.camera) (fun fields => P fields.camera) c ↔
      AllCameras P c :=
  ⟨fun h => ⟨h.groups, h.layers⟩, fun h => ⟨fun _ _ _ => trivial, h.groups, h.layers⟩⟩

/-- An operation stores no camera but the one that it brings along. -/
theorem after (h : AllCameras P c) {operation : Operation}
    (hcamera : ∀ camera, operation.camera? = some camera → P camera) :
    AllCameras P (c.after operation) := by
  refine stores_iff.1 ((stores_iff.2 h).after ?_)
  cases operation with
  | createGroup | createLayer | replaceGroup | replaceLayer => exact hcamera _ rfl
  | createSection | replaceSection | deleteSection | deleteGroup | deleteLayer | moveLayer => trivial

/-! ## Snapshots -/

theorem layersFrom (h : AllCameras P c) (position : Nat) (ids : List LayerId) :
    ∀ layer ∈ c.layersFrom position ids, P layer.fields.camera := by
  induction ids generalizing position with
  | nil =>
      simp [Catalog.layersFrom]
  | cons id rest ih =>
      rw [Catalog.layersFrom]
      split
      case h_1 layer hlayer =>
        obtain ⟨entry, hentry, rfl⟩ := Option.map_eq_some_iff.1 hlayer
        exact List.forall_mem_cons.2 ⟨h.layers id entry hentry, ih (position + 1)⟩
      case h_2 => exact ih (position + 1)

theorem snapshot (h : AllCameras P c) : ∀ camera ∈ c.snapshot.cameras, P camera := by
  intro camera hcamera
  obtain ⟨tree, htree, hcamera⟩ := List.mem_flatMap.1 hcamera
  obtain ⟨sectionId, -, hsection⟩ := List.mem_filterMap.1 htree
  obtain ⟨parent, -, rfl⟩ := Option.map_eq_some_iff.1 hsection
  obtain ⟨group, hgroup, hcamera⟩ := List.mem_flatMap.1 hcamera
  obtain ⟨groupId, -, hgroup⟩ := List.mem_filterMap.1 hgroup
  obtain ⟨entry, hentry, rfl⟩ := Option.map_eq_some_iff.1 hgroup
  have hlayers := h.layersFrom 0 entry.layers
  have hall : ∀ camera ∈ GroupTree.cameras ⟨⟨groupId, entry.fields⟩, c.layersFrom 0 entry.layers⟩,
      P camera :=
    List.forall_mem_cons.2 ⟨h.groups groupId entry hentry, List.forall_mem_map.2 hlayers⟩
  exact hall camera hcamera

theorem of_ofSnapshot {snapshot : Snapshot} (hcameras : ∀ camera ∈ snapshot.cameras, P camera)
    (hload : ofSnapshot snapshot = .ok c) : AllCameras P c := by
  have hcontents := ofTrees_eq_ok_iff.1 hload
  have hgroups : ∀ tree ∈ snapshot.sections, ∀ group ∈ tree.groups,
      ∀ camera ∈ group.cameras, P camera := by
    intro tree htree group hgroup camera hcamera
    exact hcameras camera (List.mem_flatMap.2 ⟨tree, htree,
      List.mem_flatMap.2 ⟨group, hgroup, hcamera⟩⟩)
  refine ⟨fun id entry hentry => ?_, fun id entry hentry => ?_⟩
  · obtain ⟨tree, htree, group, hgroup, hsame⟩ :=
      (get?_groups_of_contents hcontents).1 hentry
    cases hsame
    exact hgroups tree htree group hgroup _ List.mem_cons_self
  · obtain ⟨tree, htree, group, hgroup, layer, hlayer, hsame⟩ :=
      (get?_layers_of_contents hcontents).1 hentry
    cases hsame
    have hmem : layer ∈ group.layers := (Sequence.stableSort_perm _ _).mem_iff.1 hlayer
    exact hgroups tree htree group hgroup _
      (List.mem_cons_of_mem _ (List.mem_map_of_mem hmem))

end AllCameras

end Catalog

end MapCatalog
