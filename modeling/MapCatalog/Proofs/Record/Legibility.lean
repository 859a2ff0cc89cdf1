import MapCatalog.Catalog.File
import MapCatalog.Proofs.Bytes.Utf8
import MapCatalog.Proofs.Record.RoundTrip

/-! # Snapshots that are read back -/

namespace MapCatalog

theorem Json.readable_word32 (room : Nat) (n : UInt32) : (Json.ofNat n.toNat).Readable room := by
  have hlt := n.toNat_lt
  exact readable_whole room (by omega) (by omega)

theorem Camera.Legible.readable {camera : Camera} (h : camera.Legible) (room : Nat) :
    ∀ entry ∈ camera.toMembers, entry.2.Readable room := by
  have hfloat : ∀ x ∈ camera.numbers, (Json.ofFloat x).Readable room := by
    intro x hx
    have hx := h x hx
    cases hfinite : x.isFinite <;> simp [Json.ofFloat, hfinite, Json.Readable, hx]
  simpa [toMembers, numbers] using hfloat

theorem HoverRow.readable (row : HoverRow) (room : Nat) : row.toJson.Readable (room + 1) := by
  apply Json.readable_object
  simp [toMembers, Json.readable_text]

theorem Source.readable (source : Source) (room : Nat) : source.toJson.Readable (room + 1) := by
  cases source <;>
  · apply Json.readable_object
    simp [Json.readable_text]

theorem LayerRecord.readable {layer : LayerRecord} (h : layer.fields.camera.Legible) (room : Nat) :
    layer.toJson.Readable (room + 3) := by
  have hrows : (Json.array (layer.fields.hoverContent.map HoverRow.toJson)).Readable (room + 2) := by
    apply Json.readable_array
    simp [HoverRow.readable]
  have hsource : layer.fields.source.toJson.Readable (room + 2) := Source.readable _ _
  apply Json.readable_object
  simp only [toMembers, LayerFields.toMembers, List.forall_mem_append, List.forall_mem_cons]
  simpa [Json.readable_text, Json.readable_bool, Json.readable_word32, Id.toJson,
    VisualType.toJson, hrows, hsource] using h.readable (room + 2)

theorem GroupTree.readable {tree : GroupTree} (h : ∀ camera ∈ tree.cameras, camera.Legible)
    (room : Nat) : tree.toJson.Readable (room + 5) := by
  have hlayers : (Json.array (tree.layers.map LayerRecord.toJson)).Readable (room + 4) := by
    apply Json.readable_array
    intro doc hdoc
    obtain ⟨layer, hlayer, rfl⟩ := List.mem_map.1 hdoc
    exact LayerRecord.readable (h _ (List.mem_cons_of_mem _ (List.mem_map_of_mem hlayer))) room
  have hcamera : tree.group.fields.camera.Legible := h _ List.mem_cons_self
  apply Json.readable_object
  simp only [toMembers, GroupRecord.toMembers, GroupFields.toMembers, List.forall_mem_append,
    List.forall_mem_cons]
  simpa [Json.readable_text, Id.toJson, hlayers] using hcamera.readable (room + 4)

theorem SectionTree.readable {tree : SectionTree} (h : ∀ camera ∈ tree.cameras, camera.Legible)
    (room : Nat) : tree.toJson.Readable (room + 7) := by
  have hgroups : (Json.array (tree.groups.map GroupTree.toJson)).Readable (room + 6) := by
    apply Json.readable_array
    intro doc hdoc
    obtain ⟨group, hgroup, rfl⟩ := List.mem_map.1 hdoc
    exact GroupTree.readable (fun camera hcamera =>
      h camera (List.mem_flatMap.2 ⟨group, hgroup, hcamera⟩)) room
  apply Json.readable_object
  simp [toMembers, SectionRecord.toMembers, SectionFields.toMembers, Json.readable_text, Id.toJson,
    hgroups]

namespace Snapshot

theorem readable {snapshot : Snapshot} (h : ∀ camera ∈ snapshot.cameras, camera.Legible)
    (room : Nat) : snapshot.toJson.Readable (room + 9) := by
  have htrees : (Json.array (snapshot.sections.map SectionTree.toJson)).Readable (room + 8) := by
    apply Json.readable_array
    intro doc hdoc
    obtain ⟨tree, htree, rfl⟩ := List.mem_map.1 hdoc
    exact SectionTree.readable (fun camera hcamera =>
      h camera (List.mem_flatMap.2 ⟨tree, htree, hcamera⟩)) room
  apply Json.readable_object
  simp [toMembers, Json.readable_word32, htrees]

/-- What was written to the file of a snapshot is that snapshot. -/
theorem ofBytes_bytes {snapshot : Snapshot} (hversion : snapshot.version ≤ currentVersion)
    (hfinite : ∀ camera ∈ snapshot.cameras, camera.Finite)
    (hlegible : ∀ camera ∈ snapshot.cameras, camera.Legible) :
    ofBytes snapshot.bytes = .ok snapshot := by
  have hread : Json.read (Json.prettyChars 0 snapshot.toJson) =
      ⟨Reading.ofJson snapshot.toJson, true⟩ :=
    Json.read_prettyChars (readable hlegible 118)
  have htext : Decode.ofText decode (Json.prettyChars 0 snapshot.toJson) = .ok snapshot := by
    simp only [Decode.ofText, hread, inverts hfinite .text, if_true]
  rw [ofBytes, bytes, Utf8.documentChars_encode, htext]
  exact if_neg (UInt32.not_lt.2 hversion)

end Snapshot

end MapCatalog
