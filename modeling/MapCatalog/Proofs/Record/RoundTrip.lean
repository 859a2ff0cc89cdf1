import MapCatalog.Proofs.Json.RoundTrip
import MapCatalog.Proofs.Record.Identifier
import MapCatalog.Proofs.Record.Members
import MapCatalog.Record.Tree

/-! # Records that are read back

Only the cameras matter: their numbers have to be finite, since others have no written form, and have to be read back
from their digits.
-/

namespace MapCatalog

namespace Decode

variable {α : Type}

def Inverts (decode : Decoder α) (toJson : α → Json) (value : α) : Prop :=
  ∀ origin, decode origin (Reading.ofJson (toJson value)) = .ok value

theorem list_map {decode : Decoder α} {toJson : α → Json} {values : List α}
    (h : ∀ value ∈ values, Inverts decode toJson value) (origin : Origin) :
    list decode origin (.array (Reading.ofItems (values.map toJson))) = .ok values := by
  rw [list]
  induction values with
  | nil =>
      rfl
  | cons value rest ih =>
      have hvalue := h value List.mem_cons_self origin
      have hrest := ih fun other hother => h other (List.mem_cons_of_mem value hother)
      rw [List.map_cons, Reading.ofItems, items, hvalue]
      simp only [hrest]

theorem word32_toNat (n : UInt32) (origin : Origin) :
    word32 origin (Reading.ofJson (.ofNat n.toNat)) = .ok n := by
  have hlt : (n.toNat : Int) < 2 ^ 32 := by
    exact_mod_cast n.toNat_lt
  rw [Json.ofNat, Reading.ofJson, word32, whole, if_pos ⟨Int.natCast_nonneg _, hlt⟩]
  simp [Except.map]

variable {ρ : Type} {fields : List (Field ρ)}

theorem visit_needed {others : Others} {origin : Origin} {key : String} {decode : Decoder α}
    {set : α → ρ → ρ} {seen : List String} {record : ρ} {reading : Reading} {value : α}
    (hfield : field? fields key = some (.needed key decode set)) (hfresh : seen.contains key = false)
    (hread : decode origin reading = .ok value) (rest : Reading.Members) :
    visit fields others origin seen record ((some key, reading) :: rest) =
      visit fields others origin (key :: seen) (set value record) rest := by
  rw [visit, hfield]
  simp only [hfresh, Field.needed, hread, Except.map]
  rfl

/-- Members that a record does not know are kept as they are. -/
theorem visit_foreign (origin : Origin) {entries : Json.Members}
    (h : ∀ entry ∈ entries, field? fields entry.1 = none) (seen : List String) (record : ρ)
    (rest : Reading.Members) :
    visit fields .kept origin seen record (Reading.ofMembers entries ++ rest) =
      (visit fields .kept origin seen record rest).map fun visited =>
        { visited with aside := Reading.ofMembers entries ++ visited.aside } := by
  induction entries with
  | nil =>
      rw [Reading.ofMembers, List.nil_append]
      cases visit fields .kept origin seen record rest <;> rfl
  | cons entry others ih =>
      obtain ⟨key, value⟩ := entry
      have hkey : field? fields key = none := h (key, value) List.mem_cons_self
      have hothers := ih fun entry hentry => h entry (List.mem_cons_of_mem _ hentry)
      rw [Reading.ofMembers, List.cons_append, visit]
      simp only [hkey, Others.allows, Reading.toJson?_ofJson, Option.isSome_some, if_true, hothers]
      cases visit fields .kept origin seen record rest <;> rfl

theorem visit_only_foreign {origin : Origin} {entries : Json.Members}
    (h : ∀ entry ∈ entries, field? fields entry.1 = none) (seen : List String) (record : ρ) :
    visit fields .kept origin seen record (Reading.ofMembers entries) =
      .ok ⟨record, seen, Reading.ofMembers entries⟩ := by
  have hvisit := visit_foreign origin h seen record []
  rw [List.append_nil] at hvisit
  rw [hvisit]
  simp [visit, Except.map]

end Decode

/-! ## Cameras -/

namespace Camera

def numbers (camera : Camera) : List Binary64 :=
  [camera.longitude, camera.latitude, camera.zoom, camera.bearing]

def Finite (camera : Camera) : Prop :=
  ∀ x ∈ camera.numbers, x.isFinite = true

def Legible (camera : Camera) : Prop :=
  ∀ x ∈ camera.numbers, (Json.Number.float x).ReadsBack

theorem inverts {camera : Camera} (h : camera.Finite) : Decode.Inverts decode toJson camera := by
  intro origin
  simp only [Finite, numbers, List.forall_mem_cons] at h
  obtain ⟨hlongitude, hlatitude, hzoom, hbearing, -⟩ := h
  simp only [toJson, toMembers, Json.ofFloat, hlongitude, hlatitude, hzoom, hbearing, if_true]
  rfl

theorem part_toMembers {camera : Camera} (h : camera.Finite) :
    Decode.part fields default (Reading.ofMembers camera.toMembers) = .ok camera :=
  inverts h .tree

end Camera

/-! ## Parts of layers -/

theorem VisualType.decode_name (kind : VisualType) (origin : Decode.Origin) :
    decode origin (.text kind.name) = .ok kind := by
  simp [decode, Decode.variant, ofName?_name]

theorem HoverRow.inverts (row : HoverRow) : Decode.Inverts decode toJson row := by
  intro origin
  have hfield : HoverField.decode origin (.text row.field.code) = .ok row.field := by
    simp [HoverField.decode, Decode.variant, HoverField.ofCode?_code]
  simp [toJson, toMembers, Reading.ofJson, Reading.ofMembers, decode, Decode.record,
    Decode.members, Decode.visit, fields, Decode.field?, Decode.Field.nullable, Decode.text, hfield,
    Except.map, Decode.firstMissing?]

theorem Source.inverts (source : Source) : Decode.Inverts decode toJson source := by
  intro origin
  rw [decode, Reading.toJson?_ofJson]
  cases source <;> simp [toJson, ofMembers?, soleText?]

/-! ## Layers -/

theorem LayerFields.members_toMembers (l : LayerFields) (origin : Decode.Origin) :
    Decode.members ownFields blank .kept origin (Reading.ofMembers l.toMembers) =
      .ok ({ l with camera := default }, Reading.ofMembers l.camera.toMembers) := by
  have htype := l.visualType.decode_name origin
  have hsource := l.source.inverts origin
  have hrows := Decode.list_map (fun row (_ : row ∈ l.hoverContent) => row.inverts) origin
  simp [toMembers, Camera.toMembers, VisualType.toJson, Reading.ofMembers, Reading.ofJson,
    Decode.members, Decode.visit, ownFields, Decode.field?, Decode.Field.nullable,
    Decode.Field.given, Decode.Field.needed, Decode.text, Decode.flag, Except.map,
    Decode.Others.allows, Decode.Others.keep, Decode.firstMissing?, Reading.toJson?_ofJson, htype,
    hsource, hrows]
  rfl

theorem LayerFields.decodeMembers_toMembers {l : LayerFields} (h : l.camera.Finite)
    (origin : Decode.Origin) :
    decodeMembers origin (Reading.ofMembers l.toMembers) = .ok l := by
  rw [decodeMembers, members_toMembers l origin]
  simp only [bind, Except.bind, Camera.part_toMembers h]
  rfl

theorem LayerRecord.inverts {l : LayerRecord} (h : l.fields.camera.Finite) :
    Decode.Inverts decode toJson l := by
  intro origin
  have hforeign : ∀ entry ∈ l.fields.toMembers, Decode.field? ownFields entry.1 = none := by
    simp [LayerFields.toMembers, Camera.toMembers, Decode.field?, ownFields, Decode.Field.needed]
  have hmembers : Decode.members ownFields default .kept origin (Reading.ofMembers l.toMembers) =
      .ok ({ l with fields := default }, Reading.ofMembers l.fields.toMembers) := by
    rw [Decode.members, toMembers]
    simp only [List.cons_append, List.nil_append, Reading.ofMembers]
    rw [Decode.visit_needed rfl rfl (l.id.decode_toJson origin),
      Decode.visit_needed rfl rfl (l.groupId.decode_toJson origin),
      Decode.visit_needed rfl rfl (Decode.word32_toNat l.order origin),
      Decode.visit_only_foreign hforeign]
    rfl
  rw [toJson, Reading.ofJson, decode, decodeMembers, hmembers]
  simp only [bind, Except.bind, LayerFields.decodeMembers_toMembers h]
  rfl

/-! ## Groups -/

theorem GroupFields.decodeMembers_toMembers {g : GroupFields} (h : g.camera.Finite)
    (origin : Decode.Origin) :
    decodeMembers origin (Reading.ofMembers g.toMembers) = .ok g := by
  have hmembers : Decode.members ownFields default .kept origin (Reading.ofMembers g.toMembers) =
      .ok ({ g with camera := default }, Reading.ofMembers g.camera.toMembers) := by
    have hsection := g.sectionId.decode_toJson origin
    simp [toMembers, Camera.toMembers, Reading.ofMembers, Reading.ofJson,
      Decode.members, Decode.visit, ownFields, Decode.field?, Decode.Field.nullable,
      Decode.Field.needed, Decode.text, Except.map, Decode.Others.allows, Decode.Others.keep,
      Decode.firstMissing?, Reading.toJson?_ofJson, hsection]
    rfl
  rw [decodeMembers, hmembers]
  simp only [bind, Except.bind, Camera.part_toMembers h]
  rfl

theorem GroupRecord.decodeMembers_toMembers {g : GroupRecord} (h : g.fields.camera.Finite)
    (origin : Decode.Origin) :
    decodeMembers origin (Reading.ofMembers g.toMembers) = .ok g := by
  have hforeign : ∀ entry ∈ g.fields.toMembers, Decode.field? ownFields entry.1 = none := by
    simp [GroupFields.toMembers, Camera.toMembers, Decode.field?, ownFields, Decode.Field.needed]
  have hmembers : Decode.members ownFields default .kept origin (Reading.ofMembers g.toMembers) =
      .ok (g.id, Reading.ofMembers g.fields.toMembers) := by
    rw [Decode.members, toMembers, Reading.ofMembers,
      Decode.visit_needed rfl rfl (g.id.decode_toJson origin),
      Decode.visit_only_foreign hforeign]
    rfl
  rw [decodeMembers, hmembers]
  simp only [bind, Except.bind, GroupFields.decodeMembers_toMembers h]
  rfl

def GroupTree.cameras (tree : GroupTree) : List Camera :=
  tree.group.fields.camera :: tree.layers.map fun layer => layer.fields.camera

theorem GroupTree.inverts {tree : GroupTree} (h : ∀ camera ∈ tree.cameras, camera.Finite) :
    Decode.Inverts decode toJson tree := by
  intro origin
  have hgroup : tree.group.fields.camera.Finite := h _ List.mem_cons_self
  have hlayers : ∀ layer ∈ tree.layers,
      Decode.Inverts LayerRecord.decode LayerRecord.toJson layer := by
    intro layer hlayer
    exact LayerRecord.inverts (h _ (List.mem_cons_of_mem _ (List.mem_map_of_mem hlayer)))
  have hforeign : ∀ entry ∈ tree.group.toMembers, Decode.field? ownFields entry.1 = none := by
    simp [GroupRecord.toMembers, GroupFields.toMembers, Camera.toMembers, Decode.field?, ownFields,
      Decode.Field.needed]
  have hlist := Decode.list_map hlayers origin
  have hmembers : Decode.members ownFields [] .kept origin (Reading.ofMembers tree.toMembers) =
      .ok (tree.layers, Reading.ofMembers tree.group.toMembers) := by
    rw [Decode.members, toMembers, Reading.ofMembers_append, Decode.visit_foreign origin hforeign]
    simp only [Reading.ofMembers, Reading.ofJson]
    rw [Decode.visit_needed rfl rfl hlist]
    simp [Decode.visit, Except.map]
    rfl
  rw [toJson, Reading.ofJson, decode, decodeMembers, hmembers]
  simp only [bind, Except.bind, GroupRecord.decodeMembers_toMembers hgroup]
  rfl

/-! ## Sections -/

theorem SectionRecord.decodeMembers_toMembers (s : SectionRecord) (origin : Decode.Origin) :
    decodeMembers origin (Reading.ofMembers s.toMembers) = .ok s := by
  have hforeign : ∀ entry ∈ s.fields.toMembers, Decode.field? ownFields entry.1 = none := by
    simp [SectionFields.toMembers, Decode.field?, ownFields, Decode.Field.needed]
  have hmembers : Decode.members ownFields default .kept origin (Reading.ofMembers s.toMembers) =
      .ok (s.id, Reading.ofMembers s.fields.toMembers) := by
    rw [Decode.members, toMembers, Reading.ofMembers,
      Decode.visit_needed rfl rfl (s.id.decode_toJson origin),
      Decode.visit_only_foreign hforeign]
    rfl
  rw [decodeMembers, hmembers]
  rfl

def SectionTree.cameras (tree : SectionTree) : List Camera :=
  tree.groups.flatMap GroupTree.cameras

theorem SectionTree.inverts {tree : SectionTree} (h : ∀ camera ∈ tree.cameras, camera.Finite) :
    Decode.Inverts decode toJson tree := by
  intro origin
  have hforeign : ∀ entry ∈ tree.head.toMembers, Decode.field? ownFields entry.1 = none := by
    simp [SectionRecord.toMembers, SectionFields.toMembers, Decode.field?, ownFields,
      Decode.Field.needed]
  have hgroups : ∀ group ∈ tree.groups, Decode.Inverts GroupTree.decode GroupTree.toJson group := by
    intro group hgroup
    exact GroupTree.inverts fun camera hcamera =>
      h camera (List.mem_flatMap.2 ⟨group, hgroup, hcamera⟩)
  have hlist := Decode.list_map hgroups origin
  have hmembers : Decode.members ownFields [] .kept origin (Reading.ofMembers tree.toMembers) =
      .ok (tree.groups, Reading.ofMembers tree.head.toMembers) := by
    rw [Decode.members, toMembers, Reading.ofMembers_append, Decode.visit_foreign origin hforeign]
    simp only [Reading.ofMembers, Reading.ofJson]
    rw [Decode.visit_needed rfl rfl hlist]
    simp [Decode.visit, Except.map]
    rfl
  rw [toJson, Reading.ofJson, decode, decodeMembers, hmembers]
  simp only [bind, Except.bind, tree.head.decodeMembers_toMembers]
  rfl

/-! ## Snapshots -/

namespace Snapshot

def cameras (snapshot : Snapshot) : List Camera :=
  snapshot.sections.flatMap SectionTree.cameras

theorem members_of_parts {snapshot : Snapshot} {origin : Decode.Origin} {version trees : Reading}
    (hversion : Decode.word32 origin version = .ok snapshot.version)
    (htrees : Decode.list SectionTree.decode origin trees = .ok snapshot.sections) :
    Decode.members fields default .skipped origin
        [(some "version", version), (some "layerSections", trees)] = .ok (snapshot, []) := by
  rw [Decode.members, Decode.visit_needed rfl rfl hversion, Decode.visit_needed rfl rfl htrees]
  rfl

theorem inverts {snapshot : Snapshot} (h : ∀ camera ∈ snapshot.cameras, camera.Finite) :
    Decode.Inverts decode toJson snapshot := by
  intro origin
  have hsections : ∀ tree ∈ snapshot.sections,
      Decode.Inverts SectionTree.decode SectionTree.toJson tree := by
    intro tree htree
    exact SectionTree.inverts fun camera hcamera =>
      h camera (List.mem_flatMap.2 ⟨tree, htree, hcamera⟩)
  have hmembers := members_of_parts (Decode.word32_toNat snapshot.version origin)
    (Decode.list_map hsections origin)
  rw [toJson, Reading.ofJson, decode, Decode.record]
  exact congrArg (Except.map Prod.fst) hmembers

end Snapshot

end MapCatalog
