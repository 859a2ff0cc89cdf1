import MapCatalog.Catalog.File
import MapCatalog.Editor.LayerForm
import MapCatalog.Proofs.Json.Finite
import MapCatalog.Proofs.Record.Keeping
import MapCatalog.Proofs.Record.RoundTrip

/-! # Records without infinities -/

namespace MapCatalog

namespace Decode

variable {α ρ : Type}

/-- Whatever is decoded from a reading without infinities has a property. -/
def Yields (decode : Decoder α) (P : α → Prop) : Prop :=
  ∀ origin reading value, Reading.Finite reading → decode origin reading = .ok value → P value

/-- Whatever change a field makes to a record, the record keeps a property. -/
def Field.Keeps (field : Field ρ) (P : ρ → Prop) : Prop :=
  ∀ origin reading change record, Reading.Finite reading →
    field.read origin reading = .ok change → P record → P (change record)

/-! ## Records -/

section Records

variable {fields : List (Field ρ)} {P : ρ → Prop}

theorem positional_keeps (hfields : ∀ field ∈ fields, field.Keeps P) {origin : Origin}
    {values : List Reading} {record result : ρ} (hvalues : ∀ value ∈ values, value.Finite)
    (hrecord : P record) (h : positional origin fields record values = .ok result) :
    P result := by
  induction fields generalizing values record with
  | nil =>
      cases values with
      | nil =>
          cases h
          exact hrecord
      | cons value rest => cases h
  | cons field fields ih =>
      have hrest : ∀ other ∈ fields, other.Keeps P :=
        fun other hother => hfields other (List.mem_cons_of_mem field hother)
      cases values with
      | nil =>
          rw [positional] at h
          split at h
          case isTrue => cases h
          case isFalse => exact ih hrest hvalues hrecord h
      | cons value values =>
          rw [positional] at h
          split at h
          case h_1 => cases h
          case h_2 change hread =>
            have hchanged := hfields field List.mem_cons_self origin value change record
              (hvalues value List.mem_cons_self) hread hrecord
            exact ih hrest (fun other hother => hvalues other (List.mem_cons_of_mem value hother))
              hchanged h

theorem yields_record (hfields : ∀ field ∈ fields, field.Keeps P) {blank : ρ} (hblank : P blank) :
    Yields (record fields blank) P := by
  intro origin reading value hfinite h
  match reading with
  | .object entries =>
      obtain ⟨⟨found, aside⟩, hfound, rfl⟩ := map_eq_ok h
      exact (members_keeps hfields hblank ((Reading.finiteMembers_iff entries).1 hfinite) hfound).1
  | .array values =>
      exact positional_keeps hfields ((Reading.finiteItems_iff values).1 hfinite) hblank h
  | .null | .bool _ | .number _ | .text _ | .fault _ => cases h

end Records

theorem yields_list {decode : Decoder α} {P : α → Prop} (hdecode : Yields decode P) :
    Yields (list decode) fun values => ∀ value ∈ values, P value := by
  intro origin reading values hfinite h
  match reading with
  | .array readings =>
      have hreadings := (Reading.finiteItems_iff readings).1 hfinite
      rw [list] at h
      clear hfinite
      induction readings generalizing values with
      | nil =>
          cases h
          simp
      | cons first rest ih =>
          rw [items] at h
          split at h
          case h_1 => cases h
          case h_2 value hvalue =>
            split at h
            case h_1 => cases h
            case h_2 more hmore =>
              cases h
              have hfirst := hdecode origin first value (hreadings first List.mem_cons_self) hvalue
              have hrest := ih more hmore fun other hother =>
                hreadings other (List.mem_cons_of_mem first hother)
              exact List.forall_mem_cons.2 ⟨hfirst, hrest⟩
  | .null | .bool _ | .number _ | .text _ | .object _ | .fault _ => cases h

theorem yields_float : Yields float fun x => x.isFinite = true := by
  intro origin reading value hfinite h
  match reading with
  | .number (.float x) =>
      cases h
      exact hfinite
  | .number (.whole n) =>
      cases h
      exact Binary64.isFinite_ofInt hfinite
  | .null | .bool _ | .text _ | .array _ | .object _ | .fault _ => cases h

end Decode

/-! ## Cameras -/

namespace Camera

theorem keeps_finite : ∀ field ∈ fields, field.Keeps Finite := by
  have hfloat {key : String} {set : Binary64 → Camera → Camera}
      (hset : ∀ value camera, value.isFinite = true → camera.Finite → (set value camera).Finite) :
      (Decode.Field.nullable key Decode.float set).Keeps Finite :=
    Decode.keeps_nullable Decode.yields_float (by decide) hset
  simp only [fields, List.forall_mem_cons]
  refine ⟨hfloat ?_, hfloat ?_, hfloat ?_, hfloat ?_, by simp⟩
  all_goals
    intro value camera hvalue hcamera
    simp only [Finite, numbers, List.forall_mem_cons] at hcamera ⊢
    simp [hvalue, hcamera]

theorem finite_default : (default : Camera).Finite := by
  unfold Finite
  decide

theorem finite_of_part {aside : Reading.Members} {camera : Camera}
    (haside : ∀ entry ∈ aside, entry.2.Finite)
    (h : Decode.part fields default aside = .ok camera) : camera.Finite :=
  Decode.part_keeps keeps_finite finite_default haside h

end Camera

/-! ## Layers -/

theorem LayerFields.finite_of_decodeMembers {origin : Decode.Origin} {entries : Reading.Members}
    {l : LayerFields} (hentries : ∀ entry ∈ entries, entry.2.Finite)
    (h : decodeMembers origin entries = .ok l) : l.camera.Finite := by
  obtain ⟨⟨fields, aside⟩, hmembers, h⟩ := Decode.bind_eq_ok h
  obtain ⟨camera, hcamera, h⟩ := Decode.bind_eq_ok h
  cases h
  have haside := Decode.members_keeps (Decode.keeps_true _) trivial hentries hmembers
  exact Camera.finite_of_part haside.2 hcamera

theorem LayerRecord.yields_finite :
    Decode.Yields decode fun l => l.fields.camera.Finite := by
  intro origin reading l hfinite h
  match reading with
  | .object entries =>
      obtain ⟨⟨layer, aside⟩, hmembers, h⟩ := Decode.bind_eq_ok h
      obtain ⟨fields, hfields, h⟩ := Decode.bind_eq_ok h
      cases h
      have haside := Decode.members_keeps (Decode.keeps_true _) trivial
        ((Reading.finiteMembers_iff entries).1 hfinite) hmembers
      exact LayerFields.finite_of_decodeMembers haside.2 hfields
  | .null | .bool _ | .number _ | .text _ | .array _ | .fault _ => cases h

theorem LayerForm.yields_finite : Decode.Yields decode fun form => form.camera.Finite := by
  intro origin reading form hfinite h
  match reading with
  | .object entries =>
      obtain ⟨⟨found, aside⟩, hmembers, h⟩ := Decode.bind_eq_ok h
      obtain ⟨camera, hcamera, h⟩ := Decode.bind_eq_ok h
      obtain ⟨style, -, h⟩ := Decode.bind_eq_ok h
      cases h
      have haside := Decode.members_keeps (Decode.keeps_true _) trivial
        ((Reading.finiteMembers_iff entries).1 hfinite) hmembers
      exact Camera.finite_of_part haside.2 hcamera
  | .null | .bool _ | .number _ | .text _ | .array _ | .fault _ => cases h

/-! ## Groups -/

theorem GroupFields.finite_of_decodeMembers {origin : Decode.Origin} {entries : Reading.Members}
    {g : GroupFields} (hentries : ∀ entry ∈ entries, entry.2.Finite)
    (h : decodeMembers origin entries = .ok g) : g.camera.Finite := by
  obtain ⟨⟨fields, aside⟩, hmembers, h⟩ := Decode.bind_eq_ok h
  obtain ⟨camera, hcamera, h⟩ := Decode.bind_eq_ok h
  cases h
  have haside := Decode.members_keeps (Decode.keeps_true _) trivial hentries hmembers
  exact Camera.finite_of_part haside.2 hcamera

theorem GroupFields.yields_finite : Decode.Yields decode fun g => g.camera.Finite := by
  intro origin reading g hfinite h
  match reading with
  | .object entries => exact finite_of_decodeMembers ((Reading.finiteMembers_iff entries).1 hfinite) h
  | .null | .bool _ | .number _ | .text _ | .array _ | .fault _ => cases h

theorem GroupRecord.finite_of_decodeMembers {origin : Decode.Origin} {entries : Reading.Members}
    {g : GroupRecord} (hentries : ∀ entry ∈ entries, entry.2.Finite)
    (h : decodeMembers origin entries = .ok g) : g.fields.camera.Finite := by
  obtain ⟨⟨id, aside⟩, hmembers, h⟩ := Decode.bind_eq_ok h
  obtain ⟨fields, hfields, h⟩ := Decode.bind_eq_ok h
  cases h
  have haside := Decode.members_keeps (Decode.keeps_true _) trivial hentries hmembers
  exact GroupFields.finite_of_decodeMembers haside.2 hfields

/-! ## Trees -/

theorem GroupTree.yields_finite :
    Decode.Yields decode fun tree => ∀ camera ∈ tree.cameras, camera.Finite := by
  intro origin reading tree hfinite h
  match reading with
  | .object entries =>
      obtain ⟨⟨layers, aside⟩, hmembers, h⟩ := Decode.bind_eq_ok h
      obtain ⟨group, hgroup, h⟩ := Decode.bind_eq_ok h
      cases h
      have hfields : ∀ field ∈ ownFields, Decode.Field.Keeps field
          fun layers => ∀ layer ∈ layers, layer.fields.camera.Finite :=
        List.forall_mem_singleton.2 (Decode.keeps_needed
          (Decode.yields_list LayerRecord.yields_finite) fun _ _ hvalue _ => hvalue)
      obtain ⟨hlayers, haside⟩ := Decode.members_keeps hfields (by simp)
        ((Reading.finiteMembers_iff entries).1 hfinite) hmembers
      have hhead := GroupRecord.finite_of_decodeMembers haside hgroup
      exact List.forall_mem_cons.2 ⟨hhead, List.forall_mem_map.2 hlayers⟩
  | .null | .bool _ | .number _ | .text _ | .array _ | .fault _ => cases h

theorem SectionTree.yields_finite :
    Decode.Yields decode fun tree => ∀ camera ∈ tree.cameras, camera.Finite := by
  intro origin reading tree hfinite h
  match reading with
  | .object entries =>
      obtain ⟨⟨groups, aside⟩, hmembers, h⟩ := Decode.bind_eq_ok h
      obtain ⟨head, -, h⟩ := Decode.bind_eq_ok h
      cases h
      have hfields : ∀ field ∈ ownFields, Decode.Field.Keeps field
          fun groups => ∀ group ∈ groups, ∀ camera ∈ group.cameras, camera.Finite :=
        List.forall_mem_singleton.2 (Decode.keeps_needed
          (Decode.yields_list GroupTree.yields_finite) fun _ _ hvalue _ => hvalue)
      have hgroups := Decode.members_keeps hfields (by simp)
        ((Reading.finiteMembers_iff entries).1 hfinite) hmembers
      intro camera hcamera
      obtain ⟨group, hgroup, hcamera⟩ := List.mem_flatMap.1 hcamera
      exact hgroups.1 group hgroup camera hcamera
  | .null | .bool _ | .number _ | .text _ | .array _ | .fault _ => cases h

namespace Snapshot

theorem yields_finite :
    Decode.Yields decode fun snapshot => ∀ camera ∈ snapshot.cameras, camera.Finite := by
  have hversion : (Decode.Field.needed "version" Decode.word32
      fun v (s : Snapshot) => { s with version := v }).Keeps
        fun snapshot => ∀ camera ∈ snapshot.cameras, camera.Finite :=
    Decode.keeps_needed (Decode.yields_any _) fun _ _ _ hsnapshot => hsnapshot
  have htrees : (Decode.Field.needed "layerSections" (Decode.list SectionTree.decode)
      fun v (s : Snapshot) => { s with sections := v }).Keeps
        fun snapshot => ∀ camera ∈ snapshot.cameras, camera.Finite := by
    refine Decode.keeps_needed (Decode.yields_list SectionTree.yields_finite) ?_
    intro trees snapshot htrees _ camera hcamera
    obtain ⟨tree, htree, hcamera⟩ := List.mem_flatMap.1 hcamera
    exact htrees tree htree camera hcamera
  have hblank : ∀ camera ∈ (default : Snapshot).cameras, camera.Finite :=
    fun camera hcamera => absurd hcamera List.not_mem_nil
  refine Decode.yields_record ?_ hblank
  simp only [fields, List.forall_mem_cons]
  exact ⟨hversion, htrees, by simp⟩

/-- The cameras of a snapshot that was read from a file are finite. -/
theorem finite_of_ofBytes {bytes : List UInt8} {snapshot : Snapshot}
    (h : ofBytes bytes = .ok snapshot) : ∀ camera ∈ snapshot.cameras, camera.Finite := by
  have hfinite := Reading.finite_read (Utf8.documentChars bytes)
  unfold ofBytes Decode.ofText at h
  simp only at h
  cases hdecoded : decode .text (Json.read (Utf8.documentChars bytes)).root with
  | error e =>
      simp only [hdecoded] at h
      cases h
  | ok found =>
      have hfound := yields_finite .text _ found hfinite hdecoded
      cases hended : (Json.read (Utf8.documentChars bytes)).ended with
      | false =>
          simp only [hdecoded, hended] at h
          cases h
      | true =>
          simp only [hdecoded, hended, if_true] at h
          split at h
          case isTrue => cases h
          case isFalse =>
            cases h
            exact hfound

end Snapshot

end MapCatalog
