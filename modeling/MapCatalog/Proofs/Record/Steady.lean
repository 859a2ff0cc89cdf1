import MapCatalog.Proofs.Json.Numbers
import MapCatalog.Proofs.Record.Readers

/-! # Text order and tree order

As long as no object has a key twice, decoding in text order and in key order succeed for the same documents and with
the same values; which error is met first may differ.
-/

namespace MapCatalog

namespace Decode

variable {ρ α β : Type}

/-- A decoder has the same successes on a document read from a text and on its normal form. -/
def Steady (decode : Decoder α) : Prop :=
  ∀ ⦃doc : Json⦄, doc.Distinct → ∀ origin value,
    decode origin (Reading.ofJson doc) = .ok value ↔
      decode .tree (Reading.ofJson doc.normalize) = .ok value

/-! ## Single values -/

theorem steady_text : Steady text := by
  intro doc _ origin value
  cases doc <;> exact Iff.rfl

theorem steady_flag : Steady flag := by
  intro doc _ origin value
  cases doc <;> exact Iff.rfl

theorem steady_float : Steady float := by
  intro doc _ origin value
  cases doc with
  | number number =>
      cases number <;> exact Iff.rfl
  | null | bool _ | text _ | array _ | object _ =>
      exact Iff.rfl

theorem steady_id {tier : Tier} : Steady (Id.decode : Decoder (Id tier)) := by
  intro doc _ origin value
  cases doc <;> exact Iff.rfl

theorem Steady.map {decode : Decoder α} (h : Steady decode) (f : α → β) :
    Steady fun origin reading => (decode origin reading).map f := by
  intro doc hdoc origin value
  simp only [map_eq_ok_iff, h hdoc]

theorem Steady.optional {decode : Decoder α} (h : Steady decode) : Steady (optional decode) := by
  intro doc hdoc origin value
  cases doc with
  | null =>
      exact Iff.rfl
  | bool _ | number _ | text _ | array _ | object _ =>
      exact h.map some hdoc origin value

theorem items_cons_eq_ok_iff {decode : Decoder α} {origin : Origin} {first : Reading}
    {rest : List Reading} {values : List α} :
    items decode origin (first :: rest) = .ok values ↔
      ∃ value others, decode origin first = .ok value ∧ items decode origin rest = .ok others ∧
        values = value :: others := by
  rw [items]
  cases decode origin first with
  | error e =>
      simp
  | ok value =>
      cases items decode origin rest with
      | error e =>
          simp
      | ok others =>
          simp [eq_comm]

theorem Steady.items {decode : Decoder α} (h : Steady decode) {docs : List Json}
    (hdocs : ∀ doc ∈ docs, doc.Distinct) (origin : Origin) (values : List α) :
    items decode origin (Reading.ofItems docs) = .ok values ↔
      items decode .tree (Reading.ofItems (Json.normalizeItems docs)) = .ok values := by
  induction docs generalizing values with
  | nil =>
      exact Iff.rfl
  | cons doc rest ih =>
      obtain ⟨hdoc, hrest⟩ := List.forall_mem_cons.1 hdocs
      simp only [Reading.ofItems, Json.normalizeItems, items_cons_eq_ok_iff, h hdoc, ih hrest]

theorem Steady.list {decode : Decoder α} (h : Steady decode) : Steady (list decode) := by
  intro doc hdoc origin value
  cases doc with
  | array docs =>
      exact h.items ((Json.distinct_array_iff docs).1 hdoc) origin value
  | null | bool _ | number _ | text _ | object _ =>
      exact Iff.rfl

/-! ### Variants -/

theorem variantOf_eq_ok_iff {found : Option α} {name : String} {payload : Json} {alone : Bool}
    {value : α} :
    variantOf found name (Reading.ofJson payload) alone = .ok value ↔
      found = some value ∧ payload = .null ∧ alone = true := by
  unfold variantOf
  cases found with
  | none =>
      simp
  | some _ =>
      cases payload <;> cases alone <;> simp [Reading.ofJson]

/-- A variant may be an object that maps its name to null and has no other member. -/
theorem variant_object_eq_ok_iff {lookup : String → Option α} {origin : Origin}
    {members : Json.Members} {value : α} :
    variant lookup origin (Reading.ofJson (.object members)) = .ok value ↔
      ∃ name, members = [(name, .null)] ∧ lookup name = some value := by
  obtain _ | ⟨⟨name, payload⟩, _ | ⟨second, rest⟩⟩ := members
  · cases origin <;> simp [variant, Reading.ofJson, Reading.ofMembers]
  · cases origin <;>
      simp [variant, Reading.ofJson, Reading.ofMembers, variantOf_eq_ok_iff, and_comm]
  · cases origin <;>
      simp [variant, Reading.ofJson, Reading.ofMembers, variantOf_eq_ok_iff]

/-- An object with one member has one order only. -/
theorem steady_variant (lookup : String → Option α) : Steady (variant lookup) := by
  intro doc hdoc origin value
  cases doc with
  | null | bool _ | number _ | array _ | text _ =>
      cases origin <;> exact Iff.rfl
  | object members =>
      have hperm := Json.normalizeMembers_perm ((Json.distinct_object_iff members).1 hdoc).1
      rw [Json.normalize, variant_object_eq_ok_iff, variant_object_eq_ok_iff]
      refine exists_congr fun name => and_congr_left fun _ => ?_
      constructor
      · rintro rfl
        exact List.perm_singleton.1 hperm
      · intro hnormal
        rw [hnormal] at hperm
        obtain ⟨⟨key, payload⟩, rfl, hentry⟩ := List.map_eq_singleton_iff.1
          (List.singleton_perm.1 hperm).symm
        obtain ⟨rfl, hpayload⟩ := Prod.mk.inj hentry
        have hnull : payload = .null := Json.eq_of_normalize_eq rfl hpayload
        rw [hnull]

/-! ## Fields -/

namespace Field

variable [Inhabited α] {decode : Decoder α} (h : Steady decode) (key : String) (set : α → ρ → ρ)
include h

omit [Inhabited α] in
theorem steady_needed : Steady (needed key decode set).read :=
  h.map set

omit [Inhabited α] in
theorem steady_given : Steady (given key decode set).read :=
  h.map set

theorem steady_nullable : Steady (nullable key decode set).read := by
  intro doc hdoc origin value
  cases doc with
  | null =>
      exact Iff.rfl
  | bool _ | number _ | text _ | array _ | object _ =>
      exact h.map set hdoc origin value

end Field

/-! ## Members -/

section Members

variable {fields : List (Field ρ)} (hfields : ∀ field ∈ fields, Steady field.read)

theorem known_map_normalizeEntry (entries : Json.Members) :
    known fields (entries.map Json.normalizeEntry) = (known fields entries).map Json.normalizeEntry := by
  rw [known, List.filter_map]
  rfl

theorem foreign_map_normalizeEntry (entries : Json.Members) :
    foreign fields (entries.map Json.normalizeEntry) =
      (foreign fields entries).map Json.normalizeEntry := by
  rw [foreign, List.filter_map]
  rfl

include hfields

theorem reads_normalizeEntry {entry : String × Json} (hentry : entry.2.Distinct) (origin : Origin) :
    Reads fields .tree (Json.normalizeEntry entry) ↔ Reads fields origin entry := by
  refine forall_congr' fun field => forall_congr' fun hfield => exists_congr fun made => ?_
  exact (hfields field (field?_eq_some hfield).1 hentry origin made).symm

theorem change_normalizeEntry {entry : String × Json} (hentry : entry.2.Distinct)
    (origin : Origin) (hread : Reads fields origin entry) :
    change fields .tree (Json.normalizeEntry entry) = change fields origin entry := by
  cases hfield : field? fields entry.1 with
  | none =>
      rw [change, change, Json.normalizeEntry, hfield]
  | some field =>
      obtain ⟨made, hmade⟩ := hread field hfield
      have hnormal := (hfields field (field?_eq_some hfield).1 hentry origin made).1 hmade
      rw [change_of_read hfield hmade]
      exact change_of_read hfield hnormal

variable {entries : Json.Members} (hvalues : ∀ entry ∈ entries, entry.2.Distinct)
include hvalues

theorem fits_map_normalizeEntry (origin : Origin) :
    Fits fields .tree (entries.map Json.normalizeEntry) ↔ Fits fields origin entries := by
  have hknown : known fields (entries.map Json.normalizeEntry) =
      (known fields entries).map Json.normalizeEntry := known_map_normalizeEntry entries
  have hkeys : Json.keys (known fields (entries.map Json.normalizeEntry)) =
      Json.keys (known fields entries) := by
    rw [hknown, Json.keys_map_normalizeEntry]
  refine fits_congr hkeys ?_
  rw [hknown, List.forall_mem_map]
  refine forall_congr' fun entry => forall_congr' fun hentry => ?_
  exact reads_normalizeEntry hfields (hvalues entry (List.mem_filter.1 hentry).1) origin

theorem assemble_map_normalizeEntry {origin : Origin} (hfits : Fits fields origin entries)
    (record : ρ) :
    assemble fields .tree (entries.map Json.normalizeEntry) record =
      assemble fields origin entries record := by
  have hreads := hfits.reads
  have hknown : ∀ entry ∈ known fields entries, entry.2.Distinct :=
    fun entry hentry => hvalues entry (List.mem_filter.1 hentry).1
  rw [assemble, assemble, known_map_normalizeEntry]
  generalize known fields entries = members at hreads hknown
  induction members generalizing record with
  | nil =>
      rfl
  | cons entry rest ih =>
      obtain ⟨hread, hreads⟩ := List.forall_mem_cons.1 hreads
      obtain ⟨hentry, hrest⟩ := List.forall_mem_cons.1 hknown
      rw [List.map_cons, List.foldl_cons, List.foldl_cons,
        change_normalizeEntry hfields hentry origin hread, ih _ hreads hrest]

variable {other : Json.Members} (hother : other.Perm (entries.map Json.normalizeEntry))
include hother

theorem fits_perm_normalizeEntry (origin : Origin) :
    Fits fields .tree other ↔ Fits fields origin entries := by
  have hknown : (known fields other).Perm (known fields (entries.map Json.normalizeEntry)) :=
    hother.filter _
  rw [← fits_map_normalizeEntry hfields hvalues origin]
  exact ⟨fun hfits => hfits.of_perm hknown, fun hfits => hfits.of_perm hknown.symm⟩

theorem assemble_perm_normalizeEntry (hapart : fields.Pairwise Field.Apart) {origin : Origin}
    (hfits : Fits fields origin entries) (record : ρ) :
    assemble fields .tree other record = assemble fields origin entries record := by
  have hnormal := (fits_map_normalizeEntry hfields hvalues origin).2 hfits
  have hknown : (known fields (entries.map Json.normalizeEntry)).Perm (known fields other) :=
    (hother.filter _).symm
  rw [assemble_perm hapart hnormal hknown, assemble_map_normalizeEntry hfields hvalues hfits]

end Members

/-! ## Records -/

section Records

variable {fields : List (Field ρ)}

/-- A decoder of members has the same successes on the members of a text and on those of its normal form,
which come in another order. -/
def SteadyMembers (decode : Origin → Reading.Members → Except DecodeError α) : Prop :=
  ∀ ⦃entries other : Json.Members⦄, (Json.keys entries).Nodup →
    (∀ entry ∈ entries, entry.2.Distinct) → other.Perm (entries.map Json.normalizeEntry) →
      ∀ origin value, decode origin (Reading.ofMembers entries) = .ok value ↔
        decode .tree (Reading.ofMembers other) = .ok value

namespace SteadyMembers

theorem members_bind (hfields : ∀ field ∈ fields, Steady field.read)
    (hapart : fields.Pairwise Field.Apart) {blank : ρ}
    {next : ρ × Reading.Members → Except DecodeError α}
    (hnext : ∀ record, SteadyMembers fun _ aside => next (record, aside)) :
    SteadyMembers fun origin entries => members fields blank .kept origin entries >>= next := by
  intro entries other hkeys hvalues hother origin value
  rw [members_bind_eq_ok_iff, members_bind_eq_ok_iff,
    fits_perm_normalizeEntry hfields hvalues hother origin]
  refine and_congr_right fun hfits => ?_
  rw [assemble_perm_normalizeEntry hfields hvalues hother hapart hfits]
  have hforeign : (foreign fields other).Perm
      ((foreign fields entries).map Json.normalizeEntry) :=
    foreign_map_normalizeEntry entries ▸ hother.filter _
  refine hnext _ (hkeys.sublist (List.filter_sublist.map _)) ?_ hforeign origin value
  exact fun entry hentry => hvalues entry (List.mem_filter.1 hentry).1

theorem members_only (hfields : ∀ field ∈ fields, Steady field.read)
    (hapart : fields.Pairwise Field.Apart) (blank : ρ) :
    SteadyMembers fun origin entries =>
      (members fields blank .skipped origin entries).map Prod.fst := by
  intro entries other _ hvalues hother origin value
  rw [members_fst_eq_ok_iff, members_fst_eq_ok_iff,
    fits_perm_normalizeEntry hfields hvalues hother origin]
  refine and_congr_right fun hfits => ?_
  rw [assemble_perm_normalizeEntry hfields hvalues hother hapart hfits]

/-- The members of a part are decoded from a tree in any case. -/
theorem part (hfields : ∀ field ∈ fields, Steady field.read)
    (hapart : fields.Pairwise Field.Apart) (blank : ρ) :
    SteadyMembers fun _ => part fields blank :=
  fun _ _ hkeys hvalues hother _ => members_only hfields hapart blank hkeys hvalues hother .tree

theorem bind {first : Origin → Reading.Members → Except DecodeError α}
    {next : α → Origin → Reading.Members → Except DecodeError β} (hfirst : SteadyMembers first)
    (hnext : ∀ found, SteadyMembers (next found)) :
    SteadyMembers fun origin entries =>
      first origin entries >>= fun found => next found origin entries := by
  intro entries other hkeys hvalues hother origin value
  simp only [bind_eq_ok_iff, hfirst hkeys hvalues hother, hnext _ hkeys hvalues hother]

theorem bind_pure {first : Origin → Reading.Members → Except DecodeError α}
    (hfirst : SteadyMembers first) (make : α → β) :
    SteadyMembers fun origin entries =>
      first origin entries >>= fun found => pure (make found) := by
  intro entries other hkeys hvalues hother origin value
  simp only [bind_eq_ok_iff, hfirst hkeys hvalues hother]

theorem object {decode : Origin → Reading.Members → Except DecodeError α}
    (h : SteadyMembers decode) {members : Json.Members} (hdoc : (Json.object members).Distinct)
    (origin : Origin) (value : α) :
    decode origin (Reading.ofMembers members) = .ok value ↔
      decode .tree (Reading.ofMembers (Json.normalizeMembers members)) = .ok value := by
  obtain ⟨hkeys, hvalues⟩ := (Json.distinct_object_iff members).1 hdoc
  exact h hkeys hvalues (Json.normalizeMembers_perm hkeys) origin value

end SteadyMembers

theorem positional_cons_eq_ok_iff {field : Field ρ} {origin : Origin} {record value : ρ}
    {first : Reading} {rest : List Reading} :
    positional origin (field :: fields) record (first :: rest) = .ok value ↔
      ∃ change, field.read origin first = .ok change ∧
        positional origin fields (change record) rest = .ok value := by
  rw [positional]
  cases field.read origin first <;> simp

/-- Items have one order only. -/
theorem steady_positional (hfields : ∀ field ∈ fields, Steady field.read) {docs : List Json}
    (hdocs : ∀ doc ∈ docs, doc.Distinct) (origin : Origin) (record value : ρ) :
    positional origin fields record (Reading.ofItems docs) = .ok value ↔
      positional .tree fields record (Reading.ofItems (Json.normalizeItems docs)) =
        .ok value := by
  induction fields generalizing docs record with
  | nil =>
      cases docs <;> exact Iff.rfl
  | cons field fields ih =>
      obtain ⟨hfield, hfields⟩ := List.forall_mem_cons.1 hfields
      cases docs with
      | nil =>
          have hrest : positional origin fields record [] = .ok value ↔
              positional .tree fields record [] = .ok value := ih hfields hdocs record
          cases hrequired : field.required <;>
            simp [Reading.ofItems, Json.normalizeItems, positional, hrequired, hrest]
      | cons doc rest =>
          obtain ⟨hdoc, hrest⟩ := List.forall_mem_cons.1 hdocs
          simp only [Reading.ofItems, Json.normalizeItems, positional_cons_eq_ok_iff, hfield hdoc,
            ih hfields hrest]

theorem steady_record (hfields : ∀ field ∈ fields, Steady field.read)
    (hapart : fields.Pairwise Field.Apart) (blank : ρ) : Steady (record fields blank) := by
  intro doc hdoc origin value
  cases doc with
  | object members =>
      exact (SteadyMembers.members_only hfields hapart blank).object hdoc origin value
  | array docs =>
      exact steady_positional hfields ((Json.distinct_array_iff docs).1 hdoc) origin blank value
  | null | bool _ | number _ | text _ =>
      exact Iff.rfl

end Records

/-! ## Whole documents -/

/-- A text that holds a document is decoded as this document. -/
theorem ofText_of_parseRaw? (decode : Decoder α) {chars : List Char} {doc : Json}
    (h : Json.parseRaw? chars = some doc) :
    ofText decode chars = decode .text (Reading.ofJson doc) := by
  obtain ⟨hended, hroot⟩ := Json.read_of_parseRaw? h
  rw [ofText]
  simp only [hended, hroot, if_true]
  cases decode .text (Reading.ofJson doc) <;> rfl

/-- It makes no difference whether a text is decoded as it stands or parsed first. -/
theorem Steady.ofText_iff {decode : Decoder α} (h : Steady decode) {chars : List Char} {doc : Json}
    (hparse : Json.parseRaw? chars = some doc) (hdoc : doc.Distinct) {value : α} :
    ofText decode chars = .ok value ↔ ofJson decode doc = .ok value := by
  rw [ofText_of_parseRaw? decode hparse, ofJson]
  exact h hdoc .text value

end Decode

/-! ## Layer forms -/

open Decode (Steady SteadyMembers)
open Decode.Field (steady_needed steady_given steady_nullable)

namespace Camera

theorem steady_fields : ∀ field ∈ fields, Steady field.read := by
  simp only [fields, List.forall_mem_cons, List.not_mem_nil, IsEmpty.forall_iff, implies_true,
    and_true]
  and_intros <;> exact steady_nullable Decode.steady_float _ _

end Camera

theorem HoverRow.steady_decode : Steady decode := by
  refine Decode.steady_record ?_ fields_apart default
  simp only [fields, List.forall_mem_cons, List.not_mem_nil, IsEmpty.forall_iff, implies_true,
    and_true]
  exact ⟨steady_nullable Decode.steady_text _ _,
    steady_nullable (Decode.steady_variant HoverField.ofCode?) _ _⟩

theorem Breakpoint.steady_decode : Steady decode := by
  refine Decode.steady_record ?_ fields_apart default
  simp only [fields, List.forall_mem_cons, List.not_mem_nil, IsEmpty.forall_iff, implies_true,
    and_true]
  exact ⟨steady_needed Decode.steady_float _ _, steady_needed Decode.steady_float _ _⟩

namespace StyleForm

theorem steady_propertyMap : Steady propertyMap := by
  intro doc _ origin value
  simp only [propertyMap, Reading.toJson?_ofJson]
  cases doc with
  | object members =>
      simp only [Json.normalize, Json.normalizeMembers_normalizeMembers]
  | null | text _ =>
      exact Iff.rfl
  | bool _ | number _ | array _ =>
      simp [Json.normalize]

theorem steady_fields : ∀ field ∈ fields, Steady field.read := by
  have htext (key : String) (set : String → StyleForm → StyleForm) :
      Steady (Decode.Field.given key Decode.text set).read := steady_given Decode.steady_text key set
  have hflag (key : String) (set : Bool → StyleForm → StyleForm) :
      Steady (Decode.Field.given key Decode.flag set).read := steady_given Decode.steady_flag key set
  have hfloat (key : String) (set : Binary64 → StyleForm → StyleForm) :
      Steady (Decode.Field.given key Decode.float set).read := steady_given Decode.steady_float key set
  have hpoints (key : String) (set : List Breakpoint → StyleForm → StyleForm) :
      Steady (Decode.Field.given key points set).read :=
    steady_given Breakpoint.steady_decode.list key set
  have hmap (key : String) (set : Json.Members → StyleForm → StyleForm) :
      Steady (Decode.Field.given key propertyMap set).read := steady_given steady_propertyMap key set
  simp only [fields, List.forall_mem_cons, List.not_mem_nil, IsEmpty.forall_iff, implies_true,
    htext, hflag, hfloat, hpoints, hmap, and_true]

end StyleForm

namespace LayerForm

theorem steady_ownFields : ∀ field ∈ ownFields, Steady field.read := by
  have hgroup (key : String) (set : Option GroupId → LayerForm → LayerForm) :
      Steady (Decode.Field.given key (Decode.optional Id.decode) set).read :=
    steady_given Decode.steady_id.optional key set
  have htype (key : String) (set : VisualType → LayerForm → LayerForm) :
      Steady (Decode.Field.needed key VisualType.decode set).read :=
    steady_needed (Decode.steady_variant VisualType.ofName?) key set
  have htext (key : String) (set : String → LayerForm → LayerForm) :
      Steady (Decode.Field.nullable key Decode.text set).read :=
    steady_nullable Decode.steady_text key set
  have hflag (key : String) (set : Bool → LayerForm → LayerForm) :
      Steady (Decode.Field.nullable key Decode.flag set).read :=
    steady_nullable Decode.steady_flag key set
  have hrows (key : String) (set : List HoverRow → LayerForm → LayerForm) :
      Steady (Decode.Field.nullable key (Decode.list HoverRow.decode) set).read :=
    steady_nullable HoverRow.steady_decode.list key set
  simp only [ownFields, List.forall_mem_cons, List.not_mem_nil, IsEmpty.forall_iff, implies_true,
    hgroup, htype, htext, hflag, hrows, and_true]

theorem steadyMembers : SteadyMembers decodeMembers :=
  .members_bind steady_ownFields ownFields_apart fun form =>
    (SteadyMembers.part Camera.steady_fields Camera.fields_apart default).bind fun camera =>
      (SteadyMembers.part StyleForm.steady_fields StyleForm.fields_apart
        StyleForm.standard).bind_pure fun style => { form with camera := camera, style := style }

theorem steady_decode : Steady decode := by
  intro doc hdoc origin value
  cases doc with
  | object members =>
      exact steadyMembers.object hdoc origin value
  | null | bool _ | number _ | text _ | array _ =>
      exact Iff.rfl

end LayerForm

end MapCatalog
