import MapCatalog.Proofs.Record.Readers
import MapCatalog.Proofs.Record.RoundTrip

/-! # Encodings with further members

A document is widened by members that its records do not know, wherever they stand in it.  Since a record is decoded
from the members that it reads, it is still decoded to the record that was encoded.
-/

namespace MapCatalog

open Decode (Reader ReadsOnly)

inductive Shape where
  /-- There are none, here or below. -/
  | value
  | list (item : Shape)
  /-- A record, in which the keys of `reserved` have a meaning beside those that are written. -/
  | record (reserved : List String) (below : String → Shape)

namespace Shape

def flat : Shape :=
  .record [] fun _ => .value

/-- A document may have members that another has not, in its records and under unknown keys. -/
def Widens : Shape → Json → Json → Prop
  | .value, doc, wider => wider.normalize = doc.normalize
  | .list item, doc, wider =>
      ∃ items others, doc = .array items ∧ wider = .array others ∧
        List.Forall₂ (fun first second => item.Widens first second) items others
  | .record reserved below, doc, wider =>
      ∃ members kept added entries, doc = .object members ∧ wider = .object entries ∧
        List.Forall₂ (fun member other => other.1 = member.1 ∧
          (below member.1).Widens member.2 other.2) members kept ∧
        entries.Perm (kept ++ added) ∧
        ∀ entry ∈ added, entry.1 ∉ Json.keys members ∧ entry.1 ∉ reserved

theorem widens_value_self (doc : Json) : Shape.value.Widens doc doc :=
  rfl

theorem widens_list_self {item : Shape} {items : List Json}
    (h : ∀ doc ∈ items, item.Widens doc doc) : (Shape.list item).Widens (.array items) (.array items) :=
  ⟨items, items, rfl, rfl, List.forall₂_same.2 h⟩

/-- A record is widened by further members, whatever the order. -/
theorem widens_record_added {reserved : List String} {below : String → Shape}
    {members added entries : Json.Members}
    (h : ∀ entry ∈ members, (below entry.1).Widens entry.2 entry.2)
    (hentries : entries.Perm (members ++ added))
    (hadded : ∀ entry ∈ added, entry.1 ∉ Json.keys members ∧ entry.1 ∉ reserved) :
    (Shape.record reserved below).Widens (.object members) (.object entries) :=
  ⟨members, members, added, entries, rfl, rfl, List.forall₂_same.2 fun entry hentry =>
    ⟨rfl, h entry hentry⟩, hentries, hadded⟩

theorem widens_record_self {reserved : List String} {below : String → Shape}
    {members : Json.Members} (h : ∀ entry ∈ members, (below entry.1).Widens entry.2 entry.2) :
    (Shape.record reserved below).Widens (.object members) (.object members) :=
  widens_record_added h (List.Perm.of_eq (List.append_nil members).symm) fun _ h =>
    absurd h List.not_mem_nil

theorem keys_of_widens (below : String → Shape) {members kept : Json.Members}
    (h : List.Forall₂ (fun member other => other.1 = member.1 ∧
      (below member.1).Widens member.2 other.2) members kept) : Json.keys kept = Json.keys members := by
  induction h with
  | nil => rfl
  | cons hentry _ ih => exact congrArg₂ List.cons hentry.1 ih

theorem exists_of_widens (below : String → Shape) {members kept : Json.Members}
    (h : List.Forall₂ (fun member other => other.1 = member.1 ∧
      (below member.1).Widens member.2 other.2) members kept) {key : String} {doc : Json}
    (hmember : (key, doc) ∈ members) :
    ∃ other, (key, other) ∈ kept ∧ (below key).Widens doc other := by
  induction h with
  | nil => cases hmember
  | @cons member first _ _ hentry _ ih =>
      rcases List.mem_cons.1 hmember with rfl | hmember
      · exact ⟨first.2, List.mem_cons.2 (.inl (Prod.ext hentry.1.symm rfl)), hentry.2⟩
      · obtain ⟨other, hother, hwidens⟩ := ih hmember
        exact ⟨other, List.mem_cons_of_mem _ hother, hwidens⟩

/-- The normal form of a wider document is wider too, as long as its own keys are distinct. -/
theorem Widens.normalize {shape : Shape} {doc wider : Json} (h : shape.Widens doc wider)
    (hdistinct : doc.Distinct) : shape.Widens doc wider.normalize := by
  induction shape generalizing doc wider with
  | value =>
      exact (Json.normalize_normalize wider).trans h
  | list item ih =>
      obtain ⟨items, others, rfl, rfl, hitems⟩ := h
      rw [Json.distinct_array_iff] at hdistinct
      refine ⟨items, _, rfl, rfl, ?_⟩
      rw [Json.normalizeItems_eq_map, List.forall₂_map_right_iff]
      exact (List.forall₂_and_left _ _ |>.2 ⟨hdistinct, hitems⟩).imp fun first second h => ih h.2 h.1
  | record reserved below ih =>
      obtain ⟨members, kept, added, entries, rfl, rfl, hkept, hentries, hadded⟩ := h
      obtain ⟨hdistinct, hvalues⟩ := (Json.distinct_object_iff members).1 hdistinct
      have hkeys := keys_of_widens below hkept
      obtain ⟨others, hperm, hothers⟩ := Json.exists_perm_normalizeMembers (hkeys ▸ hdistinct)
        hentries fun entry hentry => hkeys ▸ (hadded entry hentry).1
      refine ⟨members, _, others, _, rfl, rfl, ?_, hperm, fun entry hentry => ?_⟩
      · rw [List.forall₂_map_right_iff]
        exact (List.forall₂_and_left _ _ |>.2 ⟨hvalues, hkept⟩).imp fun member other h =>
          ⟨h.2.1, ih _ h.2.2 h.1⟩
      · obtain ⟨value, hvalue⟩ := Json.exists_of_mem_keys (hothers entry hentry)
        exact hadded (entry.1, value) hvalue

/-- The readers of a record do not tell a member from a wider one. -/
def Safe (shape : Shape) (readers : List Reader) (entry : String × Json) : Prop :=
  ∀ wider, shape.Widens entry.2 wider → ∀ reader ∈ readers, reader.key = entry.1 →
    reader.alike entry.2 wider

variable {reserved : List String} {below : String → Shape} {readers : List Reader}
  {members entries : Json.Members}

/-- What a record reads of its wider encoding is what was encoded. -/
theorem matches_of_widens (hsafe : ∀ entry ∈ members, (below entry.1).Safe readers entry)
    (hreaders : ∀ reader ∈ readers, reader.key ∈ Json.keys members ∨ reader.key ∈ reserved)
    (h : (Shape.record reserved below).Widens (.object members) (.object entries)) :
    Reader.Matches readers members entries := by
  obtain ⟨_, kept, added, _, heq, heq', hkept, hentries, hadded⟩ := h
  cases heq
  cases heq'
  refine ⟨kept, added, ?_, hentries, fun entry hentry reader hreader hkey => ?_⟩
  · exact (List.forall₂_and_left _ _ |>.2 ⟨hsafe, hkept⟩).imp fun member other h =>
      ⟨h.2.1, h.1 _ h.2.2⟩
  · rcases hreaders reader hreader with hmember | hreserved
    · exact (hadded entry hentry).1 (hkey ▸ hmember)
    · exact (hadded entry hentry).2 (hkey ▸ hreserved)

end Shape

/-! ## Encodings without loss -/

/--
A value is encoded without loss: no key is repeated in the encoding, and the value is decoded from it,
also where members that the records do not know were added to it.
-/
structure Decode.Lossless {α : Type} (decode : Decoder α) (toJson : α → Json) (shape : Shape)
    (value : α) : Prop where
  distinct : (toJson value).Distinct
  decoded : Decode.ofJson decode (toJson value) = .ok value
  /-- The shape is that of the encoding. -/
  shaped : shape.Widens (toJson value) (toJson value)
  widened : ∀ wider, shape.Widens (toJson value) wider → Decode.ofJson decode wider = .ok value
  /-- The members may as well be gone through as they stand in a text. -/
  read : ∀ wider, shape.Widens (toJson value) wider →
    ∀ origin, decode origin (Reading.ofJson wider) = .ok value

/-- Reading each wider document is enough, since its normal form is a wider document as well. -/
theorem Decode.Lossless.of_read {α : Type} {decode : Decoder α} {toJson : α → Json} {shape : Shape}
    {value : α} (hdistinct : (toJson value).Distinct)
    (hshaped : shape.Widens (toJson value) (toJson value))
    (hread : ∀ wider, shape.Widens (toJson value) wider →
      ∀ origin, decode origin (Reading.ofJson wider) = .ok value) :
    Lossless decode toJson shape value where
  distinct := hdistinct
  decoded := hread _ (hshaped.normalize hdistinct) .tree
  shaped := hshaped
  widened _ hwider := hread _ (hwider.normalize hdistinct) .tree
  read := hread

/-- A member of an encoded record has the shape below its key, and is safe for the readers. -/
structure Shape.Sound (shape : Shape) (readers : Decode.Origin → List Reader)
    (entry : String × Json) : Prop where
  distinct : entry.2.Distinct
  shaped : shape.Widens entry.2 entry.2
  safe (origin : Decode.Origin) : shape.Safe (readers origin) entry

theorem Shape.sound_of_isPlain {readers : Decode.Origin → List Reader} {key : String} {doc : Json}
    (h : doc.isPlain = true) : Shape.value.Sound readers (key, doc) where
  distinct := Json.distinct_of_isPlain h
  shaped := widens_value_self doc
  safe origin := by
    intro wider hwider reader _ _
    rw [Json.eq_of_normalize_eq h hwider]
    exact reader.refl doc

section

variable (readers : Decode.Origin → List Reader) (key : String)

theorem Shape.sound_text (value : String) : Shape.value.Sound readers (key, .text value) :=
  sound_of_isPlain rfl

theorem Shape.sound_bool (flag : Bool) : Shape.value.Sound readers (key, .bool flag) :=
  sound_of_isPlain rfl

theorem Shape.sound_ofNat (n : Nat) : Shape.value.Sound readers (key, .ofNat n) :=
  sound_of_isPlain rfl

theorem Shape.sound_ofFloat (x : Binary64) : Shape.value.Sound readers (key, .ofFloat x) :=
  sound_of_isPlain (Json.isPlain_ofFloat x)

end

/-- A member that is itself encoded without loss is sound where its field decodes it. -/
theorem Shape.Sound.of_lossless {α : Type} {decode : Decoder α} {toJson : α → Json} {shape : Shape}
    {value : α} {readers : Decode.Origin → List Reader} {key : String}
    (h : Decode.Lossless decode toJson shape value)
    (halike : ∀ wider, (∀ origin, decode origin (Reading.ofJson (toJson value)) = .ok value) →
      (∀ origin, decode origin (Reading.ofJson wider) = .ok value) →
      ∀ origin, ∀ reader ∈ readers origin, reader.key = key → reader.alike (toJson value) wider) :
    shape.Sound readers (key, toJson value) where
  distinct := h.distinct
  shaped := h.shaped
  safe origin wider hwider := halike wider (h.read _ h.shaped) (h.read wider hwider) origin

/-- A member of a part is sound in a record that does not know its key. -/
theorem Shape.Sound.behind {shape : Shape} {readers : Decode.Origin → List Reader}
    {entry : String × Json} (h : shape.Sound readers entry) {before : Decode.Origin → List Reader}
    (hbefore : ∀ origin, ∀ reader ∈ before origin, reader.key ≠ entry.1) :
    shape.Sound (fun origin => before origin ++ readers .tree) entry where
  distinct := h.distinct
  shaped := h.shaped
  safe origin wider hwider reader hreader hkey := by
    rcases List.mem_append.1 hreader with hreader | hreader
    · exact absurd hkey (hbefore origin reader hreader)
    · exact h.safe .tree wider hwider reader hreader hkey

namespace Decode.Lossless

variable {α : Type} {decode : Decoder α} {toJson : α → Json} {shape : Shape} {value : α}

theorem items_of_forall₂ {values : List α} (h : ∀ value ∈ values, Lossless decode toJson shape value)
    {others : List Json}
    (hothers : List.Forall₂ (fun first second => shape.Widens first second) (values.map toJson) others)
    (origin : Decode.Origin) :
    Decode.items decode origin (Reading.ofItems others) = .ok values := by
  rw [List.forall₂_map_left_iff] at hothers
  induction hothers with
  | nil =>
      rfl
  | cons hwider _ ih =>
      obtain ⟨hvalue, hrest⟩ := List.forall_mem_cons.1 h
      rw [Reading.ofItems, Decode.items, hvalue.read _ hwider origin]
      simp only [ih hrest]

theorem list {values : List α} (h : ∀ value ∈ values, Lossless decode toJson shape value) :
    Lossless (Decode.list decode) (fun values => .array (values.map toJson)) (.list shape) values := by
  refine .of_read ?_ ?_ ?_
  · rw [Json.distinct_array_iff, List.forall_mem_map]
    exact fun value hvalue => (h value hvalue).distinct
  · exact Shape.widens_list_self (List.forall_mem_map.2 fun value hvalue => (h value hvalue).shaped)
  · rintro wider ⟨items, others, heq, rfl, hothers⟩ origin
    cases heq
    exact items_of_forall₂ h hothers origin

/-- A list of values that are encoded without loss is sound where its field decodes it. -/
theorem sound_list {values : List α} {readers : Decode.Origin → List Reader} {key : String}
    (h : ∀ value ∈ values, Lossless decode toJson shape value)
    (halike : ∀ wider,
      (∀ origin, Decode.list decode origin (Reading.ofJson (.array (values.map toJson))) =
        .ok values) →
      (∀ origin, Decode.list decode origin (Reading.ofJson wider) = .ok values) →
      ∀ origin, ∀ reader ∈ readers origin, reader.key = key →
        reader.alike (.array (values.map toJson)) wider) :
    (Shape.list shape).Sound readers (key, .array (values.map toJson)) := by
  have hlist := list h
  exact
    { distinct := hlist.distinct
      shaped := hlist.shaped
      safe := fun origin wider hwider =>
        halike wider (hlist.read _ hlist.shaped) (hlist.read wider hwider) origin }

/-- A record is encoded without loss when it is decoded from its members and each of them is sound. -/
theorem record {decodeMembers : Decode.Origin → Reading.Members → Except DecodeError α}
    {readers : Decode.Origin → List Reader} {reserved : List String} {below : String → Shape}
    {members : Json.Members}
    (hdecode : ∀ origin entries, decode origin (.object entries) = decodeMembers origin entries)
    (hencode : toJson value = .object members)
    (hreads : ∀ origin, ReadsOnly (readers origin) (decodeMembers origin))
    (hreaders : ∀ origin, ∀ reader ∈ readers origin,
      reader.key ∈ Json.keys members ∨ reader.key ∈ reserved)
    (hvalue : ∀ origin, decodeMembers origin (Reading.ofMembers members) = .ok value)
    (hkeys : (Json.keys members).Nodup)
    (hsound : ∀ entry ∈ members, (below entry.1).Sound readers entry) :
    Lossless decode toJson (.record reserved below) value := by
  refine .of_read ?_ ?_ fun wider hwider origin => ?_
  · rw [hencode, Json.distinct_object_iff]
    exact ⟨hkeys, fun entry hentry => (hsound entry hentry).distinct⟩
  · rw [hencode]
    exact Shape.widens_record_self fun entry hentry => (hsound entry hentry).shaped
  · obtain ⟨_, kept, added, entries, -, rfl, -⟩ := id hwider
    rw [hencode] at hwider
    have hmatches := Shape.matches_of_widens
      (fun entry hentry => (hsound entry hentry).safe origin) (hreaders origin) hwider
    rw [Reading.ofJson, hdecode]
    exact (hreads origin hmatches value).2 (hvalue origin)

end Decode.Lossless

end MapCatalog
