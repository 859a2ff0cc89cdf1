import Mathlib.Data.List.Perm.Basic
import Mathlib.Data.List.Forall2
import Mathlib.Data.List.Pairwise
import MapCatalog.Proofs.Json.Normal
import MapCatalog.Record.Decode

/-!
# Members in any order

Whether members make up a record is a matter of the members that the record knows: no two of them share
a key, each can be read, and no required one is missing.  The record is the blank one with the change of
each of them.  Since the fields of a record change different parts of it, the order of the members does
not count, and neither do members that the record does not know, also where it is made of parts.
-/

namespace MapCatalog

theorem Reading.wellFormed_ofJson (doc : Json) : (ofJson doc).wellFormed = true := by
  induction doc using Json.induction with
  | null => rfl
  | bool flag => rfl
  | number value => rfl
  | text value => rfl
  | array items ih =>
      rw [ofJson, wellFormed]
      induction items with
      | nil =>
          rfl
      | cons item rest ihrest =>
          obtain ⟨hitem, hrest⟩ := List.forall_mem_cons.1 ih
          rw [ofItems, wellFormedItems, hitem, ihrest hrest]
          rfl
  | object members ih =>
      rw [ofJson, wellFormed]
      induction members with
      | nil =>
          rfl
      | cons entry rest ihrest =>
          obtain ⟨hentry, hrest⟩ := List.forall_mem_cons.1 ih
          rw [ofMembers, wellFormedMembers, hentry, ihrest hrest]
          rfl

theorem Reading.ofMembers_append (first second : Json.Members) :
    ofMembers (first ++ second) = ofMembers first ++ ofMembers second := by
  simp only [ofMembers_eq_map, List.map_append]

namespace Decode

variable {ρ α β : Type}

/-- A document is in normal form before it is decoded. -/
theorem ofJson_normalize (decode : Decoder α) (doc : Json) :
    ofJson decode doc.normalize = ofJson decode doc := by
  rw [ofJson, ofJson, Json.normalize_normalize]

/-! ## Results -/

theorem map_eq_ok {ε : Type} {f : α → β} {result : Except ε α} {value : β}
    (h : result.map f = .ok value) : ∃ found, result = .ok found ∧ value = f found := by
  cases result with
  | error e => cases h
  | ok found =>
      cases h
      exact ⟨found, rfl, rfl⟩

theorem map_eq_ok_iff {ε : Type} {f : α → β} {result : Except ε α} {value : β} :
    result.map f = .ok value ↔ ∃ found, result = .ok found ∧ value = f found := by
  constructor
  · exact map_eq_ok
  · rintro ⟨found, rfl, rfl⟩
    rfl

theorem exists_error_iff {ε : Type} {result : Except ε α} :
    (∃ e, result = .error e) ↔ ∀ value, result ≠ .ok value := by
  cases result <;> simp

theorem bind_eq_ok_iff {ε : Type} {first : Except ε α} {next : α → Except ε β} {value : β} :
    first >>= next = .ok value ↔ ∃ found, first = .ok found ∧ next found = .ok value := by
  cases first with
  | error e => simp [bind, Except.bind]
  | ok found => simp [bind, Except.bind]

theorem bind_eq_ok {ε : Type} {first : Except ε α} {next : α → Except ε β} {value : β}
    (h : first >>= next = .ok value) : ∃ found, first = .ok found ∧ next found = .ok value :=
  bind_eq_ok_iff.1 h

/-! ## Known and unknown members -/

section Fields

variable (fields : List (Field ρ))

def knows (entry : String × Json) : Bool :=
  (field? fields entry.1).isSome

/-- The members that a record knows. -/
def known (entries : Json.Members) : Json.Members :=
  entries.filter (knows fields)

/-- The members that a record does not know. -/
def foreign (entries : Json.Members) : Json.Members :=
  entries.filter fun entry => !knows fields entry

/-- What a record sets aside of its members. -/
def Others.collect (others : Others) (entries : Json.Members) : Reading.Members :=
  match others with
  | .skipped => []
  | .kept => Reading.ofMembers (foreign fields entries)

/-- The change that a member makes to a record, where it can be read. -/
def change (origin : Origin) (entry : String × Json) : ρ → ρ :=
  match field? fields entry.1 with
  | none => id
  | some field =>
      match field.read origin (Reading.ofJson entry.2) with
      | .error _ => id
      | .ok change => change

/-- A record with the changes of members, one after the other. -/
def assemble (origin : Origin) (entries : Json.Members) (record : ρ) : ρ :=
  (known fields entries).foldl (fun record entry => change fields origin entry record) record

/-- A member can be read by the field of its key. -/
def Reads (origin : Origin) (entry : String × Json) : Prop :=
  ∀ field, field? fields entry.1 = some field →
    ∃ change, field.read origin (Reading.ofJson entry.2) = .ok change

/-- Members can be gone through when those under the keys in `seen` were met before. -/
structure Passes (origin : Origin) (seen : List String) (entries : Json.Members) : Prop where
  distinct : (Json.keys (known fields entries)).Nodup
  fresh : ∀ key ∈ Json.keys (known fields entries), key ∉ seen
  reads : ∀ entry ∈ known fields entries, Reads fields origin entry

/-- Members make up a record: they can be gone through, and no required one is missing. -/
structure Fits (origin : Origin) (entries : Json.Members) : Prop extends
    Passes fields origin [] entries where
  complete : ∀ field ∈ fields, field.required = true →
    field.key ∈ Json.keys (known fields entries)

end Fields

variable {fields : List (Field ρ)} {origin : Origin}

theorem field?_eq_some {key : String} {field : Field ρ} (h : field? fields key = some field) :
    field ∈ fields ∧ field.key = key :=
  ⟨List.mem_of_find?_eq_some h, by simpa using List.find?_some h⟩

theorem known_cons_of_some {entry : String × Json} {field : Field ρ}
    (h : field? fields entry.1 = some field) (entries : Json.Members) :
    known fields (entry :: entries) = entry :: known fields entries :=
  List.filter_cons_of_pos (by simp [knows, h])

theorem known_cons_of_none {entry : String × Json} (h : field? fields entry.1 = none)
    (entries : Json.Members) : known fields (entry :: entries) = known fields entries :=
  List.filter_cons_of_neg (by simp [knows, h])

theorem foreign_cons_of_some {entry : String × Json} {field : Field ρ}
    (h : field? fields entry.1 = some field) (entries : Json.Members) :
    foreign fields (entry :: entries) = foreign fields entries :=
  List.filter_cons_of_neg (by simp [knows, h])

theorem foreign_cons_of_none {entry : String × Json} (h : field? fields entry.1 = none)
    (entries : Json.Members) :
    foreign fields (entry :: entries) = entry :: foreign fields entries :=
  List.filter_cons_of_pos (by simp [knows, h])

theorem known_append (entries added : Json.Members) :
    known fields (entries ++ added) = known fields entries ++ known fields added :=
  List.filter_append entries added

theorem foreign_append (entries added : Json.Members) :
    foreign fields (entries ++ added) = foreign fields entries ++ foreign fields added :=
  List.filter_append entries added

theorem others_allows_ofJson (others : Others) (doc : Json) :
    others.allows (Reading.ofJson doc) = true := by
  cases others with
  | skipped => exact Reading.wellFormed_ofJson doc
  | kept => simp [Others.allows, Reading.toJson?_ofJson]

theorem change_of_read {entry : String × Json} {field : Field ρ} {made : ρ → ρ}
    (hfield : field? fields entry.1 = some field)
    (hread : field.read origin (Reading.ofJson entry.2) = .ok made) :
    change fields origin entry = made := by
  rw [change, hfield]
  simp only [hread]

/-! ## What going through members comes to -/

theorem passes_nil (seen : List String) : Passes fields origin seen [] :=
  ⟨List.nodup_nil, fun _ h => absurd h List.not_mem_nil, fun _ h => absurd h List.not_mem_nil⟩

theorem passes_cons_of_none {seen : List String} {entry : String × Json}
    (h : field? fields entry.1 = none) (entries : Json.Members) :
    Passes fields origin seen (entry :: entries) ↔ Passes fields origin seen entries := by
  constructor <;> intro hpasses
  · obtain ⟨hdistinct, hfresh, hreads⟩ := hpasses
    rw [known_cons_of_none h] at hdistinct hfresh hreads
    exact ⟨hdistinct, hfresh, hreads⟩
  · obtain ⟨hdistinct, hfresh, hreads⟩ := hpasses
    rw [← known_cons_of_none h entries] at hdistinct hfresh hreads
    exact ⟨hdistinct, hfresh, hreads⟩

theorem passes_cons_of_some {seen : List String} {entry : String × Json} {field : Field ρ}
    (h : field? fields entry.1 = some field) (entries : Json.Members) :
    Passes fields origin seen (entry :: entries) ↔
      entry.1 ∉ seen ∧ Reads fields origin entry ∧
        Passes fields origin (entry.1 :: seen) entries := by
  have hkeys : Json.keys (known fields (entry :: entries)) =
      entry.1 :: Json.keys (known fields entries) := by
    rw [known_cons_of_some h]
    rfl
  constructor
  · rintro ⟨hdistinct, hfresh, hreads⟩
    rw [hkeys] at hdistinct hfresh
    rw [known_cons_of_some h] at hreads
    obtain ⟨hnew, hdistinct⟩ := List.nodup_cons.1 hdistinct
    obtain ⟨hentry, hfresh⟩ := List.forall_mem_cons.1 hfresh
    obtain ⟨hread, hreads⟩ := List.forall_mem_cons.1 hreads
    refine ⟨hentry, hread, hdistinct, fun key hkey => ?_, hreads⟩
    rw [List.mem_cons, not_or]
    exact ⟨ne_of_mem_of_not_mem hkey hnew, hfresh key hkey⟩
  · rintro ⟨hentry, hread, hdistinct, hfresh, hreads⟩
    have hnew : entry.1 ∉ Json.keys (known fields entries) :=
      fun hkey => hfresh entry.1 hkey List.mem_cons_self
    refine ⟨hkeys ▸ List.nodup_cons.2 ⟨hnew, hdistinct⟩, hkeys ▸ ?_,
      known_cons_of_some h entries ▸ List.forall_mem_cons.2 ⟨hread, hreads⟩⟩
    exact List.forall_mem_cons.2
      ⟨hentry, fun key hkey hseen => hfresh key hkey (List.mem_cons_of_mem _ hseen)⟩

/-- Where a record stands after members that can be gone through. -/
theorem visit_of_passes {others : Others} {seen : List String} {record : ρ}
    {entries : Json.Members} (h : Passes fields origin seen entries) :
    visit fields others origin seen record (Reading.ofMembers entries) =
      .ok ⟨assemble fields origin entries record,
        (Json.keys (known fields entries)).reverse ++ seen, others.collect fields entries⟩ := by
  induction entries generalizing seen record with
  | nil =>
      cases others <;> rfl
  | cons entry rest ih =>
      rw [Reading.ofMembers, visit]
      cases hfield : field? fields entry.1 with
      | none =>
          simp only [others_allows_ofJson, if_true, ih ((passes_cons_of_none hfield rest).1 h),
            assemble, known_cons_of_none hfield]
          cases others with
          | skipped => rfl
          | kept => rw [Others.collect, Others.collect, foreign_cons_of_none hfield]; rfl
      | some field =>
          obtain ⟨hnew, hread, hpasses⟩ := (passes_cons_of_some hfield rest).1 h
          obtain ⟨made, hmade⟩ := hread field hfield
          have hcollect : others.collect fields (entry :: rest) = others.collect fields rest := by
            cases others with
            | skipped => rfl
            | kept => rw [Others.collect, foreign_cons_of_some hfield]; rfl
          have hseen : seen.contains entry.1 = false := by simpa using hnew
          simp only [hseen, hmade, ih hpasses, hcollect, assemble, known_cons_of_some hfield,
            List.foldl_cons, change_of_read hfield hmade]
          simp [Json.keys]

theorem passes_of_visit {others : Others} {seen : List String} {record : ρ}
    {entries : Json.Members} {visited : Visited ρ}
    (h : visit fields others origin seen record (Reading.ofMembers entries) = .ok visited) :
    Passes fields origin seen entries := by
  induction entries generalizing seen record visited with
  | nil =>
      exact passes_nil seen
  | cons entry rest ih =>
      rw [Reading.ofMembers, visit] at h
      cases hfield : field? fields entry.1 with
      | none =>
          simp only [hfield, others_allows_ofJson, if_true] at h
          cases hvisit : visit fields others origin seen record (Reading.ofMembers rest) with
          | error e =>
              rw [hvisit] at h
              cases h
          | ok found =>
              exact (passes_cons_of_none hfield rest).2 (ih hvisit)
      | some field =>
          simp only [hfield] at h
          split at h
          case isTrue => cases h
          case isFalse hseen =>
            split at h
            case h_1 => cases h
            case h_2 made hmade =>
              refine (passes_cons_of_some hfield rest).2 ⟨by simpa using hseen, ?_, ih h⟩
              intro other hother
              cases hfield.symm.trans hother
              exact ⟨made, hmade⟩

theorem firstMissing?_eq_none_iff {seen : List String} :
    firstMissing? fields seen = none ↔
      ∀ field ∈ fields, field.required = true → field.key ∈ seen := by
  simp [firstMissing?]

/-- Members are decoded when they make up a record, and to this record. -/
theorem members_eq_ok_iff {others : Others} {blank record : ρ} {entries : Json.Members}
    {aside : Reading.Members} :
    members fields blank others origin (Reading.ofMembers entries) = .ok (record, aside) ↔
      Fits fields origin entries ∧ record = assemble fields origin entries blank ∧
        aside = others.collect fields entries := by
  constructor
  · intro h
    rw [members] at h
    cases hvisit : visit fields others origin [] blank (Reading.ofMembers entries) with
    | error e =>
        rw [hvisit] at h
        cases h
    | ok visited =>
        have hpasses := passes_of_visit hvisit
        obtain rfl := Except.ok.inj (hvisit.symm.trans (visit_of_passes hpasses))
        rw [hvisit] at h
        simp only at h
        split at h
        case h_1 => cases h
        case h_2 hmissing =>
          cases h
          rw [firstMissing?_eq_none_iff] at hmissing
          exact ⟨⟨hpasses, by simpa using hmissing⟩, rfl, rfl⟩
  · rintro ⟨⟨hpasses, hcomplete⟩, rfl, rfl⟩
    have hmissing : firstMissing? fields ((Json.keys (known fields entries)).reverse ++ []) =
        none := firstMissing?_eq_none_iff.2 (by simpa using hcomplete)
    rw [members, visit_of_passes hpasses]
    simp only [hmissing]

/-- What is made of a record and its parts is made of the members it knows and of those it does not. -/
theorem members_bind_eq_ok_iff {blank : ρ} {next : ρ × Reading.Members → Except DecodeError α}
    {entries : Json.Members} {value : α} :
    members fields blank .kept origin (Reading.ofMembers entries) >>= next = .ok value ↔
      Fits fields origin entries ∧ next (assemble fields origin entries blank,
        Reading.ofMembers (foreign fields entries)) = .ok value := by
  simp only [bind_eq_ok_iff, Prod.exists, members_eq_ok_iff, Others.collect]
  constructor
  · rintro ⟨_, _, ⟨hfits, rfl, rfl⟩, hvalue⟩
    exact ⟨hfits, hvalue⟩
  · rintro ⟨hfits, hvalue⟩
    exact ⟨_, _, ⟨hfits, rfl, rfl⟩, hvalue⟩

theorem members_fst_eq_ok_iff {blank record : ρ} {entries : Json.Members} :
    (members fields blank .skipped origin (Reading.ofMembers entries)).map Prod.fst =
        .ok record ↔
      Fits fields origin entries ∧ assemble fields origin entries blank = record := by
  constructor
  · intro h
    obtain ⟨⟨record, aside⟩, hmembers, rfl⟩ := map_eq_ok h
    obtain ⟨hfits, rfl, -⟩ := members_eq_ok_iff.1 hmembers
    exact ⟨hfits, rfl⟩
  · rintro ⟨hfits, rfl⟩
    rw [members_eq_ok_iff.2 ⟨hfits, rfl, rfl⟩]
    rfl

/-- Whether members make up a record is a matter of their keys and of whether they can be read. -/
theorem fits_congr {other : Origin} {entries wider : Json.Members}
    (hkeys : Json.keys (known fields wider) = Json.keys (known fields entries))
    (hreads : (∀ entry ∈ known fields wider, Reads fields other entry) ↔
      ∀ entry ∈ known fields entries, Reads fields origin entry) :
    Fits fields other wider ↔ Fits fields origin entries := by
  constructor
  · intro hfits
    exact
      { distinct := hkeys ▸ hfits.distinct
        fresh := fun _ _ => List.not_mem_nil
        reads := hreads.1 hfits.reads
        complete := hkeys ▸ hfits.complete }
  · intro hfits
    exact
      { distinct := hkeys.symm ▸ hfits.distinct
        fresh := fun _ _ => List.not_mem_nil
        reads := hreads.2 hfits.reads
        complete := hkeys.symm ▸ hfits.complete }

/-- Unknown members behind the others are set aside behind the others. -/
theorem members_append_foreign {blank record : ρ} {entries added : Json.Members}
    {aside : Reading.Members} (hadded : ∀ entry ∈ added, field? fields entry.1 = none)
    (h : members fields blank .kept origin (Reading.ofMembers entries) = .ok (record, aside)) :
    members fields blank .kept origin (Reading.ofMembers (entries ++ added)) =
      .ok (record, aside ++ Reading.ofMembers added) := by
  obtain ⟨hfits, hrecord, haside⟩ := members_eq_ok_iff.1 h
  have hforeign : foreign fields added = added :=
    List.filter_eq_self.2 fun entry hentry => by simp [knows, hadded entry hentry]
  have hnone : known fields added = [] :=
    List.filter_eq_nil_iff.2 fun entry hentry => by simp [knows, hadded entry hentry]
  have hknown : known fields (entries ++ added) = known fields entries := by
    rw [known_append, hnone, List.append_nil]
  refine members_eq_ok_iff.2 ⟨⟨⟨?_, ?_, ?_⟩, ?_⟩, ?_, ?_⟩
  · exact hknown ▸ hfits.distinct
  · exact hknown ▸ hfits.fresh
  · exact hknown ▸ hfits.reads
  · exact hknown ▸ hfits.complete
  · rw [hrecord, assemble, assemble, hknown]
  · rw [haside, Others.collect, Others.collect, foreign_append, hforeign, Reading.ofMembers_append]

/-! ## Fields apart -/

namespace Field

/-- Every change that a field makes sets some value in one and the same way. -/
class Sets (field : Field ρ) {α : outParam Type} (set : outParam (α → ρ → ρ)) : Prop where
  exists_of_read {origin : Origin} {reading : Reading} {made : ρ → ρ} :
    field.read origin reading = .ok made → ∃ value, made = set value

instance (key : String) (decode : Decoder α) (set : α → ρ → ρ) :
    Sets (needed key decode set) set where
  exists_of_read h := by
    obtain ⟨value, -, hset⟩ := map_eq_ok h
    exact ⟨value, hset⟩

instance (key : String) (decode : Decoder α) (set : α → ρ → ρ) :
    Sets (given key decode set) set where
  exists_of_read h := by
    obtain ⟨value, -, hset⟩ := map_eq_ok h
    exact ⟨value, hset⟩

instance [Inhabited α] (key : String) (decode : Decoder α) (set : α → ρ → ρ) :
    Sets (nullable key decode set) set where
  exists_of_read h := by
    unfold nullable at h
    simp only at h
    split at h
    case h_1 =>
      cases h
      exact ⟨default, rfl⟩
    case h_2 =>
      obtain ⟨value, -, hset⟩ := map_eq_ok h
      exact ⟨value, hset⟩

/-- Two fields change different parts of a record. -/
def Apart (first second : Field ρ) : Prop :=
  ∀ ⦃origin reading other made changed⦄, first.read origin reading = .ok made →
    second.read origin other = .ok changed →
    ∀ record, made (changed record) = changed (made record)

instance : Std.Symm (Apart : Field ρ → Field ρ → Prop) where
  symm _ _ h _ _ _ _ _ hfirst hsecond record := (h hsecond hfirst record).symm

theorem apart {first second : Field ρ} {set : α → ρ → ρ} {put : β → ρ → ρ} [first.Sets set]
    [second.Sets put] (h : ∀ x y record, set x (put y record) = put y (set x record)) :
    first.Apart second := by
  intro origin reading other made changed hfirst hsecond record
  obtain ⟨x, rfl⟩ := Sets.exists_of_read hfirst
  obtain ⟨y, rfl⟩ := Sets.exists_of_read hsecond
  exact h x y record

end Field

/-- Only the known members decide whether members make up a record, in whatever order. -/
theorem Fits.of_perm {entries others : Json.Members} (hfits : Fits fields origin entries)
    (h : (known fields entries).Perm (known fields others)) : Fits fields origin others := by
  have hkeys : (Json.keys (known fields entries)).Perm (Json.keys (known fields others)) :=
    h.map Prod.fst
  exact
    { distinct := hkeys.nodup_iff.1 hfits.distinct
      fresh := fun _ _ => List.not_mem_nil
      reads := fun entry hentry => hfits.reads entry (h.mem_iff.2 hentry)
      complete := fun field hfield hrequired =>
        hkeys.mem_iff.1 (hfits.complete field hfield hrequired) }

/-- A member makes no change, or the one that its field reads. -/
theorem change_eq (fields : List (Field ρ)) (origin : Origin) (entry : String × Json) :
    change fields origin entry = id ∨ ∃ field, field? fields entry.1 = some field ∧
      field.read origin (Reading.ofJson entry.2) = .ok (change fields origin entry) := by
  cases hfield : field? fields entry.1 with
  | none => exact .inl (by simp [change, hfield])
  | some field =>
      cases hread : field.read origin (Reading.ofJson entry.2) with
      | error e => exact .inl (by simp [change, hfield, hread])
      | ok made => exact .inr ⟨field, rfl, by rw [change_of_read hfield hread, hread]⟩

/-- The changes of members under different keys can be made in either order. -/
theorem change_comm_of_ne (hapart : fields.Pairwise Field.Apart) {first second : String × Json}
    (hkey : first.1 ≠ second.1) (record : ρ) :
    change fields origin second (change fields origin first record) =
      change fields origin first (change fields origin second record) := by
  rcases change_eq fields origin first with hfirst | ⟨field, hfield, hmade⟩
  · rw [hfirst, id, id]
  rcases change_eq fields origin second with hsecond | ⟨other, hother, hchanged⟩
  · rw [hsecond, id, id]
  obtain ⟨hmem, hfieldKey⟩ := field?_eq_some hfield
  obtain ⟨hmem', hotherKey⟩ := field?_eq_some hother
  have hne : other ≠ field := fun h => hkey (by rw [← hfieldKey, ← hotherKey, h])
  exact hapart.forall hmem' hmem hne hchanged hmade record

theorem change_comm (hapart : fields.Pairwise Field.Apart) {entries : Json.Members}
    (hfits : Fits fields origin entries) {first second : String × Json}
    (hfirst : first ∈ known fields entries) (hsecond : second ∈ known fields entries) (record : ρ) :
    change fields origin second (change fields origin first record) =
      change fields origin first (change fields origin second record) := by
  by_cases hsame : first = second
  · rw [hsame]
  · exact change_comm_of_ne hapart
      (fun hkey => hsame (List.inj_on_of_nodup_map hfits.distinct hfirst hsecond hkey)) record

theorem assemble_perm (hapart : fields.Pairwise Field.Apart) {entries others : Json.Members}
    (hfits : Fits fields origin entries) (h : (known fields entries).Perm (known fields others))
    (record : ρ) :
    assemble fields origin others record = assemble fields origin entries record := by
  refine (h.foldl_eq' ?_ record).symm
  exact fun first hfirst second hsecond record =>
    change_comm hapart hfits hfirst hsecond record

/-! ## Readers -/

/-- What reads a member of a record: its key, and which values it does not tell apart. -/
structure Reader where
  key : String
  alike : Json → Json → Prop
  refl (doc : Json) : alike doc doc

namespace Reader

/-- Two members are under one key, and those who read this key do not tell them apart. -/
structure Alike (readers : List Reader) (entry other : String × Json) : Prop where
  key : other.1 = entry.1
  alike : ∀ reader ∈ readers, reader.key = entry.1 → reader.alike entry.2 other.2

/-- Members are, in some order, like other members, beside members that nobody reads. -/
def Matches (readers : List Reader) (entries wider : Json.Members) : Prop :=
  ∃ kept added, List.Forall₂ (Alike readers) entries kept ∧ wider.Perm (kept ++ added) ∧
    ∀ entry ∈ added, ∀ reader ∈ readers, reader.key ≠ entry.1

theorem Alike.mono {readers others : List Reader} {entry other : String × Json}
    (h : Alike readers entry other) (hsubset : others ⊆ readers) : Alike others entry other :=
  ⟨h.key, fun reader hreader => h.alike reader (hsubset hreader)⟩

theorem Alike.refl (readers : List Reader) (entry : String × Json) : Alike readers entry entry :=
  ⟨rfl, fun reader _ _ => reader.refl entry.2⟩

theorem Matches.of_perm {readers : List Reader} {entries added wider : Json.Members}
    (hwider : wider.Perm (entries ++ added))
    (hadded : ∀ entry ∈ added, ∀ reader ∈ readers, reader.key ≠ entry.1) :
    Matches readers entries wider :=
  ⟨entries, added, List.forall₂_same.2 fun entry _ => Alike.refl readers entry, hwider, hadded⟩

theorem Matches.mono {readers others : List Reader} {entries wider : Json.Members}
    (h : Matches readers entries wider) (hsubset : others ⊆ readers) :
    Matches others entries wider := by
  obtain ⟨kept, added, hkept, hwider, hadded⟩ := h
  exact ⟨kept, added, hkept.imp fun _ _ halike => halike.mono hsubset, hwider,
    fun entry hentry reader hreader => hadded entry hentry reader (hsubset hreader)⟩

end Reader

/-- A field reads the values under its key. -/
def Field.reader (origin : Origin) (field : Field ρ) : Reader where
  key := field.key
  alike doc other :=
    field.read origin (Reading.ofJson other) = field.read origin (Reading.ofJson doc)
  refl _ := rfl

namespace Field

@[simp] theorem key_needed (key : String) (decode : Decoder α) (set : α → ρ → ρ) :
    (needed key decode set).key = key := rfl

@[simp] theorem key_given (key : String) (decode : Decoder α) (set : α → ρ → ρ) :
    (given key decode set).key = key := rfl

@[simp] theorem key_nullable [Inhabited α] (key : String) (decode : Decoder α)
    (set : α → ρ → ρ) : (nullable key decode set).key = key := rfl

@[simp] theorem key_reader (field : Field ρ) : (field.reader origin).key = field.key := rfl

section Alike

variable {decode : Decoder α} {doc other : Json} {value : α}
  (hdoc : ∀ origin, decode origin (Reading.ofJson doc) = .ok value)
  (hother : ∀ origin, decode origin (Reading.ofJson other) = .ok value)

include hdoc hother

theorem alike_needed (origin : Origin) (key : String) (set : α → ρ → ρ) :
    ((needed key decode set).reader origin).alike doc other :=
  congrArg (Except.map set) ((hother origin).trans (hdoc origin).symm)

theorem alike_given (origin : Origin) (key : String) (set : α → ρ → ρ) :
    ((given key decode set).reader origin).alike doc other :=
  congrArg (Except.map set) ((hother origin).trans (hdoc origin).symm)

/-- Where null has no value of its own, it is unlike all documents that have one. -/
theorem alike_nullable [Inhabited α] (hnull : ∀ origin, decode origin .null ≠ .ok value)
    (origin : Origin) (key : String) (set : α → ρ → ρ) :
    ((nullable key decode set).reader origin).alike doc other := by
  have hread : ∀ reading, decode origin reading = .ok value →
      (nullable key decode set).read origin reading = .ok (set value) := by
    intro reading h
    unfold nullable
    simp only
    split
    case h_1 => exact absurd h (hnull origin)
    case h_2 => rw [h]; rfl
  exact (hread _ (hother origin)).trans (hread _ (hdoc origin)).symm

end Alike

end Field

/-- The readers of a record without parts. -/
def fieldReaders (fields : List (Field ρ)) (origin : Origin) : List Reader :=
  fields.map (Field.reader origin)

/-- Where all fields of some keys have one decoder, what they tell apart is what it tells apart. -/
theorem alike_of_decoded {fields : List (Field ρ)} {keys : List String} {decode : Decoder α}
    (hfields : ∀ field ∈ fields, field.key ∈ keys → ∃ set, field = .given field.key decode set)
    {doc other : Json} {value : α} (hdoc : ∀ origin, decode origin (Reading.ofJson doc) = .ok value)
    (hother : ∀ origin, decode origin (Reading.ofJson other) = .ok value) (origin : Origin) :
    ∀ reader ∈ fieldReaders fields origin, reader.key ∈ keys → reader.alike doc other := by
  intro reader hreader hkey
  obtain ⟨field, hfield, rfl⟩ := List.mem_map.1 hreader
  obtain ⟨set, hgiven⟩ := hfields field hfield hkey
  rw [hgiven]
  exact Field.alike_given hdoc hother origin field.key set

section Matches

variable {readers : List Reader} {entries wider : Json.Members}

theorem knows_of_alike {entry other : String × Json} (h : Reader.Alike readers entry other) :
    knows fields other = knows fields entry := by
  rw [knows, knows, h.key]

theorem read_of_alike {entry other : String × Json} {field : Field ρ}
    (h : Reader.Alike (fieldReaders fields origin) entry other)
    (hfield : field? fields entry.1 = some field) :
    field.read origin (Reading.ofJson other.2) = field.read origin (Reading.ofJson entry.2) := by
  obtain ⟨hmem, hkey⟩ := field?_eq_some hfield
  exact h.alike (field.reader origin) (List.mem_map_of_mem hmem) hkey

theorem change_of_alike {entry other : String × Json}
    (h : Reader.Alike (fieldReaders fields origin) entry other) :
    change fields origin other = change fields origin entry := by
  rw [change, change, h.key]
  cases hfield : field? fields entry.1 with
  | none => rfl
  | some field => simp only [read_of_alike h hfield]

theorem reads_of_alike {entry other : String × Json}
    (h : Reader.Alike (fieldReaders fields origin) entry other) :
    Reads fields origin other ↔ Reads fields origin entry := by
  rw [Reads, Reads, h.key]
  refine forall_congr' fun field => forall_congr' fun hfield => ?_
  rw [read_of_alike h hfield]

theorem forall₂_known {kept : Json.Members}
    (h : List.Forall₂ (Reader.Alike readers) entries kept) :
    List.Forall₂ (Reader.Alike readers) (known fields entries) (known fields kept) :=
  List.rel_filter (fun _ _ halike => by simp only [knows_of_alike halike]) h

theorem forall₂_foreign {kept : Json.Members}
    (h : List.Forall₂ (Reader.Alike readers) entries kept) :
    List.Forall₂ (Reader.Alike readers) (foreign fields entries) (foreign fields kept) :=
  List.rel_filter (fun _ _ halike => by simp only [knows_of_alike halike]) h

theorem keys_of_forall₂ {kept : Json.Members}
    (h : List.Forall₂ (Reader.Alike readers) entries kept) :
    Json.keys kept = Json.keys entries := by
  induction h with
  | nil => rfl
  | cons halike _ ih => exact congrArg₂ List.cons halike.key ih

theorem forall_reads_iff {kept : Json.Members}
    (h : List.Forall₂ (Reader.Alike (fieldReaders fields origin)) entries kept) :
    (∀ entry ∈ kept, Reads fields origin entry) ↔ ∀ entry ∈ entries, Reads fields origin entry := by
  induction h with
  | nil => rfl
  | cons halike _ ih => rw [List.forall_mem_cons, List.forall_mem_cons, reads_of_alike halike, ih]

theorem assemble_of_forall₂ {kept : Json.Members}
    (h : List.Forall₂ (Reader.Alike (fieldReaders fields origin)) entries kept)
    (record : ρ) : assemble fields origin kept record = assemble fields origin entries record := by
  have hknown : List.Forall₂ (Reader.Alike (fieldReaders fields origin)) (known fields entries)
      (known fields kept) := forall₂_known h
  rw [assemble, assemble]
  generalize known fields entries = first at hknown
  generalize known fields kept = second at hknown
  induction hknown generalizing record with
  | nil => rfl
  | cons halike _ ih => rw [List.foldl_cons, List.foldl_cons, change_of_alike halike, ih]

theorem fits_of_forall₂ {kept : Json.Members}
    (h : List.Forall₂ (Reader.Alike (fieldReaders fields origin)) entries kept) :
    Fits fields origin kept ↔ Fits fields origin entries := by
  have hknown : List.Forall₂ (Reader.Alike (fieldReaders fields origin)) (known fields entries)
      (known fields kept) := forall₂_known h
  exact fits_congr (keys_of_forall₂ hknown) (forall_reads_iff hknown)

/-- The members that are known among more members are those known before, read alike. -/
theorem known_of_matches (h : Reader.Matches (fieldReaders fields origin) entries wider) :
    ∃ kept, List.Forall₂ (Reader.Alike (fieldReaders fields origin)) entries kept ∧
      (known fields kept).Perm (known fields wider) := by
  obtain ⟨kept, added, hkept, hwider, hadded⟩ := h
  have hnone : known fields added = [] := by
    refine List.filter_eq_nil_iff.2 fun entry hentry hknows => ?_
    obtain ⟨field, hfield⟩ := Option.isSome_iff_exists.1 hknows
    obtain ⟨hmem, hkey⟩ := field?_eq_some hfield
    exact hadded entry hentry (field.reader origin) (List.mem_map_of_mem hmem) hkey
  have hknown : (known fields wider).Perm (known fields (kept ++ added)) := hwider.filter _
  rw [known_append, hnone, List.append_nil] at hknown
  exact ⟨kept, hkept, hknown.symm⟩

theorem fits_of_matches (h : Reader.Matches (fieldReaders fields origin) entries wider) :
    Fits fields origin wider ↔ Fits fields origin entries := by
  obtain ⟨kept, hkept, hknown⟩ := known_of_matches h
  rw [← fits_of_forall₂ hkept]
  exact ⟨fun hfits => hfits.of_perm hknown.symm, fun hfits => hfits.of_perm hknown⟩

theorem assemble_of_matches (hapart : fields.Pairwise Field.Apart)
    (h : Reader.Matches (fieldReaders fields origin) entries wider)
    (hfits : Fits fields origin entries) (record : ρ) :
    assemble fields origin wider record = assemble fields origin entries record := by
  obtain ⟨kept, hkept, hknown⟩ := known_of_matches h
  rw [assemble_perm hapart ((fits_of_forall₂ hkept).2 hfits) hknown, assemble_of_forall₂ hkept]

theorem foreign_of_matches (h : Reader.Matches readers entries wider) :
    Reader.Matches readers (foreign fields entries) (foreign fields wider) := by
  obtain ⟨kept, added, hkept, hwider, hadded⟩ := h
  refine ⟨foreign fields kept, foreign fields added, forall₂_foreign hkept, ?_, ?_⟩
  · rw [← foreign_append]
    exact hwider.filter _
  · exact fun entry hentry => hadded entry (List.mem_filter.1 hentry).1

end Matches

/-! ## Decoders of members -/

/--
Some readers are all that a decoder has of its members: it succeeds with the same values for members
that they read alike, in any order and beside members that none of them reads.
-/
def ReadsOnly (readers : List Reader) (decode : Reading.Members → Except DecodeError α) : Prop :=
  ∀ ⦃entries wider⦄, Reader.Matches readers entries wider → ∀ value,
    decode (Reading.ofMembers wider) = .ok value ↔ decode (Reading.ofMembers entries) = .ok value

namespace ReadsOnly

variable {readers others : List Reader}

/-- A record reads the members of its fields, and its parts read those set aside. -/
theorem members_bind (hapart : fields.Pairwise Field.Apart) {blank : ρ}
    {next : ρ × Reading.Members → Except DecodeError α}
    (hnext : ∀ record, ReadsOnly readers fun aside => next (record, aside)) :
    ReadsOnly (fieldReaders fields origin ++ readers) fun entries =>
      members fields blank .kept origin entries >>= next := by
  intro entries wider hmatches value
  have hown := hmatches.mono (List.subset_append_left _ readers)
  have hrest := hmatches.mono (List.subset_append_right (fieldReaders fields origin) _)
  rw [members_bind_eq_ok_iff, members_bind_eq_ok_iff, fits_of_matches hown]
  refine and_congr_right fun hfits => ?_
  rw [assemble_of_matches hapart hown hfits]
  exact hnext _ (foreign_of_matches hrest) value

/-- A record without parts reads the members of its fields. -/
theorem members_only (hapart : fields.Pairwise Field.Apart) (blank : ρ) :
    ReadsOnly (fieldReaders fields origin) fun entries =>
      (members fields blank .skipped origin entries).map Prod.fst := by
  intro entries wider hmatches value
  rw [members_fst_eq_ok_iff, members_fst_eq_ok_iff, fits_of_matches hmatches]
  refine and_congr_right fun hfits => ?_
  rw [assemble_of_matches hapart hmatches hfits]

theorem part (hapart : fields.Pairwise Field.Apart) (blank : ρ) :
    ReadsOnly (fieldReaders fields .tree) (part fields blank) :=
  members_only hapart blank

theorem bind {first : Reading.Members → Except DecodeError α}
    {next : α → Reading.Members → Except DecodeError β} (hfirst : ReadsOnly readers first)
    (hnext : ∀ found, ReadsOnly others (next found)) :
    ReadsOnly (readers ++ others) fun entries => first entries >>= fun found => next found entries := by
  intro entries wider hmatches value
  have hown := hmatches.mono (List.subset_append_left _ others)
  have hrest := hmatches.mono (List.subset_append_right readers _)
  simp only [bind_eq_ok_iff, hfirst hown, hnext _ hrest]

theorem bind_pure {first : Reading.Members → Except DecodeError α}
    (hfirst : ReadsOnly readers first) (make : α → β) :
    ReadsOnly readers fun entries => first entries >>= fun found => pure (make found) := by
  intro entries wider hmatches value
  simp only [bind_eq_ok_iff, hfirst hmatches]

end ReadsOnly

end Decode

end MapCatalog
