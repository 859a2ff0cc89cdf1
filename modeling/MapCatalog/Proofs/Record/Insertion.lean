import Mathlib.Data.List.Find
import MapCatalog.Proofs.Record.Members

/-! # One member more

Going through members stops at the first that cannot be read, or whose key was there before.  So a member under a key
of its own makes its change and nothing else, be it one of the record or of one of its parts.
-/

namespace MapCatalog

namespace Decode

variable {ρ α β : Type} {fields : List (Field ρ)} {origin : Origin}

/-! ## The first fault -/

/-- The error at which going through members stops, when those under the keys in `seen` were met
before. -/
def fault? (fields : List (Field ρ)) (origin : Origin) :
    List String → Json.Members → Option DecodeError
  | _, [] => none
  | seen, entry :: rest =>
      match field? fields entry.1 with
      | none => fault? fields origin seen rest
      | some field =>
          if entry.1 ∈ seen then
            some (.duplicateField entry.1)
          else
            match field.read origin (Reading.ofJson entry.2) with
            | .error e => some e
            | .ok _ => fault? fields origin (entry.1 :: seen) rest

theorem fault?_cons_of_none {entry : String × Json} (h : field? fields entry.1 = none)
    (seen : List String) (rest : Json.Members) :
    fault? fields origin seen (entry :: rest) = fault? fields origin seen rest := by
  simp [fault?, h]

theorem fault?_cons_of_read {entry : String × Json} {field : Field ρ} {made : ρ → ρ}
    (hfield : field? fields entry.1 = some field)
    (hread : field.read origin (Reading.ofJson entry.2) = .ok made) {seen : List String}
    (hseen : entry.1 ∉ seen) (rest : Json.Members) :
    fault? fields origin seen (entry :: rest) = fault? fields origin (entry.1 :: seen) rest := by
  simp [fault?, hfield, hread, hseen]

theorem visit_of_fault {others : Others} {seen : List String} {record : ρ}
    {entries : Json.Members} {e : DecodeError} (h : fault? fields origin seen entries = some e) :
    visit fields others origin seen record (Reading.ofMembers entries) = .error e := by
  induction entries generalizing seen record with
  | nil => cases h
  | cons entry rest ih =>
      rw [Reading.ofMembers, visit]
      cases hfield : field? fields entry.1 with
      | none =>
          rw [fault?_cons_of_none hfield] at h
          simp only [others_allows_ofJson, if_true, ih h]
      | some field =>
          rw [fault?, hfield] at h
          by_cases hseen : entry.1 ∈ seen
          · simpa [hseen] using h
          · cases hread : field.read origin (Reading.ofJson entry.2) with
            | error found => simpa [hseen, hread] using h
            | ok made =>
                simp only [hseen, hread, if_false] at h
                simpa [hseen, hread] using ih h

theorem passes_of_no_fault {seen : List String} {entries : Json.Members}
    (h : fault? fields origin seen entries = none) : Passes fields origin seen entries := by
  induction entries generalizing seen with
  | nil => exact passes_nil seen
  | cons entry rest ih =>
      cases hfield : field? fields entry.1 with
      | none =>
          rw [fault?_cons_of_none hfield] at h
          exact (passes_cons_of_none hfield rest).2 (ih h)
      | some field =>
          rw [fault?, hfield] at h
          by_cases hseen : entry.1 ∈ seen
          · simp [hseen] at h
          · cases hread : field.read origin (Reading.ofJson entry.2) with
            | error found => simp [hseen, hread] at h
            | ok made =>
                simp only [hseen, hread, if_false] at h
                refine (passes_cons_of_some hfield rest).2 ⟨hseen, fun other hother => ?_, ih h⟩
                cases hfield.symm.trans hother
                exact ⟨made, hread⟩

/-- Of the keys that were met before only those count that come again. -/
theorem fault?_congr {seen others : List String} {entries : Json.Members}
    (h : ∀ key ∈ Json.keys entries, key ∈ seen ↔ key ∈ others) :
    fault? fields origin seen entries = fault? fields origin others entries := by
  induction entries generalizing seen others with
  | nil => rfl
  | cons entry rest ih =>
      obtain ⟨hentry, hrest⟩ := List.forall_mem_cons.1 h
      have hlater : fault? fields origin (entry.1 :: seen) rest =
          fault? fields origin (entry.1 :: others) rest :=
        ih fun key hkey => by simp only [List.mem_cons, hrest key hkey]
      simp only [fault?, hentry, hlater, ih hrest]

theorem firstMissing?_congr {seen others : List String}
    (h : ∀ field ∈ fields, field.required = true → (field.key ∈ seen ↔ field.key ∈ others)) :
    firstMissing? fields seen = firstMissing? fields others := by
  refine congrArg (Option.map Field.key) (List.find?_congr fun field hfield => ?_)
  cases hrequired : field.required with
  | false => rfl
  | true => simp [h field hfield hrequired]

theorem mem_keys_known {key : String} {entries : Json.Members}
    (h : (field? fields key).isSome = true) :
    key ∈ Json.keys (known fields entries) ↔ key ∈ Json.keys entries := by
  constructor
  · exact fun hkey => (List.filter_sublist.map Prod.fst).subset hkey
  · intro hkey
    obtain ⟨value, hentry⟩ := Json.exists_of_mem_keys hkey
    exact Json.mem_keys (List.mem_filter.2 ⟨hentry, h⟩)

theorem isSome_field? {field : Field ρ} (h : field ∈ fields) :
    (field? fields field.key).isSome = true := by
  rw [field?, List.find?_isSome]
  exact ⟨field, h, by simp⟩

theorem members_ofMembers (others : Others) (blank : ρ) (entries : Json.Members) :
    members fields blank others origin (Reading.ofMembers entries) =
      match fault? fields origin [] entries, firstMissing? fields (Json.keys entries) with
      | some e, _ => .error e
      | none, some key => .error (.missingField key)
      | none, none => .ok (assemble fields origin entries blank, others.collect fields entries) := by
  rw [members]
  cases hfault : fault? fields origin [] entries with
  | some e => rw [visit_of_fault hfault]
  | none =>
      have hseen : firstMissing? fields ((Json.keys (known fields entries)).reverse ++ []) =
          firstMissing? fields (Json.keys entries) := by
        refine firstMissing?_congr fun field hfield _ => ?_
        rw [List.append_nil, List.mem_reverse, mem_keys_known (isSome_field? hfield)]
      rw [visit_of_passes (passes_of_no_fault hfault)]
      simp only [hseen]
      cases firstMissing? fields (Json.keys entries) <;> rfl

/-! ## The further member -/

section Insertion

variable {key : String} {value : Json} {before after : Json.Members}

theorem mem_keys_insert {other : String} (h : other ≠ key) :
    other ∈ Json.keys (before ++ (key, value) :: after) ↔
      other ∈ Json.keys (before ++ after) := by
  simp [Json.keys, h]

theorem fault?_insert {field : Field ρ} {made : ρ → ρ} (hfield : field? fields key = some field)
    (hread : field.read origin (Reading.ofJson value) = .ok made)
    (hkey : key ∉ Json.keys (before ++ after)) {seen : List String} (hseen : key ∉ seen) :
    fault? fields origin seen (before ++ (key, value) :: after) =
      fault? fields origin seen (before ++ after) := by
  induction before generalizing seen with
  | nil =>
      rw [List.nil_append, List.nil_append, fault?_cons_of_read hfield hread hseen]
      refine fault?_congr fun other hother => ?_
      rw [List.mem_cons, or_iff_right]
      exact ne_of_mem_of_not_mem hother hkey
  | cons entry rest ih =>
      obtain ⟨hne, hrest⟩ : key ≠ entry.1 ∧ key ∉ Json.keys (rest ++ after) := by
        simpa [Json.keys] using hkey
      have hlater : fault? fields origin (entry.1 :: seen) (rest ++ (key, value) :: after) =
          fault? fields origin (entry.1 :: seen) (rest ++ after) :=
        ih hrest (by simp [hne, hseen])
      simp only [List.cons_append, fault?, ih hrest hseen, hlater]

theorem fault?_insert_foreign (h : field? fields key = none) (seen : List String) :
    fault? fields origin seen (before ++ (key, value) :: after) =
      fault? fields origin seen (before ++ after) := by
  induction before generalizing seen with
  | nil => exact fault?_cons_of_none h seen after
  | cons entry rest ih => simp only [List.cons_append, fault?, ih]

/-- Members under other keys make their changes before or after one and the same. -/
theorem assemble_comm (hapart : fields.Pairwise Field.Apart) {entry : String × Json}
    {entries : Json.Members} (hkey : entry.1 ∉ Json.keys entries) (record : ρ) :
    assemble fields origin entries (change fields origin entry record) =
      change fields origin entry (assemble fields origin entries record) := by
  induction entries generalizing record with
  | nil => rfl
  | cons other rest ih =>
      obtain ⟨hne, hrest⟩ : entry.1 ≠ other.1 ∧ entry.1 ∉ Json.keys rest := by
        simpa [Json.keys] using hkey
      cases hother : field? fields other.1 with
      | none =>
          rw [assemble, assemble, known_cons_of_none hother]
          exact ih hrest record
      | some field =>
          rw [assemble, assemble, known_cons_of_some hother, List.foldl_cons, List.foldl_cons,
            change_comm_of_ne hapart hne]
          exact ih hrest (change fields origin other record)

variable {field : Field ρ} {made : ρ → ρ}

/-- The change of a member under a key of its own can be made last. -/
theorem assemble_insert (hapart : fields.Pairwise Field.Apart)
    (hfield : field? fields key = some field)
    (hread : field.read origin (Reading.ofJson value) = .ok made)
    (hkey : key ∉ Json.keys (before ++ after)) (record : ρ) :
    assemble fields origin (before ++ (key, value) :: after) record =
      made (assemble fields origin (before ++ after) record) := by
  have hafter : key ∉ Json.keys after := fun h =>
    hkey ((List.sublist_append_right before after).map Prod.fst |>.subset h)
  have hchange : change fields origin (key, value) = made := change_of_read hfield hread
  have hknown : known fields ((key, value) :: after) = (key, value) :: known fields after :=
    known_cons_of_some hfield after
  have hmade : assemble fields origin after (change fields origin (key, value) _) = _ :=
    assemble_comm hapart hafter (assemble fields origin before record)
  simp only [assemble, known_append, hknown, List.foldl_append, List.foldl_cons,
    hchange] at hmade ⊢
  exact hmade

theorem firstMissing?_insert (h : ∀ field ∈ fields, field.required = true → field.key ≠ key) :
    firstMissing? fields (Json.keys (before ++ (key, value) :: after)) =
      firstMissing? fields (Json.keys (before ++ after)) :=
  firstMissing?_congr fun field hfield hrequired => mem_keys_insert (h field hfield hrequired)

theorem members_insert (hapart : fields.Pairwise Field.Apart)
    (hfield : field? fields key = some field)
    (hread : field.read origin (Reading.ofJson value) = .ok made)
    (hoptional : ∀ field ∈ fields, field.required = true → field.key ≠ key)
    (hkey : key ∉ Json.keys (before ++ after)) (others : Others) (blank : ρ) :
    members fields blank others origin (Reading.ofMembers (before ++ (key, value) :: after)) =
      (members fields blank others origin (Reading.ofMembers (before ++ after))).map
        fun result => (made result.1, result.2) := by
  have hforeign : foreign fields ((key, value) :: after) = foreign fields after :=
    foreign_cons_of_some hfield after
  have hcollect : others.collect fields (before ++ (key, value) :: after) =
      others.collect fields (before ++ after) := by
    cases others with
    | skipped => rfl
    | kept => simp only [Others.collect, foreign_append, hforeign]
  rw [members_ofMembers, members_ofMembers, fault?_insert hfield hread hkey List.not_mem_nil,
    firstMissing?_insert hoptional, assemble_insert hapart hfield hread hkey, hcollect]
  cases fault? fields origin [] (before ++ after) with
  | some e => rfl
  | none => cases firstMissing? fields (Json.keys (before ++ after)) <;> rfl

theorem field?_eq_none (h : key ∉ fields.map Field.key) : field? fields key = none := by
  refine List.find?_eq_none.2 fun field hfield heq => h ?_
  exact List.mem_map.2 ⟨field, hfield, by simpa using heq⟩

theorem ne_key_of_none (h : field? fields key = none) : ∀ field ∈ fields, field.key ≠ key := by
  intro field hfield heq
  have hsome := isSome_field? hfield
  rw [heq, h] at hsome
  cases hsome

theorem assemble_insert_foreign (h : field? fields key = none) (record : ρ) :
    assemble fields origin (before ++ (key, value) :: after) record =
      assemble fields origin (before ++ after) record := by
  have hknown : known fields ((key, value) :: after) = known fields after :=
    known_cons_of_none h after
  simp only [assemble, known_append, hknown]

theorem members_insert_foreign (h : field? fields key = none) (blank : ρ) :
    members fields blank .skipped origin (Reading.ofMembers (before ++ (key, value) :: after)) =
      members fields blank .skipped origin (Reading.ofMembers (before ++ after)) := by
  rw [members_ofMembers, members_ofMembers, fault?_insert_foreign h,
    firstMissing?_insert fun field hfield _ => ne_key_of_none h field hfield,
    assemble_insert_foreign h, Others.collect, Others.collect]

/-- A member that a record does not know stands among the members that it sets aside. -/
theorem members_bind_insert_foreign (h : field? fields key = none) (blank : ρ)
    (next : ρ × Reading.Members → Except DecodeError α) {f : α → α}
    (hnext : ∀ record,
      next (record, Reading.ofMembers (foreign fields before ++ (key, value) :: foreign fields after)) =
        (next (record, Reading.ofMembers (foreign fields before ++ foreign fields after))).map f) :
    members fields blank .kept origin (Reading.ofMembers (before ++ (key, value) :: after)) >>= next =
      (members fields blank .kept origin (Reading.ofMembers (before ++ after)) >>= next).map f := by
  have hforeign : foreign fields ((key, value) :: after) = (key, value) :: foreign fields after :=
    foreign_cons_of_none h after
  rw [members_ofMembers, members_ofMembers, fault?_insert_foreign h,
    firstMissing?_insert fun field hfield _ => ne_key_of_none h field hfield,
    assemble_insert_foreign h, Others.collect, Others.collect, foreign_append, foreign_append,
    hforeign]
  cases fault? fields origin [] (before ++ after) with
  | some e => rfl
  | none =>
      cases firstMissing? fields (Json.keys (before ++ after)) with
      | some missing => rfl
      | none => exact hnext (assemble fields origin (before ++ after) blank)

end Insertion

/-! ## Decoders of members -/

/-- Decoding with a further member under a key of its own is decoding without it and then making a
change. -/
def Absorbs (decode : Reading.Members → Except DecodeError α) (key : String) (value : Json)
    (f : α → α) : Prop :=
  ∀ ⦃before after : Json.Members⦄, key ∉ Json.keys (before ++ after) →
    decode (Reading.ofMembers (before ++ (key, value) :: after)) =
      (decode (Reading.ofMembers (before ++ after))).map f

/-- Members under a key come and go without any effect on what is decoded. -/
def Ignores (decode : Reading.Members → Except DecodeError α) (key : String) : Prop :=
  ∀ (value : Json) (before after : Json.Members),
    decode (Reading.ofMembers (before ++ (key, value) :: after)) =
      decode (Reading.ofMembers (before ++ after))

/-- What is decoded without a member under a key is left as it is by a change. -/
def Settles (decode : Reading.Members → Except DecodeError α) (key : String) (f : α → α) : Prop :=
  ∀ ⦃entries : Json.Members⦄ ⦃value : α⦄, key ∉ Json.keys entries →
    decode (Reading.ofMembers entries) = .ok value → f value = value

/-- A field reads a value as a change, and may be missing. -/
structure Accepts (fields : List (Field ρ)) (origin : Origin) (key : String) (value : Json)
    (made : ρ → ρ) : Prop where
  read : ∃ field, field? fields key = some field ∧
    field.read origin (Reading.ofJson value) = .ok made
  optional : ∀ field ∈ fields, field.required = true → field.key ≠ key

/-- A part of a record can be looked at and replaced. -/
structure Part (ρ β : Type) where
  get : ρ → β
  put : β → ρ → ρ
  get_put : ∀ part record, get (put part record) = part
  put_put : ∀ part other record, put part (put other record) = put part record

/-- Decode a record, and what stands behind it from the members that it sets aside. -/
def withPart (fields : List (Field ρ)) (blank : ρ) (origin : Origin)
    (rest : Reading.Members → Except DecodeError β) (place : Part ρ β) (entries : Reading.Members) :
    Except DecodeError ρ :=
  members fields blank .kept origin entries >>= fun result =>
    (rest result.2).map fun found => place.put found result.1

def both (first : Reading.Members → Except DecodeError α)
    (second : Reading.Members → Except DecodeError β) (entries : Reading.Members) :
    Except DecodeError (α × β) :=
  first entries >>= fun found => (second entries).map fun other => (found, other)

variable {key : String} {value : Json} {made : ρ → ρ} {blank : ρ}
  {rest : Reading.Members → Except DecodeError β} {place : Part ρ β}

namespace Absorbs

theorem own (hapart : fields.Pairwise Field.Apart) (h : Accepts fields origin key value made)
    (hput : ∀ found record, place.put found (made record) = made (place.put found record)) :
    Absorbs (withPart fields blank origin rest place) key value made := by
  intro before after hkey
  obtain ⟨field, hfield, hread⟩ := h.read
  rw [withPart, withPart, members_insert hapart hfield hread h.optional hkey]
  cases members fields blank .kept origin (Reading.ofMembers (before ++ after)) with
  | error e => rfl
  | ok result =>
      obtain ⟨record, aside⟩ := result
      cases hrest : rest aside with
      | error e => simp [bind, Except.bind, Except.map, hrest]
      | ok found => simp [bind, Except.bind, Except.map, hrest, hput]

theorem behind (h : field? fields key = none) {f : β → β} {g : ρ → ρ}
    (hpart : Absorbs rest key value f)
    (hput : ∀ found record, place.put (f found) record = g (place.put found record)) :
    Absorbs (withPart fields blank origin rest place) key value g := by
  intro before after hkey
  have hforeign : (foreign fields before ++ foreign fields after).Sublist (before ++ after) :=
    List.filter_sublist.append List.filter_sublist
  have hkey : key ∉ Json.keys (foreign fields before ++ foreign fields after) := fun hmem =>
    hkey ((hforeign.map Prod.fst).subset hmem)
  refine members_bind_insert_foreign h blank _ fun record => ?_
  simp only [hpart hkey]
  cases rest (Reading.ofMembers (foreign fields before ++ foreign fields after)) with
  | error e => rfl
  | ok found => exact congrArg Except.ok (hput found record)

theorem only (hapart : fields.Pairwise Field.Apart) (h : Accepts fields origin key value made) :
    Absorbs (fun entries => (members fields blank .skipped origin entries).map Prod.fst) key value
      made := by
  intro before after hkey
  obtain ⟨field, hfield, hread⟩ := h.read
  simp only [members_insert hapart hfield hread h.optional hkey]
  cases members fields blank .skipped origin (Reading.ofMembers (before ++ after)) <;> rfl

theorem both {first : Reading.Members → Except DecodeError α}
    {second : Reading.Members → Except DecodeError β} {f : α → α} {g : β → β}
    (hfirst : Absorbs first key value f) (hsecond : Absorbs second key value g) :
    Absorbs (both first second) key value (Prod.map f g) := by
  intro before after hkey
  rw [Decode.both, Decode.both, hfirst hkey, hsecond hkey]
  cases first (Reading.ofMembers (before ++ after)) with
  | error e => rfl
  | ok found => cases second (Reading.ofMembers (before ++ after)) <;> rfl

end Absorbs

namespace Ignores

theorem absorbs {decode : Reading.Members → Except DecodeError α} (h : Ignores decode key)
    (value : Json) : Absorbs decode key value id := by
  intro before after _
  rw [h value before after]
  cases decode (Reading.ofMembers (before ++ after)) <;> rfl

theorem only (h : field? fields key = none) :
    Ignores (fun entries => (members fields blank .skipped origin entries).map Prod.fst) key :=
  fun _ _ _ => congrArg (Except.map Prod.fst) (members_insert_foreign h blank)

theorem behind (h : field? fields key = none) (hrest : Ignores rest key) :
    Ignores (withPart fields blank origin rest place) key := by
  intro value before after
  have hmap : ∀ result : Except DecodeError ρ, result.map id = result := fun result => by
    cases result <;> rfl
  rw [withPart, withPart, ← hmap (members _ _ _ _ (Reading.ofMembers (before ++ after)) >>= _)]
  refine members_bind_insert_foreign h blank _ fun record => ?_
  simp only [hrest value, hmap]

theorem both {first : Reading.Members → Except DecodeError α}
    {second : Reading.Members → Except DecodeError β} (hfirst : Ignores first key)
    (hsecond : Ignores second key) : Ignores (both first second) key := by
  intro value before after
  rw [Decode.both, Decode.both, hfirst value before after, hsecond value before after]

end Ignores

namespace Settles

/-- A change that leaves the blank record as it is does the same with what is made of members that do not
make this change. -/
theorem assemble (hapart : fields.Pairwise Field.Apart) (h : Accepts fields origin key value made)
    (hblank : made blank = blank) {entries : Json.Members} (hkey : key ∉ Json.keys entries) :
    made (assemble fields origin entries blank) = assemble fields origin entries blank := by
  obtain ⟨field, hfield, hread⟩ := h.read
  have hchange : change fields origin (key, value) = made := change_of_read hfield hread
  rw [← hchange] at hblank ⊢
  rw [← assemble_comm hapart hkey, hblank]

theorem exists_withPart {entries : Json.Members} {record : ρ}
    (h : withPart fields blank origin rest place (Reading.ofMembers entries) = .ok record) :
    ∃ found, rest (Reading.ofMembers (foreign fields entries)) = .ok found ∧
      record = place.put found (Decode.assemble fields origin entries blank) :=
  map_eq_ok (members_bind_eq_ok_iff.1 h).2

theorem own (hapart : fields.Pairwise Field.Apart) (h : Accepts fields origin key value made)
    (hblank : made blank = blank)
    (hput : ∀ found record, place.put found (made record) = made (place.put found record)) :
    Settles (withPart fields blank origin rest place) key made := by
  intro entries record hkey hrecord
  obtain ⟨found, -, rfl⟩ := exists_withPart hrecord
  rw [← hput, assemble hapart h hblank hkey]

theorem behind {f : β → β} {g : ρ → ρ} (hpart : Settles rest key f)
    (hput : ∀ found record, place.put (f found) record = g (place.put found record)) :
    Settles (withPart fields blank origin rest place) key g := by
  intro entries record hkey hrecord
  obtain ⟨found, hfound, rfl⟩ := exists_withPart hrecord
  have hforeign : key ∉ Json.keys (foreign fields entries) := fun h =>
    hkey ((List.filter_sublist.map Prod.fst).subset h)
  rw [← hput, hpart hforeign hfound]

theorem only (hapart : fields.Pairwise Field.Apart) (h : Accepts fields origin key value made)
    (hblank : made blank = blank) :
    Settles (fun entries => (members fields blank .skipped origin entries).map Prod.fst) key
      made := by
  intro entries found hkey hfound
  obtain ⟨-, rfl⟩ := members_fst_eq_ok_iff.1 hfound
  exact assemble hapart h hblank hkey

theorem both {first : Reading.Members → Except DecodeError α}
    {second : Reading.Members → Except DecodeError β} {f : α → α} {g : β → β}
    (hfirst : Settles first key f) (hsecond : Settles second key g) :
    Settles (both first second) key (Prod.map f g) := by
  intro entries result hkey hresult
  obtain ⟨found, hfound, hother⟩ := bind_eq_ok hresult
  obtain ⟨other, hsecondOk, rfl⟩ := map_eq_ok hother
  exact Prod.ext (hfirst hkey hfound) (hsecond hkey hsecondOk)

end Settles

theorem settles_id (decode : Reading.Members → Except DecodeError α) (key : String) :
    Settles decode key id :=
  fun _ _ _ _ => rfl

end Decode

end MapCatalog
