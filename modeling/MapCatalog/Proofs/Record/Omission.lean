import MapCatalog.Proofs.Record.Insertion
import MapCatalog.Proofs.Record.Steady

/-! # Members that may be left out -/

namespace MapCatalog

namespace Json

theorem Sorted.eq_of_perm {members others : Members} (h : Sorted members) (h' : Sorted others)
    (hperm : members.Perm others) : members = others :=
  hperm.eq_of_pairwise (fun _ _ _ _ hlt hgt => absurd hlt (lt_asymm hgt)) h h'

theorem normalizeEntry_eq_null_iff {entry : String × Json} :
    (normalizeEntry entry).2 = .null ↔ entry.2 = .null := by
  constructor
  · exact fun h => eq_of_normalize_eq rfl h
  · intro h
    rw [normalizeEntry, h]
    rfl

theorem filter_ne_insert {key : String} {value : Json} {before after : Members}
    (hkey : key ∉ keys (before ++ after)) :
    ((before ++ (key, value) :: after).filter fun entry => entry.1 != key) = before ++ after := by
  rw [List.filter_append, List.filter_cons_of_neg (by simp), ← List.filter_append]
  exact List.filter_eq_self.2 fun entry hentry => by
    simpa using ne_of_mem_of_not_mem (mem_keys hentry) hkey

/-- A member under a key of its own comes at its place in the normal form, and leaves the others where
they are. -/
theorem exists_normalizeMembers_insert {key : String} (value : Json) {before after : Members}
    (hkey : key ∉ keys (before ++ after)) :
    ∃ first rest,
      normalizeMembers (before ++ (key, value) :: after) = first ++ (key, value.normalize) :: rest ∧
      normalizeMembers (before ++ after) = first ++ rest := by
  have honly : ∀ other, (key, other) ∈ before ++ (key, value) :: after → other = value := by
    intro other hother
    rcases List.mem_cons.1 (List.perm_middle.mem_iff.1 hother) with hsame | hthere
    · exact congrArg Prod.snd hsame
    · exact absurd (mem_keys hthere) hkey
  have hthere : (key, value) ∈ before ++ (key, value) :: after :=
    List.mem_append_right before List.mem_cons_self
  obtain ⟨first, rest, hsplit⟩ :=
    List.append_of_mem (normalizeEntry_mem_normalizeMembers hthere honly)
  have hnormal : key ∉ keys (first ++ rest) := by
    have hdistinct := (sorted_normalizeMembers (before ++ (key, value) :: after)).nodup_keys
    rw [hsplit, keys, (List.perm_middle.map Prod.fst).nodup_iff] at hdistinct
    exact (List.nodup_cons.1 hdistinct).1
  refine ⟨first, rest, hsplit, ?_⟩
  calc
    normalizeMembers (before ++ after)
    _ = normalizeMembers ((before ++ (key, value) :: after).filter fun entry => entry.1 != key) := by
      rw [filter_ne_insert hkey]
    _ = (normalizeMembers (before ++ (key, value) :: after)).filter fun entry => entry.1 != key :=
      (filter_normalizeMembers (fun other => other != key) _).symm
    _ = (first ++ (key, value.normalize) :: rest).filter fun entry => entry.1 != key :=
      congrArg _ hsplit
    _ = first ++ rest := filter_ne_insert hnormal

end Json

namespace Decode

variable {ρ α : Type}

/-- A key that may be left out, and what is decoded where it is. -/
structure OptionalKey (α : Type) where
  key : String
  Blank : α → Prop

def OptionalKey.inside {β : Type} (optional : OptionalKey β) (part : α → β) : OptionalKey α where
  key := optional.key
  Blank value := optional.Blank (part value)

/-- A record with some keys can do without a member: it does not know it, or it is null under an optional
key. -/
def Idle (known : List String) (optional : List (OptionalKey α)) (entry : String × Json) : Prop :=
  entry.1 ∉ known ∨ entry.1 ∈ optional.map OptionalKey.key ∧ entry.2 = .null

instance (known : List String) (optional : List (OptionalKey α)) (entry : String × Json) :
    Decidable (Idle known optional entry) :=
  inferInstanceAs (Decidable (_ ∨ _ ∧ _))

/-- The members that a record cannot do without. -/
def counting (known : List String) (optional : List (OptionalKey α)) (entries : Json.Members) :
    Json.Members :=
  entries.filter fun entry => !decide (Idle known optional entry)

/-- No key that a record knows is there twice. -/
def Single (known : List String) (entries : Json.Members) : Prop :=
  (Json.keys (entries.filter fun entry => entry.1 ∈ known)).Nodup

instance (known : List String) (entries : Json.Members) : Decidable (Single known entries) :=
  inferInstanceAs (Decidable (List.Nodup _))

/-- Null under an optional key is the same as no member there, and both are a blank value. -/
structure Tolerates (decode : Reading.Members → Except DecodeError α) (optional : OptionalKey α) :
    Prop where
  absorbed : ∃ f, Absorbs decode optional.key .null f ∧ Settles decode optional.key f ∧
    ∀ value, optional.Blank (f value)

/-- What a record is decoded to, in one way or another. -/
inductive DecodesTo (decode : Decoder α) (entries : Json.Members) (value : α) : Prop
  | reading (origin : Origin) (h : decode origin (Reading.ofJson (.object entries)) = .ok value)
  | document (h : ofJson decode (.object entries) = .ok value)
  | text (chars : List Char) (hparse : Json.parseRaw? chars = some (.object entries))
      (h : ofText decode chars = .ok value)

/-- The members that count decide what is decoded of an object, and which error it is refused for. -/
structure Lenient (decode : Decoder α) (known : List String) (optional : List (OptionalKey α)) :
    Prop where
  reading : ∀ entries others : Json.Members, Single known entries → Single known others →
    counting known optional entries = counting known optional others → ∀ origin,
    decode origin (Reading.ofJson (.object others)) =
      decode origin (Reading.ofJson (.object entries))
  /-- In a document the order of the members does not count either. -/
  document : ∀ entries others : Json.Members, Single known entries → Single known others →
    (counting known optional entries).Perm (counting known optional others) →
    ofJson decode (.object others) = ofJson decode (.object entries)
  text : ∀ entries others : Json.Members, Single known entries → Single known others →
    counting known optional entries = counting known optional others → ∀ chars more,
    Json.parseRaw? chars = some (.object entries) → Json.parseRaw? more = some (.object others) →
    ofText decode more = ofText decode chars
  /-- A blank value stands for an optional key that is left out or null. -/
  blank : ∀ entries : Json.Members, Single known entries → ∀ key ∈ optional,
    key.key ∉ Json.keys entries ∨ (key.key, .null) ∈ entries →
    ∀ value, DecodesTo decode entries value → key.Blank value

/-! ## Members under keys that a record knows -/

namespace Single

variable {known : List String}

theorem of_distinct {entries : Json.Members} (h : (Json.keys entries).Nodup) :
    Single known entries :=
  h.sublist (List.filter_sublist.map Prod.fst)

theorem fewer {before after : Json.Members} {entry : String × Json}
    (h : Single known (before ++ entry :: after)) : Single known (before ++ after) :=
  h.sublist ((((List.sublist_cons_self entry after).append_left before).filter _).map Prod.fst)

/-- A member under a key that the record knows is the only one there. -/
theorem not_mem_keys {before after : Json.Members} {entry : String × Json}
    (h : Single known (before ++ entry :: after)) (hknown : entry.1 ∈ known) :
    entry.1 ∉ Json.keys (before ++ after) := by
  intro hkey
  obtain ⟨value, hvalue⟩ := Json.exists_of_mem_keys hkey
  have hperm : (Json.keys ((before ++ entry :: after).filter fun entry => entry.1 ∈ known)).Perm
      (Json.keys ((entry :: (before ++ after)).filter fun entry => entry.1 ∈ known)) :=
    (List.perm_middle.filter _).map Prod.fst
  rw [Single, hperm.nodup_iff, List.filter_cons_of_pos (by simpa using hknown)] at h
  exact (List.nodup_cons.1 h).1 (Json.mem_keys (List.mem_filter.2 ⟨hvalue, by simpa using hknown⟩))

theorem normalizeMembers (entries : Json.Members) : Single known (Json.normalizeMembers entries) :=
  .of_distinct (Json.sorted_normalizeMembers entries).nodup_keys

theorem mem_normalizeMembers {entries : Json.Members} {entry : String × Json}
    (h : Single known entries) (hknown : entry.1 ∈ known) (hentry : entry ∈ entries) :
    Json.normalizeEntry entry ∈ Json.normalizeMembers entries := by
  refine Json.normalizeEntry_mem_normalizeMembers hentry fun value hvalue => ?_
  exact congrArg Prod.snd (List.inj_on_of_nodup_map h
    (List.mem_filter.2 ⟨hvalue, by simpa using hknown⟩)
    (List.mem_filter.2 ⟨hentry, by simpa using hknown⟩) rfl)

end Single

/-! ## Optional keys of records and of their parts -/

/-- A field takes null and may be missing, and stands for a blank value then. -/
structure Defaults (fields : List (Field ρ)) (blank : ρ) (key : OptionalKey ρ) (made : ρ → ρ) :
    Prop where
  accepts : ∀ origin, Accepts fields origin key.key .null made
  unchanged : made blank = blank
  blank : ∀ record, key.Blank (made record)

namespace Tolerates

variable {β : Type} {fields : List (Field ρ)} {blank : ρ} {origin : Origin}
  {rest : Reading.Members → Except DecodeError β} {place : Part ρ β} {made : ρ → ρ}

theorem only (hapart : fields.Pairwise Field.Apart) {keys : List (OptionalKey ρ)}
    (hkeys : ∀ key ∈ keys, ∃ made, Defaults fields blank key made) :
    ∀ key ∈ keys, Tolerates
      (fun entries => (members fields blank .skipped origin entries).map Prod.fst) key := by
  intro key hkey
  obtain ⟨made, h⟩ := hkeys key hkey
  exact ⟨made, .only hapart (h.accepts origin), .only hapart (h.accepts origin) h.unchanged,
    h.blank⟩

theorem own (hapart : fields.Pairwise Field.Apart) {key : OptionalKey ρ}
    (h : Defaults fields blank key made)
    (hput : ∀ found record, place.put found (made record) = made (place.put found record)) :
    Tolerates (withPart fields blank origin rest place) key :=
  ⟨made, .own hapart (h.accepts origin) hput, .own hapart (h.accepts origin) h.unchanged hput,
    h.blank⟩

theorem inside {key : OptionalKey β} (h : Tolerates rest key)
    (hforeign : field? fields key.key = none) :
    Tolerates (withPart fields blank origin rest place) (key.inside place.get) := by
  obtain ⟨f, habsorbs, hsettles, hblank⟩ := h.absorbed
  have hput : ∀ found record, place.put (f found) record =
      place.put (f (place.get (place.put found record))) (place.put found record) := by
    intro found record
    rw [place.get_put, place.put_put]
  refine ⟨fun record => place.put (f (place.get record)) record,
    .behind hforeign habsorbs hput, .behind hsettles hput, fun record => ?_⟩
  show key.Blank (place.get (place.put (f (place.get record)) record))
  rw [place.get_put]
  exact hblank (place.get record)

variable {first : Reading.Members → Except DecodeError ρ}
  {second : Reading.Members → Except DecodeError β}

theorem left {key : OptionalKey ρ} (h : Tolerates first key)
    (hsecond : Absorbs second key.key .null id) :
    Tolerates (both first second) (key.inside Prod.fst) := by
  obtain ⟨f, habsorbs, hsettles, hblank⟩ := h.absorbed
  exact ⟨Prod.map f id, habsorbs.both hsecond, hsettles.both (settles_id second key.key),
    fun found => hblank found.1⟩

theorem right {key : OptionalKey β} (h : Tolerates second key)
    (hfirst : Absorbs first key.key .null id) :
    Tolerates (both first second) (key.inside Prod.snd) := by
  obtain ⟨f, habsorbs, hsettles, hblank⟩ := h.absorbed
  exact ⟨Prod.map id f, hfirst.both habsorbs, (settles_id first key.key).both hsettles,
    fun found => hblank found.2⟩

/-- The optional keys of a record with a part are its own and those of the part that it does not read
itself. -/
theorem withPart (hapart : fields.Pairwise Field.Apart) {keys : List (OptionalKey ρ)}
    {others : List (OptionalKey β)}
    (hown : ∀ key ∈ keys, ∃ made, Defaults fields blank key made ∧
      ∀ found record, place.put found (made record) = made (place.put found record))
    (hothers : ∀ key ∈ others, Tolerates rest key ∧ field? fields key.key = none) :
    ∀ key ∈ keys ++ others.map fun key => key.inside place.get,
      Tolerates (withPart fields blank origin rest place) key := by
  intro key hkey
  rcases List.mem_append.1 hkey with hkey | hkey
  · obtain ⟨made, hdefaults, hput⟩ := hown key hkey
    exact .own hapart hdefaults hput
  · obtain ⟨other, hother, rfl⟩ := List.mem_map.1 hkey
    obtain ⟨htolerates, hforeign⟩ := hothers other hother
    exact htolerates.inside hforeign

end Tolerates

/-- A record with a part ignores what neither of them knows. -/
theorem Ignores.withPart {β : Type} {fields : List (Field ρ)} {blank : ρ} {origin : Origin}
    {rest : Reading.Members → Except DecodeError β} {place : Part ρ β} {known : List String}
    (hrest : ∀ key, key ∉ known → Ignores rest key) (key : String)
    (hkey : key ∉ fields.map Field.key ++ known) :
    Ignores (withPart fields blank origin rest place) key := by
  rw [List.mem_append, not_or] at hkey
  exact .behind (field?_eq_none hkey.1) (hrest key hkey.2)

/-! ## What counts -/

section Counting

variable {decode : Reading.Members → Except DecodeError α} {known : List String}
  {optional : List (OptionalKey α)}

theorem Tolerates.of_null {key : OptionalKey α} (h : Tolerates decode key)
    {before after : Json.Members} (hkey : key.key ∉ Json.keys (before ++ after)) :
    decode (Reading.ofMembers (before ++ (key.key, .null) :: after)) =
      decode (Reading.ofMembers (before ++ after)) := by
  obtain ⟨f, habsorbs, hsettles, -⟩ := h.absorbed
  rw [habsorbs hkey]
  cases hvalue : decode (Reading.ofMembers (before ++ after)) with
  | error e => rfl
  | ok value => exact congrArg Except.ok (hsettles hkey hvalue)

theorem Tolerates.blank_of_absent {key : OptionalKey α} (h : Tolerates decode key)
    {entries : Json.Members} (hkey : key.key ∉ Json.keys entries) {value : α}
    (hvalue : decode (Reading.ofMembers entries) = .ok value) : key.Blank value := by
  obtain ⟨f, -, hsettles, hblank⟩ := h.absorbed
  have hsame : f value = value := hsettles hkey hvalue
  exact hsame ▸ hblank value

variable (htolerates : ∀ key ∈ optional, Tolerates decode key)
  (hunknown : ∀ key, key ∉ known → Ignores decode key)

include htolerates hunknown

theorem decode_of_idle {before after : Json.Members} {entry : String × Json}
    (hidle : Idle known optional entry) (hsingle : Single known (before ++ entry :: after)) :
    decode (Reading.ofMembers (before ++ entry :: after)) =
      decode (Reading.ofMembers (before ++ after)) := by
  by_cases hknown : entry.1 ∈ known
  · obtain ⟨hoptional, hnull⟩ := hidle.resolve_left (not_not_intro hknown)
    obtain ⟨key, value⟩ := entry
    obtain ⟨found, hfound, rfl⟩ := List.mem_map.1 hoptional
    cases hnull
    exact (htolerates found hfound).of_null (hsingle.not_mem_keys hknown)
  · exact hunknown entry.1 hknown entry.2 before after

/-- The members that do not count can be dropped one after the other. -/
theorem decode_counting_behind {before rest : Json.Members}
    (hsingle : Single known (before ++ rest)) :
    decode (Reading.ofMembers (before ++ counting known optional rest)) =
      decode (Reading.ofMembers (before ++ rest)) := by
  induction rest generalizing before with
  | nil => rfl
  | cons entry rest ih =>
      by_cases hidle : Idle known optional entry
      · have hcounting : counting known optional (entry :: rest) = counting known optional rest :=
          List.filter_cons_of_neg (by simp [hidle])
        rw [hcounting, ih hsingle.fewer, decode_of_idle htolerates hunknown hidle hsingle]
      · have hcounting : counting known optional (entry :: rest) =
            entry :: counting known optional rest := List.filter_cons_of_pos (by simp [hidle])
        have hmoved := @ih (before ++ [entry]) (by simpa using hsingle)
        rw [hcounting]
        simpa using hmoved

theorem decode_counting {entries : Json.Members} (hsingle : Single known entries) :
    decode (Reading.ofMembers (counting known optional entries)) =
      decode (Reading.ofMembers entries) :=
  @decode_counting_behind _ _ _ _ htolerates hunknown [] entries hsingle

end Counting

theorem idle_normalizeEntry (known : List String) (optional : List (OptionalKey α))
    (entry : String × Json) :
    Idle known optional (Json.normalizeEntry entry) ↔ Idle known optional entry :=
  or_congr_right (and_congr_right fun _ => Json.normalizeEntry_eq_null_iff)

theorem counting_map_normalizeEntry (known : List String) (optional : List (OptionalKey α))
    (entries : Json.Members) : counting known optional (entries.map Json.normalizeEntry) =
      (counting known optional entries).map Json.normalizeEntry := by
  rw [counting, List.filter_map]
  refine congrArg _ (List.filter_congr fun entry _ => ?_)
  simp [idle_normalizeEntry]

theorem counting_filter (known : List String) (optional : List (OptionalKey α))
    (entries : Json.Members) :
    counting known optional (entries.filter fun entry => entry.1 ∈ known) =
      counting known optional entries := by
  rw [counting, List.filter_filter]
  refine List.filter_congr fun entry _ => ?_
  by_cases hknown : entry.1 ∈ known <;> simp [Idle, hknown]

/-- The members that count in the normal form are those that count, each in normal form. -/
theorem counting_normalizeMembers {known : List String} {optional : List (OptionalKey α)}
    {entries : Json.Members} (hsingle : Single known entries) :
    (counting known optional (Json.normalizeMembers entries)).Perm
      ((counting known optional entries).map Json.normalizeEntry) := by
  rw [← counting_filter known optional (Json.normalizeMembers entries),
    Json.filter_normalizeMembers fun key => key ∈ known, ← counting_filter known optional entries,
    ← counting_map_normalizeEntry]
  exact (Json.normalizeMembers_perm hsingle).filter _

section Lenient

variable {decode : Decoder α} {known : List String} {optional : List (OptionalKey α)}

theorem Lenient.of_members (decodeMembers : Origin → Reading.Members → Except DecodeError α)
    (hdecode : ∀ origin entries, decode origin (.object entries) = decodeMembers origin entries)
    (hknown : ∀ key ∈ optional, key.key ∈ known)
    (htolerates : ∀ origin, ∀ key ∈ optional, Tolerates (decodeMembers origin) key)
    (hunknown : ∀ origin key, key ∉ known → Ignores (decodeMembers origin) key) :
    Lenient decode known optional := by
  have hreading : ∀ entries others : Json.Members, Single known entries → Single known others →
      counting known optional entries = counting known optional others →
      ∀ origin, decode origin (Reading.ofJson (.object others)) =
        decode origin (Reading.ofJson (.object entries)) := by
    intro entries others hsingle hsingle' hsame origin
    rw [Reading.ofJson, Reading.ofJson, hdecode, hdecode,
      ← decode_counting (htolerates origin) (hunknown origin) hsingle, hsame,
      decode_counting (htolerates origin) (hunknown origin) hsingle']
  have hblank : ∀ entries : Json.Members, Single known entries → ∀ key ∈ optional,
      key.key ∉ Json.keys entries ∨ (key.key, .null) ∈ entries → ∀ origin value,
      decode origin (Reading.ofJson (.object entries)) = .ok value → key.Blank value := by
    intro entries hsingle key hkey hentries origin value hvalue
    rw [Reading.ofJson, hdecode] at hvalue
    rcases hentries with habsent | hnull
    · exact (htolerates origin key hkey).blank_of_absent habsent hvalue
    · obtain ⟨before, after, rfl⟩ := List.append_of_mem hnull
      have habsent : key.key ∉ Json.keys (before ++ after) :=
        hsingle.not_mem_keys (hknown key hkey)
      rw [(htolerates origin key hkey).of_null habsent] at hvalue
      exact (htolerates origin key hkey).blank_of_absent habsent hvalue
  refine ⟨hreading, ?_, ?_, ?_⟩
  · intro entries others hsingle hsingle' hsame
    have hnormal := ((counting_normalizeMembers hsingle).trans (hsame.map _)).trans
      (counting_normalizeMembers hsingle').symm
    have hsorted (members : Json.Members) :
        Json.Sorted (counting known optional (Json.normalizeMembers members)) :=
      (Json.sorted_normalizeMembers members).sublist List.filter_sublist
    exact hreading _ _ (.normalizeMembers entries) (.normalizeMembers others)
      ((hsorted entries).eq_of_perm (hsorted others) hnormal) .tree
  · intro entries others hsingle hsingle' hsame chars more hparse hparse'
    rw [ofText_of_parseRaw? decode hparse, ofText_of_parseRaw? decode hparse',
      hreading entries others hsingle hsingle' hsame .text]
  · intro entries hsingle key hkey hentries value hvalue
    cases hvalue with
    | reading origin h => exact hblank entries hsingle key hkey hentries origin value h
    | text chars hparse h =>
        rw [ofText_of_parseRaw? decode hparse] at h
        exact hblank entries hsingle key hkey hentries .text value h
    | document h =>
        refine hblank _ (.normalizeMembers entries) key hkey ?_ .tree value h
        rw [Json.mem_keys_normalizeMembers]
        refine hentries.imp id fun hnull => ?_
        exact (hsingle.mem_normalizeMembers (hknown key hkey) hnull :)

variable {fields : List (Field ρ)} {blank : ρ}

theorem Defaults.mem_keys {key : OptionalKey ρ} {made : ρ → ρ} (h : Defaults fields blank key made) :
    key.key ∈ fields.map Field.key := by
  obtain ⟨field, hfield, -⟩ := (h.accepts .tree).read
  obtain ⟨hmem, hkey⟩ := field?_eq_some hfield
  exact hkey ▸ List.mem_map_of_mem hmem

/-- A record that is all its own can do without the keys that have a default. -/
theorem Lenient.record (hapart : fields.Pairwise Field.Apart) {keys : List (OptionalKey ρ)}
    (hkeys : ∀ key ∈ keys, ∃ made, Defaults fields blank key made) :
    Lenient (record fields blank) (fields.map Field.key) keys :=
  .of_members _ (fun _ _ => rfl) (fun key hkey => (hkeys key hkey).elim fun _ h => h.mem_keys)
    (fun _ => .only hapart hkeys) fun _ _ hkey => .only (field?_eq_none hkey)

/-- A record with a part can do without what it can do without itself, and what the part can. -/
theorem Lenient.withPart {β : Type} {decode : Decoder ρ}
    {rest : Reading.Members → Except DecodeError β} {place : Part ρ β}
    (hdecode : ∀ origin entries, decode origin (.object entries) =
      withPart fields blank origin rest place entries)
    (hapart : fields.Pairwise Field.Apart) {keys : List (OptionalKey ρ)}
    {others : List (OptionalKey β)} {known : List String}
    (hown : ∀ key ∈ keys, ∃ made, Defaults fields blank key made ∧
      ∀ found record, place.put found (made record) = made (place.put found record))
    (hothers : ∀ key ∈ others, Tolerates rest key ∧ field? fields key.key = none)
    (hknown : ∀ key ∈ others, key.key ∈ known) (hunknown : ∀ key, key ∉ known → Ignores rest key) :
    Lenient decode (fields.map Field.key ++ known)
      (keys ++ others.map fun key => key.inside place.get) := by
  refine .of_members _ hdecode ?_ (fun _ => .withPart hapart hown hothers)
    fun _ => .withPart hunknown
  intro key hkey
  rcases List.mem_append.1 hkey with hkey | hkey
  · obtain ⟨made, hdefaults, -⟩ := hown key hkey
    exact List.mem_append_left _ hdefaults.mem_keys
  · obtain ⟨other, hother, rfl⟩ := List.mem_map.1 hkey
    exact List.mem_append_right _ (hknown other hother)

end Lenient

end Decode

end MapCatalog
