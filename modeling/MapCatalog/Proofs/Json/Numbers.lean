import MapCatalog.Json.Reader
import MapCatalog.Proofs.Binary64.Finite
import MapCatalog.Proofs.Json.RoundTrip

/-!
# The numbers of a document

Whatever holds of the value of every numeral holds of every number that is read from a text, and goes on
to hold when the document is brought into normal form.  Above all, numbers are in range: a whole number
has 64 bits and no other number is infinite.  A document in range is read back from its text as long as
its floats are and it does not nest too deep.
-/

namespace MapCatalog

/-! ## Numerals -/

namespace Json

/-- A number as a document can have it: a whole number of 64 bits, signed or not, or a finite number. -/
def Number.InRange : Number → Prop
  | .whole n => -(2 ^ 63) ≤ n ∧ n < 2 ^ 64
  | .float x => x.isFinite = true

namespace Numeral

theorem gather_lt {significand : Nat} (h : significand < 2 ^ 64) (digits : List Nat) :
    (gather significand digits).1 < 2 ^ 64 := by
  induction digits generalizing significand with
  | nil =>
      exact h
  | cons digit rest ih =>
      rw [gather]
      split
      case isTrue hroom => exact ih hroom
      case isFalse => exact h

theorem inRange_of_value? {numeral : Numeral} {value : Number} (h : numeral.value? = some value) :
    value.InRange := by
  have hwhole : (gather 0 numeral.whole).1 < 2 ^ 64 := gather_lt (by decide) numeral.whole
  unfold value? at h
  generalize gather 0 numeral.whole = gathered at h hwhole
  obtain ⟨significand, taken, left⟩ := gathered
  simp only at h hwhole
  split at h
  case h_1 =>
    split at h
    case isTrue =>
      cases h
      simp only [Number.InRange]
      omega
    case isFalse =>
      split at h
      case isTrue hrange =>
        cases h
        simp only [Number.InRange]
        omega
      case isFalse =>
        cases h
        rw [Number.InRange, Binary64.isFinite_neg]
        exact Binary64.isFinite_ofNat hwhole
  case h_2 =>
    obtain ⟨x, hx, rfl⟩ := Option.map_eq_some_iff.1 h
    exact Binary64.isFinite_ofScientific (gather_lt hwhole _) hx

end Numeral

end Json

/-! ## Readings -/

namespace Reading

mutual

/-- Every number of what was read has a property. -/
def Every (P : Json.Number → Prop) : Reading → Prop
  | .number value => P value
  | .array items => EveryItems P items
  | .object members => EveryMembers P members
  | .null | .bool _ | .text _ | .fault _ => True

def EveryItems (P : Json.Number → Prop) : List Reading → Prop
  | [] => True
  | item :: rest => Every P item ∧ EveryItems P rest

def EveryMembers (P : Json.Number → Prop) : List (Option String × Reading) → Prop
  | [] => True
  | (_, value) :: rest => Every P value ∧ EveryMembers P rest

end

section

variable {P : Json.Number → Prop}

theorem everyItems_iff (items : List Reading) :
    EveryItems P items ↔ ∀ item ∈ items, item.Every P := by
  induction items with
  | nil =>
      simp [EveryItems]
  | cons item rest ih =>
      simp [EveryItems, ih]

theorem everyMembers_iff (members : Members) :
    EveryMembers P members ↔ ∀ entry ∈ members, entry.2.Every P := by
  induction members with
  | nil =>
      simp [EveryMembers]
  | cons entry rest ih =>
      simp [EveryMembers, ih]

theorem every_enclose (room : Nat) {container : Reading} (h : container.Every P) :
    (Json.enclose room container).Every P := by
  unfold Json.enclose
  split
  · exact h
  · split <;> simp [Every]

variable (hvalues : ∀ (numeral : Json.Numeral) value, numeral.value? = some value → P value)
include hvalues

/-- One step of the reader reads no other numbers when the steps after it do not. -/
theorem every_readValue_succ {fuel : Nat}
    (hitems : ∀ room chars, EveryItems P (Json.readItems fuel room chars).1)
    (hmembers : ∀ room chars, EveryMembers P (Json.readMembers fuel room chars).1) (room : Nat)
    (chars : List Char) : (Json.readValue (fuel + 1) room chars).1.Every P := by
  rw [Json.readValue]
  split
  case h_4 =>
    split
    case h_1 body rest _ => cases body <;> simp [Json.ofQuotation, Every]
    case h_2 => simp [Every]
  case h_5 rest _ =>
    split
    · exact every_enclose room (by simp [Every, EveryItems])
    · exact every_enclose room (hitems (room - 1) _)
  case h_6 rest _ =>
    split
    · exact every_enclose room (by simp [Every, EveryMembers])
    · exact every_enclose room (hmembers (room - 1) _)
  case h_7 =>
    split
    case h_1 =>
      split
      case h_1 value hvalue => exact hvalues _ value hvalue
      case h_2 => simp [Every]
    case h_2 => simp [Every]
  all_goals simp [Every]

omit hvalues

theorem every_readItems_succ {fuel : Nat}
    (hvalue : ∀ room chars, (Json.readValue fuel room chars).1.Every P)
    (hitems : ∀ room chars, EveryItems P (Json.readItems fuel room chars).1) (room : Nat)
    (chars : List Char) : EveryItems P (Json.readItems (fuel + 1) room chars).1 := by
  rw [Json.readItems]
  have hfirst := hvalue room chars
  generalize Json.readValue fuel room chars = read at hfirst
  obtain ⟨item, rest⟩ := read
  simp only
  split
  case h_1 => exact ⟨hfirst, hitems room _⟩
  case h_2 => exact ⟨hfirst, trivial⟩
  case h_3 => exact ⟨hfirst, by simp [Every, EveryItems]⟩

theorem every_readMembers_succ {fuel : Nat}
    (hvalue : ∀ room chars, (Json.readValue fuel room chars).1.Every P)
    (hmembers : ∀ room chars, EveryMembers P (Json.readMembers fuel room chars).1) (room : Nat)
    (chars : List Char) : EveryMembers P (Json.readMembers (fuel + 1) room chars).1 := by
  have hbroken (key : Option String) : EveryMembers P [Json.brokenMember key] := by
    simp [Json.brokenMember, EveryMembers, Every]
  rw [Json.readMembers]
  split
  case h_2 => exact hbroken none
  case h_1 =>
    split
    case h_1 => exact hbroken none
    case h_2 =>
      simp only
      split
      case h_2 => exact hbroken _
      case h_1 rest _ =>
        have hfirst := hvalue room rest
        generalize Json.readValue fuel room rest = read at hfirst
        obtain ⟨value, rest⟩ := read
        simp only
        split
        case h_1 => exact ⟨hfirst, hmembers room _⟩
        case h_2 => exact ⟨hfirst, trivial⟩
        case h_3 => exact ⟨hfirst, hbroken none⟩

include hvalues

theorem every_reader (fuel : Nat) :
    (∀ room chars, (Json.readValue fuel room chars).1.Every P) ∧
      (∀ room chars, EveryItems P (Json.readItems fuel room chars).1) ∧
      ∀ room chars, EveryMembers P (Json.readMembers fuel room chars).1 := by
  induction fuel with
  | zero =>
      simp [Json.readValue, Json.readItems, Json.readMembers, Json.brokenMember, Every,
        EveryItems, EveryMembers]
  | succ fuel ih =>
      obtain ⟨hvalue, hitems, hmembers⟩ := ih
      exact ⟨every_readValue_succ hvalues hitems hmembers, every_readItems_succ hvalue hitems,
        every_readMembers_succ hvalue hmembers⟩

/-- What holds of the values of numerals holds of the numbers that are read from a text. -/
theorem every_read (chars : List Char) : (Json.read chars).root.Every P := by
  rw [Json.read]
  exact (every_reader hvalues (2 * chars.length + 2)).1 Json.maxDepth chars

end

/-! ## Documents -/

mutual

/-- What was read without a fault is the document. -/
theorem ofJson_of_toJson? {reading : Reading} {doc : Json} (h : reading.toJson? = some doc) :
    ofJson doc = reading := by
  match reading with
  | .null | .bool flag | .number value | .text value =>
      cases h
      rfl
  | .array items =>
      obtain ⟨docs, hdocs, rfl⟩ := Option.map_eq_some_iff.1 h
      rw [ofJson, ofItems_of_toItems? hdocs]
  | .object members =>
      obtain ⟨docs, hdocs, rfl⟩ := Option.map_eq_some_iff.1 h
      rw [ofJson, ofMembers_of_toMembers? hdocs]
  | .fault _ =>
      cases h

theorem ofItems_of_toItems? {items : List Reading} {docs : List Json}
    (h : toItems? items = some docs) : ofItems docs = items := by
  match items with
  | [] =>
      cases h
      rfl
  | item :: rest =>
      rw [toItems?] at h
      split at h
      case h_1 doc others hitem hrest =>
        cases h
        rw [ofItems, ofJson_of_toJson? hitem, ofItems_of_toItems? hrest]
      case h_2 => cases h

theorem ofMembers_of_toMembers? {members : Members} {docs : Json.Members}
    (h : toMembers? members = some docs) : ofMembers docs = members := by
  match members with
  | [] =>
      cases h
      rfl
  | (key, value) :: rest =>
      unfold toMembers? at h
      split at h
      case h_1 name doc others hvalue hrest =>
        cases h
        rw [ofMembers, ofJson_of_toJson? hvalue, ofMembers_of_toMembers? hrest]
      case h_2 => cases h

end

end Reading

namespace Json

variable {P Q : Number → Prop}

/-- Every number of a document has a property. -/
def Every (P : Number → Prop) (doc : Json) : Prop :=
  (Reading.ofJson doc).Every P

/-- A text of a document was read to its end and without a fault. -/
theorem read_of_parseRaw? {chars : List Char} {doc : Json} (h : parseRaw? chars = some doc) :
    (read chars).ended = true ∧ (read chars).root = Reading.ofJson doc := by
  unfold parseRaw? at h
  simp only at h
  split at h
  case isTrue hended => exact ⟨hended, (Reading.ofJson_of_toJson? h).symm⟩
  case isFalse => cases h

theorem every_of_parseRaw?
    (hvalues : ∀ (numeral : Numeral) value, numeral.value? = some value → P value)
    {chars : List Char} {doc : Json} (h : parseRaw? chars = some doc) : doc.Every P := by
  rw [Every, ← (read_of_parseRaw? h).2]
  exact Reading.every_read hvalues chars

@[simp] theorem every_text (value : String) : (Json.text value).Every P :=
  trivial

@[simp] theorem every_number_iff (value : Number) : (Json.number value).Every P ↔ P value :=
  Iff.rfl

theorem every_array_iff (items : List Json) :
    (Json.array items).Every P ↔ ∀ item ∈ items, item.Every P := by
  rw [Every, Reading.ofJson, Reading.Every, Reading.everyItems_iff, Reading.ofItems_eq_map]
  exact List.forall_mem_map

theorem every_object_iff (members : Members) :
    (Json.object members).Every P ↔ ∀ entry ∈ members, entry.2.Every P := by
  rw [Every, Reading.ofJson, Reading.Every, Reading.everyMembers_iff, Reading.ofMembers_eq_map]
  exact List.forall_mem_map

namespace Every

theorem mono {doc : Json} (hPQ : ∀ value, P value → Q value) (h : doc.Every P) : doc.Every Q := by
  induction doc using Json.induction with
  | null | bool flag | text value => exact h
  | number value => exact hPQ value h
  | array items ih =>
      rw [every_array_iff] at h ⊢
      exact fun item hitem => ih item hitem (h item hitem)
  | object members ih =>
      rw [every_object_iff] at h ⊢
      exact fun entry hentry => ih entry hentry (h entry hentry)

theorem and {doc : Json} (hP : doc.Every P) (hQ : doc.Every Q) :
    doc.Every fun value => P value ∧ Q value := by
  induction doc using Json.induction with
  | null | bool flag | text value => exact hP
  | number value => exact ⟨hP, hQ⟩
  | array items ih =>
      rw [every_array_iff] at hP hQ ⊢
      exact fun item hitem => ih item hitem (hP item hitem) (hQ item hitem)
  | object members ih =>
      rw [every_object_iff] at hP hQ ⊢
      exact fun entry hentry => ih entry hentry (hP entry hentry) (hQ entry hentry)

/-- Sorting and merging members adds no number. -/
theorem normalize {doc : Json} (h : doc.Every P) : doc.normalize.Every P := by
  induction doc using Json.induction with
  | null | bool flag | number value | text value => exact h
  | array items ih =>
      rw [every_array_iff] at h
      rw [Json.normalize, normalizeItems_eq_map, every_array_iff, List.forall_mem_map]
      exact fun item hitem => ih item hitem (h item hitem)
  | object members ih =>
      rw [every_object_iff] at h
      rw [Json.normalize, every_object_iff]
      intro entry hentry
      obtain ⟨value, hvalue, hnormal⟩ := mem_normalizeMembers hentry
      rw [hnormal]
      exact ih _ hvalue (h _ hvalue)

end Every

/-! ## Reading back -/

mutual

/-- How many levels of containers a document has. -/
def nesting : Json → Nat
  | .array items => nestingItems items + 1
  | .object members => nestingMembers members + 1
  | .null | .bool _ | .number _ | .text _ => 0

def nestingItems : List Json → Nat
  | [] => 0
  | item :: rest => max (nesting item) (nestingItems rest)

def nestingMembers : List (String × Json) → Nat
  | [] => 0
  | (_, value) :: rest => max (nesting value) (nestingMembers rest)

end

theorem nestingItems_le_iff {items : List Json} {room : Nat} :
    nestingItems items ≤ room ↔ ∀ item ∈ items, item.nesting ≤ room := by
  induction items with
  | nil =>
      simp [nestingItems]
  | cons item rest ih =>
      simp [nestingItems, ih]

theorem nestingMembers_le_iff {members : Members} {room : Nat} :
    nestingMembers members ≤ room ↔ ∀ entry ∈ members, entry.2.nesting ≤ room := by
  induction members with
  | nil =>
      simp [nestingMembers]
  | cons entry rest ih =>
      simp [nestingMembers, ih]

/-- A document whose numbers are read back is readable where it does not nest too deep. -/
theorem readable_of_nesting {doc : Json} {room : Nat} (hnesting : doc.nesting ≤ room)
    (hnumbers : doc.Every Number.ReadsBack) : doc.Readable room := by
  induction doc using Json.induction generalizing room with
  | null | bool flag | text value =>
      rw [Readable]
      trivial
  | number value =>
      rw [Readable]
      exact hnumbers
  | array items ih =>
      rw [every_array_iff] at hnumbers
      rw [nesting] at hnesting
      rw [Readable, readableItems_iff]
      refine ⟨by omega, fun item hitem => ih item hitem ?_ (hnumbers item hitem)⟩
      exact nestingItems_le_iff.1 (by omega) item hitem
  | object members ih =>
      rw [every_object_iff] at hnumbers
      rw [nesting] at hnesting
      rw [Readable, readableMembers_iff]
      refine ⟨by omega, fun entry hentry => ih entry hentry ?_ (hnumbers entry hentry)⟩
      exact nestingMembers_le_iff.1 (by omega) entry hentry

/-- A number that is read back from its printed form if it is a float. -/
def Number.FloatReadsBack : Number → Prop
  | .whole _ => True
  | .float x => (Number.float x).ReadsBack

theorem Number.readsBack_of_inRange {value : Number} (h : value.InRange)
    (hfloat : value.FloatReadsBack) : value.ReadsBack := by
  cases value with
  | whole n => exact readsBack_whole h.1 h.2
  | float x => exact hfloat

/-- Members as an object holds them: sorted by key on every level, and with numbers in range. -/
structure IsMap (members : Members) : Prop where
  normal : normalizeMembers members = members
  inRange : (Json.object members).Every Number.InRange

/-- What a text has to be for the map that it holds to be found in it. -/
structure Legible (members : Members) : Prop where
  shallow : (Json.object members).nesting ≤ maxDepth
  floats : (Json.object members).Every Number.FloatReadsBack

theorem isMap_nil : IsMap [] :=
  ⟨rfl, trivial⟩

/-- The object in a document in normal form is a map. -/
theorem isMap_of_normalize {doc : Json} {members : Members} (hdoc : doc.Every Number.InRange)
    (h : doc.normalize = .object members) : IsMap members where
  normal := by
    have hnormal := normalize_normalize doc
    rw [h] at hnormal
    simpa only [Json.normalize, Json.object.injEq] using hnormal
  inRange := h ▸ hdoc.normalize

/-- A map is found in its compact text. -/
theorem IsMap.parse?_compact {members : Members} (h : IsMap members) (hlegible : Legible members) :
    parse? (Json.object members).compact = some (.object members) := by
  have hnumbers : (Json.object members).Every Number.ReadsBack :=
    (h.inRange.and hlegible.floats).mono fun _ hvalue =>
      Number.readsBack_of_inRange hvalue.1 hvalue.2
  have hread := read_compactChars (readable_of_nesting hlegible.shallow hnumbers)
  simp [parse?, parseRaw?, compact, hread, Reading.toJson?_ofJson, Json.normalize, h.normal]

end Json

end MapCatalog
