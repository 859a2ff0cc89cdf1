import MapCatalog.Proofs.Json.Numbers

/-! # Documents without infinities -/

namespace MapCatalog

namespace Json

def Number.Finite : Number → Prop
  | .whole n => n.natAbs < 2 ^ 64
  | .float x => x.isFinite = true

theorem Number.InRange.finite {value : Number} (h : value.InRange) : value.Finite := by
  cases value with
  | whole n =>
      simp only [InRange, Finite] at h ⊢
      omega
  | float x => exact h

end Json

/-! ## Readings -/

namespace Reading

mutual

def Finite : Reading → Prop
  | .number value => value.Finite
  | .array items => FiniteItems items
  | .object members => FiniteMembers members
  | .null | .bool _ | .text _ | .fault _ => True

def FiniteItems : List Reading → Prop
  | [] => True
  | item :: rest => Finite item ∧ FiniteItems rest

def FiniteMembers : List (Option String × Reading) → Prop
  | [] => True
  | (_, value) :: rest => Finite value ∧ FiniteMembers rest

end

theorem finiteItems_iff (items : List Reading) :
    FiniteItems items ↔ ∀ item ∈ items, item.Finite := by
  induction items with
  | nil =>
      simp [FiniteItems]
  | cons item rest ih =>
      simp [FiniteItems, ih]

theorem finiteMembers_iff (members : Members) :
    FiniteMembers members ↔ ∀ entry ∈ members, entry.2.Finite := by
  induction members with
  | nil =>
      simp [FiniteMembers]
  | cons entry rest ih =>
      simp [FiniteMembers, ih]

mutual

theorem finite_iff_every (reading : Reading) : reading.Finite ↔ reading.Every Json.Number.Finite := by
  match reading with
  | .null | .bool _ | .text _ | .fault _ | .number _ => exact Iff.rfl
  | .array items => exact finiteItems_iff_every items
  | .object members => exact finiteMembers_iff_every members

theorem finiteItems_iff_every (items : List Reading) :
    FiniteItems items ↔ EveryItems Json.Number.Finite items := by
  match items with
  | [] => exact Iff.rfl
  | item :: rest => exact and_congr (finite_iff_every item) (finiteItems_iff_every rest)

theorem finiteMembers_iff_every (members : Members) :
    FiniteMembers members ↔ EveryMembers Json.Number.Finite members := by
  match members with
  | [] => exact Iff.rfl
  | (_, value) :: rest => exact and_congr (finite_iff_every value) (finiteMembers_iff_every rest)

end

theorem finite_read (chars : List Char) : (Json.read chars).root.Finite :=
  (finite_iff_every _).2 (every_read (fun _ _ h => (Json.Numeral.inRange_of_value? h).finite) chars)

end Reading

/-! ## Documents -/

namespace Json

def Finite (doc : Json) : Prop :=
  (Reading.ofJson doc).Finite

theorem finite_iff_every (doc : Json) : doc.Finite ↔ doc.Every Number.Finite :=
  Reading.finite_iff_every (Reading.ofJson doc)

theorem finite_of_inRange {doc : Json} (h : doc.Every Number.InRange) : doc.Finite :=
  (finite_iff_every doc).2 (h.mono fun _ => Number.InRange.finite)

theorem finite_of_parseRaw? {chars : List Char} {doc : Json} (h : parseRaw? chars = some doc) :
    doc.Finite :=
  finite_of_inRange (every_of_parseRaw? (fun _ _ => Numeral.inRange_of_value?) h)

theorem Finite.normalize {doc : Json} (h : doc.Finite) : doc.normalize.Finite :=
  (finite_iff_every _).2 ((finite_iff_every doc).1 h).normalize

end Json

end MapCatalog
