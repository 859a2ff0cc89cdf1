import MapCatalog.Json.Basic

/-! # Documents as far as they were read

What was read of a text is a tree in which a fault stands for a part without a value.  Records are decoded from such
trees in text order, so the first thing that is wrong decides the outcome, be it the text or the record.
-/

namespace MapCatalog

inductive Fault where
  /-- The text is no document here, and nothing behind this place was read. -/
  | malformed
  /-- The text is in order but stands for nothing: half a character, a number out of range, or a
  nesting too deep.  It does no harm where the part is not used. -/
  | meaningless
deriving DecidableEq

inductive Reading where
  | null
  | bool (flag : Bool)
  | number (value : Json.Number)
  | text (value : String)
  | array (items : List Reading)
  /-- A key is missing where its text stands for nothing. -/
  | object (members : List (Option String × Reading))
  | fault (cause : Fault)
deriving Inhabited

namespace Reading

abbrev Members :=
  List (Option String × Reading)

mutual

/-- Whether the text of this part was in order to its end, so that it may be passed over. -/
def wellFormed : Reading → Bool
  | .array items => wellFormedItems items
  | .object members => wellFormedMembers members
  | .fault cause => cause == .meaningless
  | _ => true

def wellFormedItems : List Reading → Bool
  | [] => true
  | item :: rest => wellFormed item && wellFormedItems rest

def wellFormedMembers : List (Option String × Reading) → Bool
  | [] => true
  | (_, value) :: rest => wellFormed value && wellFormedMembers rest

end

mutual

def toJson? : Reading → Option Json
  | .null => some .null
  | .bool flag => some (.bool flag)
  | .number value => some (.number value)
  | .text value => some (.text value)
  | .array items => (toItems? items).map .array
  | .object members => (toMembers? members).map .object
  | .fault _ => none

def toItems? : List Reading → Option (List Json)
  | [] => some []
  | item :: rest =>
      match toJson? item, toItems? rest with
      | some item, some rest => some (item :: rest)
      | _, _ => none

def toMembers? : List (Option String × Reading) → Option (List (String × Json))
  | [] => some []
  | (key, value) :: rest =>
      match key, toJson? value, toMembers? rest with
      | some key, some value, some rest => some ((key, value) :: rest)
      | _, _, _ => none

end

mutual

def ofJson : Json → Reading
  | .null => .null
  | .bool flag => .bool flag
  | .number value => .number value
  | .text value => .text value
  | .array items => .array (ofItems items)
  | .object members => .object (ofMembers members)

def ofItems : List Json → List Reading
  | [] => []
  | item :: rest => ofJson item :: ofItems rest

def ofMembers : List (String × Json) → List (Option String × Reading)
  | [] => []
  | (key, value) :: rest => (some key, ofJson value) :: ofMembers rest

end

theorem ofItems_eq_map (items : List Json) :
    ofItems items = items.map ofJson := by
  induction items with
  | nil =>
      simp [ofItems]
  | cons item rest ih =>
      simp [ofItems, ih]

theorem ofMembers_eq_map (members : Json.Members) :
    ofMembers members = members.map fun entry => (some entry.1, ofJson entry.2) := by
  induction members with
  | nil =>
      simp [ofMembers]
  | cons entry rest ih =>
      simp [ofMembers, ih]

mutual

theorem toJson?_ofJson (doc : Json) :
    toJson? (ofJson doc) = some doc := by
  cases doc with
  | null => rfl
  | bool flag => rfl
  | number value => rfl
  | text value => rfl
  | array items => simp [ofJson, toJson?, toItems?_ofItems items]
  | object members => simp [ofJson, toJson?, toMembers?_ofMembers members]

theorem toItems?_ofItems (items : List Json) :
    toItems? (ofItems items) = some items := by
  cases items with
  | nil => rfl
  | cons item rest => simp [ofItems, toItems?, toJson?_ofJson item, toItems?_ofItems rest]

theorem toMembers?_ofMembers (members : List (String × Json)) :
    toMembers? (ofMembers members) = some members := by
  match members with
  | [] => rfl
  | (key, value) :: rest =>
      simp [ofMembers, toMembers?, toJson?_ofJson value, toMembers?_ofMembers rest]

end

end Reading

end MapCatalog
