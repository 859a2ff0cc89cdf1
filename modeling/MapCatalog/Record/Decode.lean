import MapCatalog.Json.Printer
import MapCatalog.Json.Reader

/-! # Decoding records

Decoding starts from a blank record and goes through the members in their order; each field that it meets writes its
value into the record.  The first member that does not fit decides the error, then the first required field that is
missing.
-/

namespace MapCatalog

inductive DecodeError where
  | missingField (key : String)
  | duplicateField (key : String)
  | unknownVariant (name : String)
  /-- The text of a property map is no document. -/
  | propertyText
  /-- The text of a property map holds something else than an object. -/
  | propertyTextKind
  /-- Neither an object nor a text stands where a property map belongs. -/
  | propertyKind (found : Json)
  /-- A value of the wrong kind or out of range, or a malformed text. -/
  | invalidValue
deriving DecidableEq

namespace DecodeError

/--
What is wrong, without the rest of what a JSON library would say: which kind of value was expected and
which was found, which names are known, and the line and column.
-/
def message : DecodeError → String
  | .missingField key => "missing field `" ++ key ++ "`"
  | .duplicateField key => "duplicate field `" ++ key ++ "`"
  | .unknownVariant name => "unknown variant `" ++ name ++ "`"
  | .propertyText => "invalid property map"
  | .propertyTextKind => "property map string must hold a JSON object"
  | .propertyKind found => "expected a property map, found " ++ found.compact
  | .invalidValue => "invalid value"

end DecodeError

namespace Decode

/-- Whether a value is decoded while its text goes by, or from a tree that was read before. -/
inductive Origin where
  | text
  | tree
deriving DecidableEq

end Decode

/-- How a value of one type is decoded. -/
abbrev Decoder (α : Type) :=
  Decode.Origin → Reading → Except DecodeError α

namespace Decode

/-! ## Single values -/

def text : Decoder String
  | _, .text value => .ok value
  | _, _ => .error .invalidValue

def flag : Decoder Bool
  | _, .bool value => .ok value
  | _, _ => .error .invalidValue

def float : Decoder Binary64
  | _, .number (.float x) => .ok x
  | _, .number (.whole n) => .ok (Binary64.ofInt n)
  | _, _ => .error .invalidValue

/-- A whole number from `low` up to below `high`. -/
def whole (low high : Int) : Decoder Int
  | _, .number (.whole n) => if low ≤ n ∧ n < high then .ok n else .error .invalidValue
  | _, _ => .error .invalidValue

def word32 : Decoder UInt32
  | origin, value => (whole 0 (2 ^ 32) origin value).map fun n => UInt32.ofNat n.toNat

def word64 : Decoder UInt64
  | origin, value => (whole 0 (2 ^ 64) origin value).map fun n => UInt64.ofNat n.toNat

def signed64 : Decoder Int :=
  whole (-(2 ^ 63)) (2 ^ 63)

def optional {α : Type} (decode : Decoder α) : Decoder (Option α)
  | _, .null => .ok none
  | origin, value => (decode origin value).map some

def items {α : Type} (decode : Decoder α) (origin : Origin) :
    List Reading → Except DecodeError (List α)
  | [] => .ok []
  | item :: rest =>
      match decode origin item with
      | .error e => .error e
      | .ok first =>
          match items decode origin rest with
          | .error e => .error e
          | .ok more => .ok (first :: more)

def list {α : Type} (decode : Decoder α) : Decoder (List α)
  | origin, .array values => items decode origin values
  | _, _ => .error .invalidValue

/-- The value of a named variant with a payload, which has to be null. -/
def variantOf {α : Type} (found : Option α) (name : String) (payload : Reading) (alone : Bool) :
    Except DecodeError α :=
  match found with
  | none => .error (.unknownVariant name)
  | some value =>
      match payload, alone with
      | .null, true => .ok value
      | _, _ => .error .invalidValue

/--
One of several named variants: its name, or an object that maps the name to null.  In a text the name
is judged as soon as it is read; in a tree an object with further members is refused first.
-/
def variant {α : Type} (lookup : String → Option α) : Decoder α
  | _, .text name =>
      match lookup name with
      | some value => .ok value
      | none => .error (.unknownVariant name)
  | .text, .object ((some name, payload) :: rest) =>
      variantOf (lookup name) name payload rest.isEmpty
  | .tree, .object [(some name, payload)] => variantOf (lookup name) name payload true
  | _, _ => .error .invalidValue

/-! ## Fields -/

structure Field (ρ : Type) where
  key : String
  required : Bool
  /-- Decode a value into the change it makes to a record. -/
  read : Decoder (ρ → ρ)

namespace Field

variable {ρ α : Type}

def needed (key : String) (decode : Decoder α) (set : α → ρ → ρ) : Field ρ :=
  ⟨key, true, fun origin value => (decode origin value).map set⟩

/-- A field that may be left out, but not be null. -/
def given (key : String) (decode : Decoder α) (set : α → ρ → ρ) : Field ρ :=
  ⟨key, false, fun origin value => (decode origin value).map set⟩

/-- A field that may be left out; null stands for the empty value. -/
def nullable [Inhabited α] (key : String) (decode : Decoder α) (set : α → ρ → ρ) : Field ρ :=
  ⟨key, false, fun origin value =>
    match value with
    | .null => .ok (set default)
    | value => (decode origin value).map set⟩

end Field

def field? {ρ : Type} (fields : List (Field ρ)) (key : String) : Option (Field ρ) :=
  fields.find? fun field => field.key == key

/-- The first required field whose key was not seen. -/
def firstMissing? {ρ : Type} (fields : List (Field ρ)) (seen : List String) : Option String :=
  (fields.find? fun field => field.required && !seen.contains field.key).map Field.key

/-! ## Records -/

inductive Others where
  /-- They are passed over. -/
  | skipped
  /-- They are kept aside for the parts of the record. -/
  | kept
deriving DecidableEq

namespace Others

def allows : Others → Reading → Bool
  | .skipped, value => value.wellFormed
  | .kept, value => value.toJson?.isSome

/-- The members aside, once one more was met. -/
def keep (others : Others) (entry : Option String × Reading) (aside : Reading.Members) :
    Reading.Members :=
  match others with
  | .skipped => aside
  | .kept => entry :: aside

end Others

/-- Where a record stands after its members were gone through. -/
structure Visited (ρ : Type) where
  record : ρ
  seen : List String
  aside : Reading.Members

variable {ρ : Type}

def visit (fields : List (Field ρ)) (others : Others) (origin : Origin) :
    List String → ρ → Reading.Members → Except DecodeError (Visited ρ)
  | seen, record, [] => .ok ⟨record, seen, []⟩
  | _, _, (none, _) :: _ => .error .invalidValue
  | seen, record, (some key, value) :: rest =>
      match field? fields key with
      | some field =>
          if seen.contains key then
            .error (.duplicateField key)
          else
            match field.read origin value with
            | .error e => .error e
            | .ok change => visit fields others origin (key :: seen) (change record) rest
      | none =>
          if others.allows value then
            match visit fields others origin seen record rest with
            | .error e => .error e
            | .ok visited =>
                .ok { visited with aside := others.keep (some key, value) visited.aside }
          else
            .error .invalidValue

/-- Go through members and then look for a required field that is missing. -/
def members (fields : List (Field ρ)) (blank : ρ) (others : Others) (origin : Origin)
    (entries : Reading.Members) : Except DecodeError (ρ × Reading.Members) :=
  match visit fields others origin [] blank entries with
  | .error e => .error e
  | .ok visited =>
      match firstMissing? fields visited.seen with
      | some key => .error (.missingField key)
      | none => .ok (visited.record, visited.aside)

/-- The items of an array taken as the fields in their order; required fields cannot be left out. -/
def positional (origin : Origin) : List (Field ρ) → ρ → List Reading → Except DecodeError ρ
  | [], record, [] => .ok record
  | [], _, _ :: _ => .error .invalidValue
  | field :: fields, record, [] =>
      if field.required then .error .invalidValue else positional origin fields record []
  | field :: fields, record, item :: rest =>
      match field.read origin item with
      | .error e => .error e
      | .ok change => positional origin fields (change record) rest

/-- A record whose members are all its own: an object, or an array of its fields in order. -/
def record (fields : List (Field ρ)) (blank : ρ) : Decoder ρ
  | origin, .object entries => (members fields blank .skipped origin entries).map Prod.fst
  | origin, .array values => positional origin fields blank values
  | _, _ => .error .invalidValue

def part (fields : List (Field ρ)) (blank : ρ) (aside : Reading.Members) : Except DecodeError ρ :=
  (members fields blank .skipped .tree aside).map Prod.fst

/-! ## Whole documents -/

/-- Decode a document, whose members are gone through sorted by key. -/
def ofJson {α : Type} (decode : Decoder α) (doc : Json) : Except DecodeError α :=
  decode .tree (Reading.ofJson doc.normalize)

/-- Decode a text, whose members are gone through as they stand there. -/
def ofText {α : Type} (decode : Decoder α) (chars : List Char) : Except DecodeError α :=
  let document := Json.read chars
  match decode .text document.root with
  | .error e => .error e
  | .ok value => if document.ended then .ok value else .error .invalidValue

end Decode

end MapCatalog
