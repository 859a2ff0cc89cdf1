import MapCatalog.Record.Id

/-! # Sections -/

namespace MapCatalog

structure SectionFields where
  name : String
deriving DecidableEq, Inhabited

namespace SectionFields

def fields : List (Decode.Field SectionFields) :=
  [.nullable "name" Decode.text fun v s => { s with name := v }]

def decode : Decoder SectionFields :=
  Decode.record fields default

def toMembers (s : SectionFields) : Json.Members :=
  [("name", .text s.name)]

def toJson (s : SectionFields) : Json :=
  .object s.toMembers

def validate (s : SectionFields) : Except RecordError Unit :=
  if Text.allBlank s.name then .error (.missing .sections "name") else .ok ()

end SectionFields

structure SectionRecord where
  id : SectionId
  fields : SectionFields
deriving DecidableEq, Inhabited

namespace SectionRecord

def ownFields : List (Decode.Field SectionId) :=
  [.needed "id" Id.decode fun v _ => v]

def decodeMembers (origin : Decode.Origin) (entries : Reading.Members) :
    Except DecodeError SectionRecord := do
  let (id, aside) ← Decode.members ownFields default .kept origin entries
  let fields ← Decode.part SectionFields.fields default aside
  return ⟨id, fields⟩

def decode : Decoder SectionRecord
  | origin, .object entries => decodeMembers origin entries
  | _, _ => .error .invalidValue

def toMembers (s : SectionRecord) : Json.Members :=
  ("id", s.id.toJson) :: s.fields.toMembers

def toJson (s : SectionRecord) : Json :=
  .object s.toMembers

end SectionRecord

end MapCatalog
