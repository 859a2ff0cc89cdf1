import MapCatalog.Record.Id
import MapCatalog.Record.Camera

/-! # Groups -/

namespace MapCatalog

structure GroupFields where
  name : String
  sectionId : SectionId
  camera : Camera
  infoId : String
deriving DecidableEq, Inhabited

namespace GroupFields

def named (name : String) (sectionId : SectionId) : GroupFields :=
  ⟨name, sectionId, default, ""⟩

def ownFields : List (Decode.Field GroupFields) :=
  [.nullable "name" Decode.text fun v g => { g with name := v },
   .needed "layerSectionId" Id.decode fun v g => { g with sectionId := v },
   .nullable "infoId" Decode.text fun v g => { g with infoId := v }]

def decodeMembers (origin : Decode.Origin) (entries : Reading.Members) :
    Except DecodeError GroupFields := do
  let (fields, aside) ← Decode.members ownFields default .kept origin entries
  let camera ← Decode.part Camera.fields default aside
  return { fields with camera := camera }

def decode : Decoder GroupFields
  | origin, .object entries => decodeMembers origin entries
  | _, _ => .error .invalidValue

def toMembers (g : GroupFields) : Json.Members :=
  [("name", .text g.name), ("layerSectionId", g.sectionId.toJson)] ++ g.camera.toMembers ++
    [("infoId", .text g.infoId)]

def toJson (g : GroupFields) : Json :=
  .object g.toMembers

def validate (g : GroupFields) : Except RecordError Unit :=
  if Text.allBlank g.name then .error (.missing .groups "name") else .ok ()

end GroupFields

structure GroupRecord where
  id : GroupId
  fields : GroupFields
deriving DecidableEq, Inhabited

namespace GroupRecord

def ownFields : List (Decode.Field GroupId) :=
  [.needed "id" Id.decode fun v _ => v]

def decodeMembers (origin : Decode.Origin) (entries : Reading.Members) :
    Except DecodeError GroupRecord := do
  let (id, aside) ← Decode.members ownFields default .kept origin entries
  let fields ← GroupFields.decodeMembers .tree aside
  return ⟨id, fields⟩

def decode : Decoder GroupRecord
  | origin, .object entries => decodeMembers origin entries
  | _, _ => .error .invalidValue

def toMembers (g : GroupRecord) : Json.Members :=
  ("id", g.id.toJson) :: g.fields.toMembers

def toJson (g : GroupRecord) : Json :=
  .object g.toMembers

end GroupRecord

end MapCatalog
