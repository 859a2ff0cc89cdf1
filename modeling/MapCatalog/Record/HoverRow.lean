import MapCatalog.Record.Decode

/-! # Hover rows -/

namespace MapCatalog

inductive HoverField where
  | name
  | lot
  | dateStart
  | dateEnd
  | address
  /-- No field was picked yet. -/
  | unset
deriving DecidableEq

instance : Inhabited HoverField :=
  ⟨.unset⟩

namespace HoverField

def all : List HoverField :=
  [.name, .lot, .dateStart, .dateEnd, .address, .unset]

def code : HoverField → String
  | .name => "NAME"
  | .lot => "LOT"
  | .dateStart => "DATE-START"
  | .dateEnd => "DATE-END"
  | .address => "ADDRESS"
  | .unset => ""

def ofCode? (code : String) : Option HoverField :=
  all.find? fun field => field.code == code

theorem ofCode?_code (field : HoverField) :
    ofCode? field.code = some field := by
  cases field <;> decide

def decode : Decoder HoverField :=
  Decode.variant ofCode?

end HoverField

structure HoverRow where
  label : String
  field : HoverField
deriving DecidableEq, Inhabited

namespace HoverRow

def fields : List (Decode.Field HoverRow) :=
  [.nullable "label" Decode.text fun v r => { r with label := v },
   .nullable "type" HoverField.decode fun v r => { r with field := v }]

def decode : Decoder HoverRow :=
  Decode.record fields default

def toMembers (row : HoverRow) : Json.Members :=
  [("label", .text row.label), ("type", .text row.field.code)]

def toJson (row : HoverRow) : Json :=
  .object row.toMembers

end HoverRow

end MapCatalog
