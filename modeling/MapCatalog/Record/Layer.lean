import MapCatalog.Record.Id
import MapCatalog.Record.Camera
import MapCatalog.Record.VisualType
import MapCatalog.Record.HoverRow
import MapCatalog.Record.Source

/-! # Layers -/

namespace MapCatalog

/-- What can be edited of a layer: everything but its identity, its group and its place. -/
structure LayerFields where
  name : String
  visualType : VisualType
  label : String
  iconColor : String
  iconType : String
  camera : Camera
  groupName : String
  topLayerClass : String
  infoId : String
  sourceType : String
  sourceUrl : String
  sourceId : String
  sourceLayer : String
  source : Source
  /-- The text of the paint properties. -/
  paint : String
  /-- The text of the layout properties. -/
  layout : String
  hover : Bool
  click : Bool
  time : Bool
  hoverStyle : String
  clickStyle : String
  clickHeader : String
  hoverContent : List HoverRow
deriving DecidableEq, Inhabited

namespace LayerFields

def emptyMap : String :=
  "\x7b\x7d"

def named (name : String) (visualType : VisualType) (source : Source) : LayerFields :=
  { (default : LayerFields) with
    name := name
    visualType := visualType
    sourceType := source.kind
    sourceUrl := source.location
    source := source
    paint := emptyMap
    layout := emptyMap }

def blank : LayerFields :=
  named "" default default

def ownFields : List (Decode.Field LayerFields) :=
  [.nullable "name" Decode.text fun v l => { l with name := v },
   .needed "type" VisualType.decode fun v l => { l with visualType := v },
   .nullable "label" Decode.text fun v l => { l with label := v },
   .nullable "iconColor" Decode.text fun v l => { l with iconColor := v },
   .nullable "iconType" Decode.text fun v l => { l with iconType := v },
   .nullable "groupName" Decode.text fun v l => { l with groupName := v },
   .nullable "topLayerClass" Decode.text fun v l => { l with topLayerClass := v },
   .nullable "infoId" Decode.text fun v l => { l with infoId := v },
   .nullable "sourceType" Decode.text fun v l => { l with sourceType := v },
   .nullable "sourceUrl" Decode.text fun v l => { l with sourceUrl := v },
   .nullable "sourceId" Decode.text fun v l => { l with sourceId := v },
   .nullable "sourceLayer" Decode.text fun v l => { l with sourceLayer := v },
   .needed "source" Source.decode fun v l => { l with source := v },
   .given "paint" Decode.text fun v l => { l with paint := v },
   .given "layout" Decode.text fun v l => { l with layout := v },
   .nullable "hover" Decode.flag fun v l => { l with hover := v },
   .nullable "click" Decode.flag fun v l => { l with click := v },
   .nullable "time" Decode.flag fun v l => { l with time := v },
   .nullable "hoverStyle" Decode.text fun v l => { l with hoverStyle := v },
   .nullable "clickStyle" Decode.text fun v l => { l with clickStyle := v },
   .nullable "clickHeader" Decode.text fun v l => { l with clickHeader := v },
   .nullable "hoverContent" (Decode.list HoverRow.decode) fun v l => { l with hoverContent := v }]

def decodeMembers (origin : Decode.Origin) (entries : Reading.Members) :
    Except DecodeError LayerFields := do
  let (fields, aside) ← Decode.members ownFields blank .kept origin entries
  let camera ← Decode.part Camera.fields default aside
  return { fields with camera := camera }

def decode : Decoder LayerFields
  | origin, .object entries => decodeMembers origin entries
  | _, _ => .error .invalidValue

def toMembers (l : LayerFields) : Json.Members :=
  [("name", .text l.name),
   ("type", l.visualType.toJson),
   ("label", .text l.label),
   ("iconColor", .text l.iconColor),
   ("iconType", .text l.iconType)] ++
  l.camera.toMembers ++
  [("groupName", .text l.groupName),
   ("topLayerClass", .text l.topLayerClass),
   ("infoId", .text l.infoId),
   ("sourceType", .text l.sourceType),
   ("sourceUrl", .text l.sourceUrl),
   ("sourceId", .text l.sourceId),
   ("sourceLayer", .text l.sourceLayer),
   ("source", l.source.toJson),
   ("paint", .text l.paint),
   ("layout", .text l.layout),
   ("hover", .bool l.hover),
   ("click", .bool l.click),
   ("time", .bool l.time),
   ("hoverStyle", .text l.hoverStyle),
   ("clickStyle", .text l.clickStyle),
   ("clickHeader", .text l.clickHeader),
   ("hoverContent", .array (l.hoverContent.map HoverRow.toJson))]

def toJson (l : LayerFields) : Json :=
  .object l.toMembers

def validate (l : LayerFields) : Except RecordError Unit :=
  if Text.allBlank l.name then .error (.missing .layers "name") else .ok ()

def mapText (l : LayerFields) : StyleMap → String
  | .paint => l.paint
  | .layout => l.layout

/-- The properties that a stored text holds; a blank text holds none. -/
def storedMap (which : StyleMap) (text : String) : Except RecordError Json.Members :=
  if Text.allBlank text then
    .ok []
  else
    match Json.parse? text with
    | some (.object members) => .ok members
    | _ => .error (.storedMap which)

def map (l : LayerFields) (which : StyleMap) : Except RecordError Json.Members :=
  storedMap which (l.mapText which)

end LayerFields

/-- A layer of the catalogue. -/
structure LayerRecord where
  id : LayerId
  groupId : GroupId
  /-- The place among the layers of the group, counted from zero. -/
  order : UInt32
  fields : LayerFields
deriving DecidableEq, Inhabited

namespace LayerRecord

/-- The fields that a stored layer has beside the editable ones. -/
def ownFields : List (Decode.Field LayerRecord) :=
  [.needed "id" Id.decode fun v l => { l with id := v },
   .needed "layerGroupId" Id.decode fun v l => { l with groupId := v },
   .needed "order" Decode.word32 fun v l => { l with order := v }]

def decodeMembers (origin : Decode.Origin) (entries : Reading.Members) :
    Except DecodeError LayerRecord := do
  let (layer, aside) ← Decode.members ownFields default .kept origin entries
  let fields ← LayerFields.decodeMembers .tree aside
  return { layer with fields := fields }

def decode : Decoder LayerRecord
  | origin, .object entries => decodeMembers origin entries
  | _, _ => .error .invalidValue

def toMembers (l : LayerRecord) : Json.Members :=
  [("id", l.id.toJson),
   ("layerGroupId", l.groupId.toJson),
   ("order", .ofNat l.order.toNat)] ++ l.fields.toMembers

def toJson (l : LayerRecord) : Json :=
  .object l.toMembers

end LayerRecord

end MapCatalog
