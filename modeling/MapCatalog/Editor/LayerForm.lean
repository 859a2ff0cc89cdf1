import MapCatalog.Record.Layer
import MapCatalog.Style.Compile

/-! # Layer forms -/

namespace MapCatalog

/-- A submitted layer. -/
structure LayerForm where
  groupId : Option GroupId
  name : String
  visualType : VisualType
  label : String
  iconColor : String
  iconType : String
  camera : Camera
  groupName : String
  topLayerClass : String
  infoId : String
  sourceType : String
  sourceUrl : String
  sourceId : String
  sourceLayer : String
  hover : Bool
  click : Bool
  time : Bool
  hoverStyle : String
  clickStyle : String
  clickHeader : String
  hoverContent : List HoverRow
  style : StyleForm
deriving DecidableEq, Inhabited

namespace LayerForm

/-- The fields that are neither the camera's nor the style's. -/
def ownFields : List (Decode.Field LayerForm) :=
  [.given "layerGroupId" (Decode.optional Id.decode) fun v l => { l with groupId := v },
   .nullable "name" Decode.text fun v l => { l with name := v },
   .needed "type" VisualType.decode fun v l => { l with visualType := v },
   .nullable "label" Decode.text fun v l => { l with label := v },
   .nullable "iconColor" Decode.text fun v l => { l with iconColor := v },
   .nullable "iconType" Decode.text fun v l => { l with iconType := v },
   .nullable "groupName" Decode.text fun v l => { l with groupName := v },
   .nullable "topLayerClass" Decode.text fun v l => { l with topLayerClass := v },
   .nullable "infoId" Decode.text fun v l => { l with infoId := v },
   .nullable "sourceType" Decode.text fun v l => { l with sourceType := v },
   .nullable "sourceUrl" Decode.text fun v l => { l with sourceUrl := v },
   .nullable "sourceId" Decode.text fun v l => { l with sourceId := v },
   .nullable "sourceLayer" Decode.text fun v l => { l with sourceLayer := v },
   .nullable "hover" Decode.flag fun v l => { l with hover := v },
   .nullable "click" Decode.flag fun v l => { l with click := v },
   .nullable "time" Decode.flag fun v l => { l with time := v },
   .nullable "hoverStyle" Decode.text fun v l => { l with hoverStyle := v },
   .nullable "clickStyle" Decode.text fun v l => { l with clickStyle := v },
   .nullable "clickHeader" Decode.text fun v l => { l with clickHeader := v },
   .nullable "hoverContent" (Decode.list HoverRow.decode) fun v l => { l with hoverContent := v }]

def decodeMembers (origin : Decode.Origin) (entries : Reading.Members) :
    Except DecodeError LayerForm := do
  let (form, aside) ← Decode.members ownFields default .kept origin entries
  let camera ← Decode.part Camera.fields default aside
  let style ← Decode.part StyleForm.fields StyleForm.standard aside
  return { form with camera := camera, style := style }

def decode : Decoder LayerForm
  | origin, .object entries => decodeMembers origin entries
  | _, _ => .error .invalidValue

def toMembers (l : LayerForm) : Json.Members :=
  [("layerGroupId", (l.groupId.map Id.toJson).getD .null),
   ("name", .text l.name),
   ("type", l.visualType.toJson),
   ("label", .text l.label),
   ("iconColor", .text l.iconColor),
   ("iconType", .text l.iconType)] ++
  l.camera.toMembers ++
  [("groupName", .text l.groupName),
   ("topLayerClass", .text l.topLayerClass),
   ("infoId", .text l.infoId),
   ("sourceType", .text l.sourceType),
   ("sourceUrl", .text l.sourceUrl),
   ("sourceId", .text l.sourceId),
   ("sourceLayer", .text l.sourceLayer),
   ("hover", .bool l.hover),
   ("click", .bool l.click),
   ("time", .bool l.time),
   ("hoverStyle", .text l.hoverStyle),
   ("clickStyle", .text l.clickStyle),
   ("clickHeader", .text l.clickHeader),
   ("hoverContent", .array (l.hoverContent.map HoverRow.toJson))] ++
  l.style.toMembers

def toJson (l : LayerForm) : Json :=
  .object l.toMembers

def group (l : LayerForm) : Except RecordError GroupId :=
  match l.groupId with
  | some group => .ok group
  | none => .error (.missing .layers "layerGroupId")

def toFields (l : LayerForm) : Except StyleError LayerFields :=
  match l.style.compile l.visualType with
  | .error e => .error e
  | .ok compiled => .ok
    { name := l.name
      visualType := l.visualType
      label := l.label
      iconColor := l.iconColor
      iconType := l.iconType
      camera := l.camera
      groupName := l.groupName
      topLayerClass := l.topLayerClass
      infoId := l.infoId
      sourceType := l.sourceType
      sourceUrl := l.sourceUrl
      sourceId := l.sourceId
      sourceLayer := l.sourceLayer
      source := Source.resolve l.sourceType l.sourceUrl
      paint := compiled.paintText
      layout := compiled.layoutText
      hover := l.hover
      click := l.click
      time := l.time
      hoverStyle := l.hoverStyle
      clickStyle := l.clickStyle
      clickHeader := l.clickHeader
      hoverContent := l.hoverContent }

end LayerForm

end MapCatalog
