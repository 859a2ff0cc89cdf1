import MapCatalog.Text.Blank
import MapCatalog.Style.Breakpoint

/-! # Style forms

All visual types share one form.  Every field has a default that counts when it is left out.
-/

namespace MapCatalog

/-- The submitted style fields. -/
structure StyleForm where
  fillColor : String
  fillOpacity : Binary64
  fillOutlineColor : String
  useFillZoomStyling : Bool
  textColor : String
  textHaloColor : String
  textHaloWidth : Binary64
  textSizeDefault : Binary64
  useTextSizeZoomStyling : Bool
  textField : String
  iconImage : String
  customIconImage : String
  iconSizeDefault : Binary64
  useIconSizeZoomStyling : Bool
  circleColor : String
  circleOpacity : Binary64
  circleRadius : Binary64
  circleStrokeColor : String
  circleStrokeWidth : Binary64
  lineColor : String
  lineWidth : Binary64
  lineBlur : Binary64
  lineOpacity : Binary64
  zoomLevels : List Breakpoint
  textZoomLevels : List Breakpoint
  circleRadiusZoomLevels : List Breakpoint
  lineWidthZoomLevels : List Breakpoint
  paint : Json.Members
  layout : Json.Members
deriving DecidableEq

namespace StyleForm

def defaultIcon : String :=
  "default-icon"

/-- The text of a symbol for which none was entered: the name of the feature. -/
def defaultText : String :=
  "\x7bname\x7d"

def textFont : String :=
  "Asap Medium"

def standard : StyleForm where
  fillColor := "#e3ed58"
  fillOpacity := .ofFraction 1 2
  fillOutlineColor := "#FF0000"
  useFillZoomStyling := false
  textColor := "#000080"
  textHaloColor := "#ffffff"
  textHaloWidth := .ofNat 2
  textSizeDefault := .ofNat 12
  useTextSizeZoomStyling := false
  textField := defaultText
  iconImage := defaultIcon
  customIconImage := ""
  iconSizeDefault := .ofFraction 1 2
  useIconSizeZoomStyling := false
  circleColor := "#097911"
  circleOpacity := .ofNat 1
  circleRadius := .ofNat 5
  circleStrokeColor := "#0000ee"
  circleStrokeWidth := .ofNat 2
  lineColor := "#ff9900"
  lineWidth := .ofNat 5
  lineBlur := .ofNat 0
  lineOpacity := .ofNat 1
  zoomLevels := Breakpoints.ofTenths [(6, 0), (8, 3), (12, 8), (15, 10)]
  textZoomLevels := Breakpoints.ofTenths [(8, 70), (15, 170), (20, 250)]
  circleRadiusZoomLevels := Breakpoints.ofTenths [(6, 0), (10, 30), (14, 70), (18, 120)]
  lineWidthZoomLevels := Breakpoints.ofTenths [(6, 0), (8, 5), (12, 15), (15, 25)]
  paint := []
  layout := []

instance : Inhabited StyleForm :=
  ⟨standard⟩

/-- A property map: an object, the text of an object, or nothing as null or blank text. -/
def propertyMap : Decoder Json.Members
  | _, value =>
      match value.toJson? with
      | none => .error .invalidValue
      | some .null => .ok []
      | some (.object members) => .ok (Json.normalizeMembers members)
      | some (.text text) =>
          if Text.allBlank text then
            .ok []
          else
            match Json.parse? text with
            | some (.object members) => .ok members
            | some _ => .error .propertyTextKind
            | none => .error .propertyText
      | some other => .error (.propertyKind other.normalize)

def points : Decoder (List Breakpoint) :=
  Decode.list Breakpoint.decode

def fields : List (Decode.Field StyleForm) :=
  [.given "fillColor" Decode.text fun v s => { s with fillColor := v },
   .given "fillOpacity" Decode.float fun v s => { s with fillOpacity := v },
   .given "fillOutlineColor" Decode.text fun v s => { s with fillOutlineColor := v },
   .given "useFillZoomStyling" Decode.flag fun v s => { s with useFillZoomStyling := v },
   .given "textColor" Decode.text fun v s => { s with textColor := v },
   .given "textHaloColor" Decode.text fun v s => { s with textHaloColor := v },
   .given "textHaloWidth" Decode.float fun v s => { s with textHaloWidth := v },
   .given "textSizeDefault" Decode.float fun v s => { s with textSizeDefault := v },
   .given "useTextSizeZoomStyling" Decode.flag fun v s => { s with useTextSizeZoomStyling := v },
   .given "textField" Decode.text fun v s => { s with textField := v },
   .given "iconImage" Decode.text fun v s => { s with iconImage := v },
   .given "customIconImage" Decode.text fun v s => { s with customIconImage := v },
   .given "iconSizeDefault" Decode.float fun v s => { s with iconSizeDefault := v },
   .given "useIconSizeZoomStyling" Decode.flag fun v s => { s with useIconSizeZoomStyling := v },
   .given "circleColor" Decode.text fun v s => { s with circleColor := v },
   .given "circleOpacity" Decode.float fun v s => { s with circleOpacity := v },
   .given "circleRadius" Decode.float fun v s => { s with circleRadius := v },
   .given "circleStrokeColor" Decode.text fun v s => { s with circleStrokeColor := v },
   .given "circleStrokeWidth" Decode.float fun v s => { s with circleStrokeWidth := v },
   .given "lineColor" Decode.text fun v s => { s with lineColor := v },
   .given "lineWidth" Decode.float fun v s => { s with lineWidth := v },
   .given "lineBlur" Decode.float fun v s => { s with lineBlur := v },
   .given "lineOpacity" Decode.float fun v s => { s with lineOpacity := v },
   .given "zoomLevels" points fun v s => { s with zoomLevels := v },
   .given "textZoomLevels" points fun v s => { s with textZoomLevels := v },
   .given "circleRadiusZoomLevels" points fun v s => { s with circleRadiusZoomLevels := v },
   .given "lineWidthZoomLevels" points fun v s => { s with lineWidthZoomLevels := v },
   .given "paint" propertyMap fun v s => { s with paint := v },
   .given "layout" propertyMap fun v s => { s with layout := v }]

def decode : Decoder StyleForm :=
  Decode.record fields standard

def pointsJson (points : List Breakpoint) : Json :=
  .array (points.map Breakpoint.toJson)

def toMembers (s : StyleForm) : Json.Members :=
  [("fillColor", .text s.fillColor),
   ("fillOpacity", .ofFloat s.fillOpacity),
   ("fillOutlineColor", .text s.fillOutlineColor),
   ("useFillZoomStyling", .bool s.useFillZoomStyling),
   ("textColor", .text s.textColor),
   ("textHaloColor", .text s.textHaloColor),
   ("textHaloWidth", .ofFloat s.textHaloWidth),
   ("textSizeDefault", .ofFloat s.textSizeDefault),
   ("useTextSizeZoomStyling", .bool s.useTextSizeZoomStyling),
   ("textField", .text s.textField),
   ("iconImage", .text s.iconImage),
   ("customIconImage", .text s.customIconImage),
   ("iconSizeDefault", .ofFloat s.iconSizeDefault),
   ("useIconSizeZoomStyling", .bool s.useIconSizeZoomStyling),
   ("circleColor", .text s.circleColor),
   ("circleOpacity", .ofFloat s.circleOpacity),
   ("circleRadius", .ofFloat s.circleRadius),
   ("circleStrokeColor", .text s.circleStrokeColor),
   ("circleStrokeWidth", .ofFloat s.circleStrokeWidth),
   ("lineColor", .text s.lineColor),
   ("lineWidth", .ofFloat s.lineWidth),
   ("lineBlur", .ofFloat s.lineBlur),
   ("lineOpacity", .ofFloat s.lineOpacity),
   ("zoomLevels", pointsJson s.zoomLevels),
   ("textZoomLevels", pointsJson s.textZoomLevels),
   ("circleRadiusZoomLevels", pointsJson s.circleRadiusZoomLevels),
   ("lineWidthZoomLevels", pointsJson s.lineWidthZoomLevels),
   ("paint", .object s.paint),
   ("layout", .object s.layout)]

def toJson (s : StyleForm) : Json :=
  .object s.toMembers

end StyleForm

end MapCatalog
