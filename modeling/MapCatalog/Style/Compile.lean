import MapCatalog.Record.VisualType
import MapCatalog.Style.Form

/-! # Compiled styles -/

namespace MapCatalog

structure FillStyle where
  color : String
  opacity : ZoomValue
  outlineColor : String
deriving DecidableEq

structure SymbolStyle where
  textColor : String
  textHaloColor : String
  textHaloWidth : Binary64
  textField : String
  textSize : ZoomValue
  iconImage : String
  iconSize : ZoomValue
deriving DecidableEq

structure CircleStyle where
  color : String
  opacity : ZoomValue
  radius : ZoomValue
  strokeColor : String
  strokeWidth : Binary64
deriving DecidableEq

structure LineStyle where
  color : String
  width : ZoomValue
  blur : Binary64
  opacity : Binary64
deriving DecidableEq

/-- The style of a layer, with the fields of its visual type only. -/
inductive VisualStyle where
  | fill (style : FillStyle)
  | symbol (style : SymbolStyle)
  | circle (style : CircleStyle)
  | line (style : LineStyle)
  /-- A type that is not compiled keeps its property maps as they are. -/
  | raw (kind : VisualType) (paint layout : Json.Members)
deriving DecidableEq

structure CompiledStyle where
  paint : Json.Members
  layout : Json.Members
deriving DecidableEq

namespace VisualStyle

def visualType : VisualStyle → VisualType
  | .fill _ => .fill
  | .symbol _ => .symbol
  | .circle _ => .circle
  | .line _ => .line
  | .raw kind _ _ => kind

/-- Check every list of breakpoints that the style interpolates over. -/
def validate : VisualStyle → Except StyleError Unit
  | .fill style => style.opacity.validate "fill opacity"
  | .symbol style =>
      match style.textSize.validate "text size" with
      | .error e => .error e
      | .ok _ => style.iconSize.validate "icon size"
  | .circle style =>
      match style.opacity.validate "circle opacity" with
      | .error e => .error e
      | .ok _ => style.radius.validate "circle radius"
  | .line style => style.width.validate "line width"
  | .raw _ _ _ => .ok ()

def compile : VisualStyle → CompiledStyle
  | .fill style =>
      ⟨[("fill-color", .text style.color),
        ("fill-opacity", style.opacity.toJson),
        ("fill-outline-color", .text style.outlineColor)], []⟩
  | .symbol style =>
      ⟨[("text-color", .text style.textColor),
        ("text-halo-color", .text style.textHaloColor),
        ("text-halo-width", .ofFloat style.textHaloWidth)],
       [("icon-image", .text style.iconImage),
        ("icon-size", style.iconSize.toJson),
        ("text-field", .text style.textField),
        ("text-font", .array [.text StyleForm.textFont]),
        ("text-size", style.textSize.toJson),
        ("visibility", .text "visible")]⟩
  | .circle style =>
      ⟨[("circle-color", .text style.color),
        ("circle-opacity", style.opacity.toJson),
        ("circle-radius", style.radius.toJson),
        ("circle-stroke-color", .text style.strokeColor),
        ("circle-stroke-width", .ofFloat style.strokeWidth)], []⟩
  | .line style =>
      ⟨[("line-blur", .ofFloat style.blur),
        ("line-color", .text style.color),
        ("line-opacity", .ofFloat style.opacity),
        ("line-width", style.width.toJson)], []⟩
  | .raw _ paint layout => ⟨paint, layout⟩

end VisualStyle

namespace StyleForm

def symbolText (form : StyleForm) : String :=
  (Text.nonBlank? form.textField).getD defaultText

/-- The icon of a symbol: the custom one, else the chosen one, else the default. -/
def symbolIcon (form : StyleForm) : String :=
  ((Text.nonBlank? form.customIconImage).or (Text.nonBlank? form.iconImage)).getD defaultIcon

def narrow (form : StyleForm) : VisualType → VisualStyle
  | .fill => .fill
      { color := form.fillColor
        opacity := .choose form.useFillZoomStyling form.zoomLevels form.fillOpacity
        outlineColor := form.fillOutlineColor }
  | .symbol => .symbol
      { textColor := form.textColor
        textHaloColor := form.textHaloColor
        textHaloWidth := form.textHaloWidth
        textField := form.symbolText
        textSize := .choose true form.textZoomLevels form.textSizeDefault
        iconImage := form.symbolIcon
        iconSize := .choose form.useIconSizeZoomStyling form.zoomLevels form.iconSizeDefault }
  | .circle => .circle
      { color := form.circleColor
        opacity := .choose true form.zoomLevels form.circleOpacity
        radius := .choose true form.circleRadiusZoomLevels form.circleRadius
        strokeColor := form.circleStrokeColor
        strokeWidth := form.circleStrokeWidth }
  | .line => .line
      { color := form.lineColor
        width := .choose true form.lineWidthZoomLevels form.lineWidth
        blur := form.lineBlur
        opacity := form.lineOpacity }
  | kind => .raw kind form.paint form.layout

def compile (form : StyleForm) (kind : VisualType) : Except StyleError CompiledStyle :=
  match (form.narrow kind).validate with
  | .error e => .error e
  | .ok _ => .ok (form.narrow kind).compile

end StyleForm

namespace CompiledStyle

def paintText (style : CompiledStyle) : String :=
  (Json.object style.paint).compact

def layoutText (style : CompiledStyle) : String :=
  (Json.object style.layout).compact

end CompiledStyle

end MapCatalog
