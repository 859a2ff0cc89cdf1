import MapCatalog.Text.Blank
import MapCatalog.Text.Case
import MapCatalog.Record.Error
import MapCatalog.Record.Decode

/-! # Visual types -/

namespace MapCatalog

inductive VisualType where
  | symbol
  | fill
  | line
  | circle
  | heatmap
  | fillExtrusion
  | raster
  | rasterParticle
  | hillshade
  | model
  | background
  | sky
  | slot
  | clip
deriving DecidableEq, Inhabited

namespace VisualType

def all : List VisualType :=
  [.symbol, .fill, .line, .circle, .heatmap, .fillExtrusion, .raster, .rasterParticle, .hillshade,
   .model, .background, .sky, .slot, .clip]

def name : VisualType → String
  | .symbol => "symbol"
  | .fill => "fill"
  | .line => "line"
  | .circle => "circle"
  | .heatmap => "heatmap"
  | .fillExtrusion => "fill-extrusion"
  | .raster => "raster"
  | .rasterParticle => "raster-particle"
  | .hillshade => "hillshade"
  | .model => "model"
  | .background => "background"
  | .sky => "sky"
  | .slot => "slot"
  | .clip => "clip"

/-- Whether the style of a layer of this type is compiled from fields of its own. -/
def isCompiled : VisualType → Bool
  | .symbol | .fill | .line | .circle => true
  | _ => false

def ofName? (name : String) : Option VisualType :=
  all.find? fun kind => kind.name == name

theorem ofName?_name (kind : VisualType) :
    ofName? kind.name = some kind := by
  cases kind <;> decide

def parse (text : String) : Except RecordError VisualType :=
  match all.find? fun kind => Text.sameLetters kind.name (Text.trim text) with
  | some kind => .ok kind
  | none => .error (.unknownType text)

def decode : Decoder VisualType :=
  Decode.variant ofName?

def toJson (kind : VisualType) : Json :=
  .text kind.name

end VisualType

end MapCatalog
