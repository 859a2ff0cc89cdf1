import MapCatalog.Sequence.StableSort
import MapCatalog.Record.Decode
import MapCatalog.Style.Error

/-! # Breakpoints -/

namespace MapCatalog

structure Breakpoint where
  zoom : Binary64
  value : Binary64
deriving DecidableEq, Inhabited

namespace Breakpoint

def fields : List (Decode.Field Breakpoint) :=
  [.needed "zoom" Decode.float fun v b => { b with zoom := v },
   .needed "value" Decode.float fun v b => { b with value := v }]

def decode : Decoder Breakpoint :=
  Decode.record fields default

def toJson (b : Breakpoint) : Json :=
  .object [("zoom", .ofFloat b.zoom), ("value", .ofFloat b.value)]

def maxZoom : Binary64 :=
  .ofNat 22

def zoomInRange (zoom : Binary64) : Bool :=
  zoom.isFinite && Binary64.zero.atMost zoom && zoom.atMost maxZoom

end Breakpoint

namespace Breakpoints

/-- Breakpoints in order of zoom; those of one zoom keep the order in which they were entered. -/
def sort (points : List Breakpoint) : List Breakpoint :=
  Sequence.stableSort (fun point => point.zoom.totalKey) points

def validateFrom (list : String) : Nat → List Breakpoint → Except StyleError Unit
  | _, [] => .ok ()
  | index, point :: rest =>
      if !Breakpoint.zoomInRange point.zoom then
        .error (.zoomOutOfRange list index point.zoom)
      else if !point.value.isFinite then
        .error (.valueNotFinite list index)
      else
        validateFrom list (index + 1) rest

/-- Every zoom has to lie in range and every value has to be finite. -/
def validate (list : String) (points : List Breakpoint) : Except StyleError Unit :=
  validateFrom list 0 points

/-- Breakpoints given as pairs of small decimals: a zoom, and a value in tenths. -/
def ofTenths (points : List (Nat × Nat)) : List Breakpoint :=
  points.map fun (zoom, tenths) => ⟨.ofNat zoom, .ofFraction tenths 10⟩

end Breakpoints

structure Interpolation where
  stops : List Breakpoint
deriving DecidableEq

namespace Interpolation

/-- The interpolation through breakpoints, if there are any. -/
def ofBreakpoints? (points : List Breakpoint) : Option Interpolation :=
  if points.isEmpty then none else some ⟨Breakpoints.sort points⟩

/-- The expression for the renderer: a head, and the stops as zoom and value in turn. -/
def toJson (interpolation : Interpolation) : Json :=
  .array (.text "interpolate" :: .array [.text "linear"] :: .array [.text "zoom"] ::
    interpolation.stops.flatMap fun stop => [.ofFloat stop.zoom, .ofFloat stop.value])

end Interpolation

inductive ZoomValue where
  | scalar (value : Binary64)
  /-- The fallback counts when there are no stops. -/
  | byZoom (stops : List Breakpoint) (fallback : Binary64)
deriving DecidableEq

namespace ZoomValue

/-- The breakpoints where they are switched on and present, else the number. -/
def choose (enabled : Bool) (points : List Breakpoint) (value : Binary64) : ZoomValue :=
  if enabled && !points.isEmpty then .byZoom points value else .scalar value

def validate (list : String) : ZoomValue → Except StyleError Unit
  | .scalar _ => .ok ()
  | .byZoom stops _ => Breakpoints.validate list stops

def toJson : ZoomValue → Json
  | .scalar value => .ofFloat value
  | .byZoom stops fallback =>
      match Interpolation.ofBreakpoints? stops with
      | some interpolation => interpolation.toJson
      | none => .ofFloat fallback

end ZoomValue

end MapCatalog
