import MapCatalog.Record.Decode

/-! # Cameras -/

namespace MapCatalog

structure Camera where
  longitude : Binary64
  latitude : Binary64
  zoom : Binary64
  bearing : Binary64
deriving DecidableEq, Inhabited

namespace Camera

def fields : List (Decode.Field Camera) :=
  [.nullable "longitude" Decode.float fun v c => { c with longitude := v },
   .nullable "latitude" Decode.float fun v c => { c with latitude := v },
   .nullable "zoom" Decode.float fun v c => { c with zoom := v },
   .nullable "bearing" Decode.float fun v c => { c with bearing := v }]

def decode : Decoder Camera :=
  Decode.record fields default

def toMembers (camera : Camera) : Json.Members :=
  [("longitude", .ofFloat camera.longitude),
   ("latitude", .ofFloat camera.latitude),
   ("zoom", .ofFloat camera.zoom),
   ("bearing", .ofFloat camera.bearing)]

def toJson (camera : Camera) : Json :=
  .object camera.toMembers

end Camera

end MapCatalog
