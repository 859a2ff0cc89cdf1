import MapCatalog.Text.Blank
import MapCatalog.Text.Case
import MapCatalog.Record.Decode

/-! # Sources -/

namespace MapCatalog

inductive Source where
  | inline (kind data : String)
  | remote (kind url : String)
deriving DecidableEq

instance : Inhabited Source :=
  ⟨.remote "" ""⟩

namespace Source

def kind : Source → String
  | .inline kind _ => kind
  | .remote kind _ => kind

def location : Source → String
  | .inline _ data => data
  | .remote _ url => url

def geoJson : String :=
  "geojson"

/-- The source of a kind and a location that an editor entered. -/
def resolve (kind location : String) : Source :=
  if Text.sameLetters (Text.trim kind) geoJson then .inline geoJson location
  else .remote (Text.trim kind) location

/-- The text of a key that occurs exactly once. -/
def soleText? (members : Json.Members) (key : String) : Option String :=
  match members.filter fun entry => entry.1 == key with
  | [(_, .text value)] => some value
  | _ => none

/-- An object with `type` and `data` is inline, any other with `type` and `url` is remote. -/
def ofMembers? (members : Json.Members) : Option Source :=
  match soleText? members "type", soleText? members "data", soleText? members "url" with
  | some kind, some data, _ => some (.inline kind data)
  | some kind, none, some url => some (.remote kind url)
  | _, _, _ => none

def decode : Decoder Source
  | _, value =>
      match value.toJson? with
      | some (.object members) =>
          match ofMembers? members with
          | some source => .ok source
          | none => .error .invalidValue
      | _ => .error .invalidValue

def toJson : Source → Json
  | .inline kind data => .object [("type", .text kind), ("data", .text data)]
  | .remote kind url => .object [("type", .text kind), ("url", .text url)]

end Source

end MapCatalog
