/-! # Errors of records -/

namespace MapCatalog

inductive Tier where
  | sections
  | groups
  | layers
deriving DecidableEq

namespace Tier

def noun : Tier → String
  | .sections => "section"
  | .groups => "group"
  | .layers => "layer"

end Tier

inductive StyleMap where
  | paint
  | layout
deriving DecidableEq

namespace StyleMap

def name : StyleMap → String
  | .paint => "paint"
  | .layout => "layout"

end StyleMap

inductive RecordError where
  /-- A field that a record cannot do without is blank or missing. -/
  | missing (tier : Tier) (field : String)
  | unknownType (text : String)
  | invalidId (tier : Tier) (text : String)
  | unknownDirection (text : String)
  /-- A stored property map is no object. -/
  | storedMap (map : StyleMap)
deriving DecidableEq

namespace RecordError

def message : RecordError → String
  | .missing tier field => tier.noun ++ " " ++ field ++ " must not be empty"
  | .unknownType text => "unknown visual type: " ++ text
  | .invalidId tier text => "invalid " ++ tier.noun ++ " id: " ++ text
  | .unknownDirection text =>
      "unknown rearrange direction '" ++ text ++ "', expected Up or Down"
  | .storedMap map => "stored " ++ map.name ++ " is not a JSON object"

def userMessage : RecordError → String
  | .missing tier field =>
      "The " ++ tier.noun ++ " needs a " ++ field ++ " before it can be saved."
  | .unknownType text => "'" ++ text ++ "' is not a supported layer type."
  | .invalidId tier text => "'" ++ text ++ "' is not a valid " ++ tier.noun ++ " id."
  | error => error.message

end RecordError

end MapCatalog
