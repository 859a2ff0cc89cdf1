import MapCatalog.Catalog.Move
import MapCatalog.Service.Error
import MapCatalog.Text.Pieces

/-! # Routes

Text behind a question mark or a hash, empty pieces and one leading `api` count for nothing in a path.
-/

namespace MapCatalog

namespace Tier

def collection : Tier → String
  | .sections => "LayerSection"
  | .groups => "LayerGroup"
  | .layers => "LayerData"

end Tier

/-- What a path names, before its identifiers are read. -/
inductive Address where
  | collection (tier : Tier)
  | record (tier : Tier) (id : String)
  | rearrange (direction id : String)
  | logout
deriving DecidableEq

namespace Address

def pieces (path : String) : List String :=
  let cut := path.toList.takeWhile fun c => c != '?' && c != '#'
  let all := ((Text.pieces (· == '/') cut).filter fun piece => !piece.isEmpty).map String.ofList
  if all.head? = some "api" then all.tail else all

def tier? (piece : String) : Option Tier :=
  [Tier.sections, .groups, .layers].find? fun tier => tier.collection == piece

/-- The address that pieces name, if they name one. -/
def ofPieces? : List String → Option Address
  | [piece] => (tier? piece).map .collection
  | [piece, id] =>
      if piece = "auth" ∧ id = "logout" then some .logout
      else (tier? piece).map fun tier => .record tier id
  | [piece, verb, direction, id] =>
      if piece = Tier.layers.collection ∧ verb = "Rearrange" then some (.rearrange direction id)
      else none
  | _ => none

end Address

inductive Route where
  /-- Every section with everything below it. -/
  | list
  | read (tier : Tier) (id : Id tier)
  | create (tier : Tier)
  | replace (tier : Tier) (id : Id tier)
  | delete (tier : Tier) (id : Id tier)
  | rearrange (direction : Direction) (id : LayerId)
  | logout
deriving DecidableEq

namespace Route

/-- What is asked for at the records of a tier.  Only sections can be listed. -/
def atCollection? : Method → Tier → Option Route
  | .get, .sections => some .list
  | .post, tier => some (.create tier)
  | _, _ => none

def atRecord? {tier : Tier} (id : Id tier) : Method → Option Route
  | .get => some (.read tier id)
  | .put => some (.replace tier id)
  | .delete => some (.delete tier id)
  | .post => none

def move (direction id : String) : Except RecordError Route :=
  match Direction.parse direction with
  | .error e => .error e
  | .ok direction =>
      match Id.parse .layers id with
      | .error e => .error e
      | .ok id => .ok (.rearrange direction id)

def atAddress (method : Method) : Address → Except RecordError (Option Route)
  | .collection tier => .ok (atCollection? method tier)
  | .record tier id => (Id.parse tier id).map fun id => atRecord? id method
  | .rearrange direction id =>
      if method = .put then (move direction id).map some else .ok none
  | .logout => .ok (if method = .post then some .logout else none)

def parse (method : Method) (path : String) : Except ServiceError Route :=
  match Address.ofPieces? (Address.pieces path) with
  | none => .error (.noRoute method path)
  | some address =>
      match atAddress method address with
      | .error e => .error (.record e)
      | .ok none => .error (.methodNotAllowed method path)
      | .ok (some route) => .ok route

/-- Reading is open to everybody; everything else needs a token. -/
def requiresAuth : Route → Bool
  | .list | .read _ _ => false
  | _ => true

end Route

end MapCatalog
