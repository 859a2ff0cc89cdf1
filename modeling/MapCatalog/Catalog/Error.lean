import MapCatalog.Record.Id

/-! # Errors of the catalogue -/

namespace MapCatalog

inductive SnapshotFault where
  | undecodable (cause : DecodeError)
  | newerVersion (version supported : UInt32)
  /-- An identifier occurs twice in its tier. -/
  | duplicate (tier : Tier) (id : Id tier)
deriving DecidableEq

namespace SnapshotFault

def message : SnapshotFault → String
  | .undecodable cause => cause.message
  | .newerVersion version supported =>
      "version " ++ toString version.toNat ++ " is newer than supported version " ++
        toString supported.toNat
  | .duplicate tier id => "duplicate " ++ tier.noun ++ " id " ++ id.toString

end SnapshotFault

/-- What was being done with a file when it failed. -/
inductive FileAction where
  | read
  | createFolder
  | create
  | write
  | sync
  | replace
deriving DecidableEq

namespace FileAction

def name : FileAction → String
  | .read => "read"
  | .createFolder => "create directory for"
  | .create => "create"
  | .write => "write"
  | .sync => "sync"
  | .replace => "replace"

end FileAction

inductive CatalogError where
  | notFound (tier : Tier) (id : Id tier)
  | invalid (cause : RecordError)
  /-- The layers of a group changed since the caller saw them. -/
  | conflict (group : GroupId) (expected actual : Nat)
  | file (action : FileAction) (path : String)
  | snapshot (path : String) (fault : SnapshotFault)
deriving DecidableEq

namespace CatalogError

def message : CatalogError → String
  | .notFound tier id => tier.noun ++ " " ++ id.toString ++ " not found"
  | .invalid cause => cause.message
  | .conflict group expected actual =>
      "group " ++ group.toString ++ " changed: expected revision " ++ toString expected ++
        ", found " ++ toString actual
  | .file action path => "Failed to " ++ action.name ++ " snapshot: " ++ path
  | .snapshot path fault => "Invalid snapshot " ++ path ++ ": " ++ fault.message

def userMessage : CatalogError → String
  | .notFound tier _ => "The " ++ tier.noun ++ " no longer exists."
  | .invalid cause => cause.userMessage
  | .conflict _ _ _ =>
      "The layer order was changed by someone else. Reload and try again."
  | .file action path => "Could not " ++ action.name ++ " the snapshot at " ++ path
  | .snapshot path _ => "The file at " ++ path ++ " is not a valid layer snapshot."

/-- Whether the fault lies with the stored files and not with the caller. -/
def isInternal : CatalogError → Bool
  | .file _ _ | .snapshot _ _ => true
  | _ => false

end CatalogError

end MapCatalog
