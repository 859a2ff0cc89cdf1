import MapCatalog.Bytes.Utf8
import MapCatalog.Catalog.Load
import MapCatalog.Disk.Basic

/-! # Snapshot files

A snapshot is written to a temporary file, which then takes its place in one step.
-/

namespace MapCatalog

namespace Snapshot

def bytes (snapshot : Snapshot) : List UInt8 :=
  Utf8.encode (Json.prettyChars 0 snapshot.toJson)

/-- The snapshot in the bytes of a file; a newer version is not understood. -/
def ofBytes (bytes : List UInt8) : Except SnapshotFault Snapshot :=
  match Decode.ofText decode (Utf8.documentChars bytes) with
  | .error e => .error (.undecodable e)
  | .ok snapshot =>
      if currentVersion < snapshot.version then
        .error (.newerVersion snapshot.version currentVersion)
      else
        .ok snapshot

end Snapshot

namespace Catalog

/-- The steps that put bytes at a path, each with what it does in the words of an error. -/
def saveSteps (path : String) (bytes : List UInt8) : List (FileAction × String × Disk.Step) :=
  let temporary := Path.temporary path
  let makeFolder :=
    match Path.folder? path with
    | some folder => [(FileAction.createFolder, folder, Disk.Step.makeFolder folder)]
    | none => []
  makeFolder ++
    [(.create, temporary, .create temporary),
     (.write, temporary, .append temporary bytes),
     (.sync, temporary, .sync temporary),
     (.replace, path, .rename temporary path)]

/-- Do steps until one fails.  The disk stays as the last step that succeeded left it. -/
def runSteps (disk : Disk) :
    List (FileAction × String × Disk.Step) → Except CatalogError Unit × Disk
  | [] => (.ok (), disk)
  | (action, path, step) :: rest =>
      match disk.step step with
      | none => (.error (.file action path), disk)
      | some disk => runSteps disk rest

def save (c : Catalog) (path : String) (disk : Disk) : Except CatalogError Unit × Disk :=
  runSteps disk (saveSteps path c.snapshot.bytes)

def load (disk : Disk) (path : String) : Except CatalogError Catalog :=
  match disk.read path with
  | .error _ => .error (.file .read path)
  | .ok bytes =>
      match Snapshot.ofBytes bytes with
      | .error fault => .error (.snapshot path fault)
      | .ok snapshot =>
          match ofSnapshot snapshot with
          | .error fault => .error (.snapshot path fault)
          | .ok c => .ok c

/-- Read the catalogue from a file, or start with an empty one where there is none. -/
def openFile (disk : Disk) (path : String) : Except CatalogError Catalog :=
  if disk.present path then load disk path else .ok empty

end Catalog

end MapCatalog
