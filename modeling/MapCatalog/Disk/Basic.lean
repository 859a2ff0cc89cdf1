import MapCatalog.Disk.Path
import MapCatalog.Sequence.Table

/-! # The disk

A folder is there when it was made or when something lies in it.  Replacing one file by another is a single step; all
other writing goes byte by byte.
-/

namespace MapCatalog

structure Disk where
  files : Table Path.Place (List UInt8)
  folders : List Path.Place
deriving DecidableEq, Inhabited

inductive ReadFault where
  | missing
  /-- The path leads to a folder, or through a file. -/
  | unreadable
deriving DecidableEq

namespace Disk

def within (folder place : Path.Place) : Bool :=
  folder.absolute == place.absolute && folder.names.isPrefixOf place.names

/-- Whether a place is a folder.  The starting folders always are. -/
def isFolder (disk : Disk) (place : Path.Place) : Bool :=
  !disk.files.contains place &&
    (place.names.isEmpty || (disk.files.keys ++ disk.folders).any (within place))

def ancestors (place : Path.Place) : List Path.Place :=
  (List.range place.names.length).map fun count => ⟨place.absolute, place.names.take count⟩

/-- Whether the way to a place leads through a file. -/
def isBlocked (disk : Disk) (place : Path.Place) : Bool :=
  (ancestors place).any disk.files.contains

def read (disk : Disk) (path : String) : Except ReadFault (List UInt8) :=
  if path.isEmpty then .error .missing
  else
    match disk.files.get? (Path.place path) with
    | some content => .ok content
    | none =>
        if disk.isFolder (Path.place path) || disk.isBlocked (Path.place path) then
          .error .unreadable
        else
          .error .missing

/-- Whether there is a file or a folder at a path. -/
def present (disk : Disk) (path : String) : Bool :=
  !path.isEmpty && (disk.files.contains (Path.place path) || disk.isFolder (Path.place path))

/-! ## Writing -/

inductive Step where
  /-- Make a folder and every folder above it. -/
  | makeFolder (path : String)
  /-- Create an empty file, or empty the file that is there. -/
  | create (path : String)
  /-- Append bytes to a file. -/
  | append (path : String) (bytes : List UInt8)
  /-- Wait until a file has reached the disk. -/
  | sync (path : String)
  /-- Move a file to another place, in place of the file that is there. -/
  | rename (source target : String)
deriving DecidableEq

def admits (disk : Disk) (path : String) : Bool :=
  let place := Path.place path
  !place.names.isEmpty && !disk.isFolder place && !disk.isBlocked place &&
    (disk.files.contains place || disk.isFolder ⟨place.absolute, place.names.dropLast⟩)

/-- The disk after a step, if the step succeeds. -/
def step (disk : Disk) : Step → Option Disk
  | .makeFolder path =>
      let place := Path.place path
      if disk.files.contains place || disk.isBlocked place then none
      else some { disk with folders := place :: disk.folders }
  | .create path =>
      if disk.admits path then some { disk with files := disk.files.insert (Path.place path) [] }
      else none
  | .append path bytes =>
      match disk.files.get? (Path.place path) with
      | some content =>
          some { disk with files := disk.files.insert (Path.place path) (content ++ bytes) }
      | none => none
  | .sync path => if disk.files.contains (Path.place path) then some disk else none
  | .rename source target =>
      match disk.files.get? (Path.place source) with
      | none => none
      | some content =>
          if disk.admits target then
            some { disk with
              files := (disk.files.erase (Path.place source)).insert (Path.place target) content }
          else
            none

/-- Put a file in place with all its folders. -/
def put (disk : Disk) (path : String) (content : List UInt8) : Disk :=
  { disk with files := disk.files.insert (Path.place path) content }

end Disk

end MapCatalog
