import MapCatalog.Console.Run

/-! # The program -/

namespace MapCatalog

namespace Main

def readInto (disk : Disk) (path : String) : IO Disk := do
  try
    let content ← IO.FS.readBinFile path
    return disk.put path content.toList
  catch _ =>
    try
      let found ← (← IO.FS.realPath path).metadata
      if found.type == .dir then
        return { disk with folders := Path.place path :: disk.folders }
      else
        return disk
    catch _ =>
      return disk

def readWithFolders (disk : Disk) (path : String) : IO Disk := do
  let root := if path.startsWith "/" then "/" else ""
  let names := Path.names path
  let mut disk := disk
  for count in List.range names.length do
    disk ← readInto disk (root ++ String.intercalate "/" (names.take (count + 1)))
  return disk

def pathOf (place : Path.Place) : String :=
  (if place.absolute then "/" else "") ++ String.intercalate "/" place.names

def writeFile (path : String) (content : List UInt8) : IO Unit := do
  match Path.folder? path with
  | some folder => IO.FS.createDirAll folder
  | none => pure ()
  let temporary := Path.temporary path
  IO.FS.writeBinFile temporary content.toByteArray
  IO.FS.rename temporary path

def writeBack (before after : Disk) : IO Unit := do
  for (place, content) in after.files.entries do
    if before.files.get? place != some content then
      writeFile (pathOf place) content

def now : IO Instant := do
  let (_, path) ← IO.FS.createTempFile
  let made := (← path.metadata).modified
  IO.FS.removeFile path
  return ⟨made.sec * nanosPerSecond + made.nsec.toNat⟩

/-- A random number that is marked as an identifier made by chance. -/
def fresh : IO (BitVec 128) := do
  let bytes ← IO.getRandomBytes 16
  let number := bytes.toList.foldl (fun total byte => 256 * total + byte.toNat) 0
  let cleared := BitVec.ofNat 128 number &&& ~~~ 0x000000000000f000c000000000000000#128
  return cleared ||| 0x00000000000040008000000000000000#128

/-- A folder of the environment, unless it is missing or relative. -/
def folderFrom (name : String) (otherwise : String) : IO String := do
  match ← IO.getEnv name with
  | some folder => return if folder.startsWith "/" then folder else otherwise
  | none => return otherwise

def folders : IO Console.Folders := do
  let home := (← IO.getEnv "HOME").getD ""
  return ⟨(← folderFrom "XDG_CONFIG_HOME" (home ++ "/.config")) ++ "/layer-atlas",
    (← folderFrom "XDG_DATA_HOME" (home ++ "/.local/share")) ++ "/layer-atlas"⟩

def surroundings (args : List String) : IO Console.Surroundings := do
  let start : Console.Surroundings :=
    { disk := ⟨.empty, []⟩
      folders := ← folders
      secret := ← IO.getEnv "JWT_SECRET"
      now := ← now
      fresh := ← fresh }
  let known ← (Console.filesOf start args).foldlM readWithFolders start.disk
  let start := { start with disk := known }
  let known ← (Console.filesOf start args).foldlM readWithFolders known
  return { start with disk := known }

def run (args : List String) : IO UInt32 := do
  let start ← surroundings args
  let outcome := Console.run start args
  try
    writeBack start.disk outcome.disk
  catch e =>
    IO.eprintln ("error: " ++ toString e)
    return 1
  IO.print outcome.output
  match outcome.complaint with
  | some complaint => IO.eprintln complaint
  | none => pure ()
  return UInt32.ofNat outcome.code

end Main

end MapCatalog

def main (args : List String) : IO UInt32 :=
  MapCatalog.Main.run args
