import MapCatalog.Console.Arguments
import MapCatalog.Console.Overview

/-! # Running the program

What a run prints, and the disk it leaves behind, are determined by the surroundings it starts in.
-/

namespace MapCatalog

namespace Console

structure Folders where
  /-- The folder of the configuration. -/
  settings : String
  /-- The folder of the snapshot. -/
  snapshots : String
deriving DecidableEq

/-- What a run starts from. -/
structure Surroundings where
  disk : Disk
  folders : Folders
  /-- The secret in the environment. -/
  secret : Option String
  now : Instant
  /-- A number that was never used, for a new record. -/
  fresh : BitVec 128

/-- What comes of a run. -/
structure Outcome where
  code : Nat
  output : String
  /-- What goes wrong, for the error output. -/
  complaint : Option String
  disk : Disk
deriving DecidableEq

namespace Outcome

def misused (disk : Disk) : Outcome :=
  ⟨2, "", some "error: the arguments are not understood; --help tells which ones are", disk⟩

def failed (e : CommandError) (disk : Disk) : Outcome :=
  ⟨1, "", some ("error: " ++ e.message), disk⟩

def printed (output : String) (disk : Disk) : Outcome :=
  ⟨0, output, none, disk⟩

def ofResult (result : Except CommandError String) (disk : Disk) : Outcome :=
  match result with
  | .error e => failed e disk
  | .ok output => printed output disk

end Outcome

def versionLine : String :=
  "layer-atlas 0.1.0\n"

def helpText : String :=
  "Usage: layer-atlas [OPTIONS] <COMMAND>\n\n" ++
  "Commands:\n" ++
  "  compile <FORM_JSON>\n" ++
  "  token issue --subject <SUBJECT> [--ttl-secs <SECONDS>]\n" ++
  "  token verify <TOKEN>\n" ++
  "  tree [--snapshot <PATH>]\n" ++
  "  request <METHOD> <PATH> [--body <FILE>] [--token <TOKEN>] [--snapshot <PATH>]\n\n" ++
  "Options:\n" ++
  "  --config <PATH>, --log-file <PATH>, --log-level <LEVEL>, --log-format <FORMAT>,\n" ++
  "  --log-timestamps, --log-spans, --color <WHEN>, -v, -q, -h, -V\n"

def printJson (doc : Json) : String :=
  doc.normalize.pretty ++ "\n"

/-- Open the log; its file is made where there is none. -/
def openLog (disk : Disk) : Option String → Option Disk
  | none => some disk
  | some path =>
      if disk.files.contains (Path.place path) then some disk
      else disk.step (.create path)

def settingsPath (folders : Folders) (given : Option String) : String :=
  given.getD (folders.settings ++ "/config.toml")

def settings (s : Surroundings) (path : String) : Except CommandError Settings :=
  match Settings.load s.disk path with
  | .error e => .error (.settings e)
  | .ok found => .ok (found.override s.secret)

def snapshotPath (s : Surroundings) (found : Settings) (given : Option String) : String :=
  given.getD (found.snapshotPath s.folders.snapshots)

def printResponse (response : Response) : String :=
  toString response.status ++ "\n" ++ printJson response.body

def answered (result : Except CommandError Response × Disk) : Outcome :=
  match result with
  | (.error e, disk) => .failed e disk
  | (.ok response, disk) =>
      ⟨if response.isSuccess then 0 else 1, printResponse response, none, disk⟩

def doTask (s : Surroundings) (found : Settings) : Arguments.Task → Outcome
  | .compile form =>
      .ofResult ((Command.compile s.disk form).map fun c => printJson c.toJson) s.disk
  | .issue subject seconds =>
      .ofResult ((Command.issue found subject seconds s.now).map (· ++ "\n")) s.disk
  | .verify token =>
      .ofResult ((Command.verify found token s.now).map fun c => printJson c.toJson) s.disk
  | .tree snapshot =>
      .ofResult ((Command.trees s.disk (snapshotPath s found snapshot)).map Overview.text) s.disk
  | .request call snapshot =>
      answered
        (Command.request found call (snapshotPath s found snapshot) s.now s.fresh s.disk)

def perform (s : Surroundings) (invocation : Arguments.Invocation) : Outcome :=
  match openLog s.disk invocation.logFile with
  | none => .failed .log s.disk
  | some disk =>
      let s := { s with disk := disk }
      match settings s (settingsPath s.folders invocation.config) with
      | .error e => .failed e disk
      | .ok found => doTask s found invocation.task

def run (s : Surroundings) (args : List String) : Outcome :=
  match Arguments.read args with
  | .error .help => .printed helpText s.disk
  | .error .version => .printed versionLine s.disk
  | .error .mistake => .misused s.disk
  | .ok invocation => perform s invocation

/-! ## Files -/

def taskFiles : Arguments.Task → List String
  | .compile form => [form]
  | .issue _ _ | .verify _ => []
  | .tree snapshot => snapshot.toList
  | .request call snapshot => call.body.toList ++ snapshot.toList

/-- The files that a run may look at, as far as the disk tells which those are. -/
def filesOf (s : Surroundings) (args : List String) : List String :=
  match Arguments.read args with
  | .error _ => []
  | .ok invocation =>
      let path := settingsPath s.folders invocation.config
      let snapshot :=
        match settings s path with
        | .error _ => []
        | .ok found => [snapshotPath s found none]
      path :: invocation.logFile.toList ++ taskFiles invocation.task ++ snapshot

end Console

end MapCatalog
