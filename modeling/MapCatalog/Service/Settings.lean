import MapCatalog.Catalog.File
import MapCatalog.Service.Basic
import MapCatalog.Toml.Reader

/-! # Settings -/

namespace MapCatalog

structure AuthSettings where
  secret : Option String
  /-- The lifetime of an issued token. -/
  tokenSeconds : UInt64
  /-- How long a revocation counts. -/
  revocationSeconds : UInt64
deriving DecidableEq

namespace AuthSettings

def standard : AuthSettings :=
  ⟨none, UInt64.ofNat Revocations.dayInSeconds, UInt64.ofNat Revocations.dayInSeconds⟩

def fields : List (Decode.Field AuthSettings) :=
  [.given "secret" (Decode.optional Decode.text) fun v a => { a with secret := v },
   .given "token_ttl_secs" Decode.word64 fun v a => { a with tokenSeconds := v },
   .given "revocation_ttl_secs" Decode.word64 fun v a => { a with revocationSeconds := v }]

def describe (auth : AuthSettings) : String :=
  let secret := if auth.secret.isSome then "Some(\"[REDACTED]\")" else "None"
  "AuthConfig \x7b secret: " ++ secret ++ ", token_ttl_secs: " ++
    toString auth.tokenSeconds.toNat ++ ", revocation_ttl_secs: " ++
    toString auth.revocationSeconds.toNat ++ " \x7d"

end AuthSettings

structure StoreSettings where
  snapshotPath : Option String
deriving DecidableEq

namespace StoreSettings

def standard : StoreSettings :=
  ⟨none⟩

def fields : List (Decode.Field StoreSettings) :=
  [.given "snapshot_path" (Decode.optional Decode.text) fun v s => { s with snapshotPath := v }]

end StoreSettings

structure Settings where
  auth : AuthSettings
  store : StoreSettings
deriving DecidableEq

namespace Settings

def standard : Settings :=
  ⟨.standard, .standard⟩

/-- A part of the settings.  An array may hold more items than there are fields. -/
def decodePart {ρ : Type} (fields : List (Decode.Field ρ)) (blank : ρ) : Decoder ρ
  | origin, .array items => Decode.positional origin fields blank (items.take fields.length)
  | origin, value => Decode.record fields blank origin value

def fields : List (Decode.Field Settings) :=
  [.given "auth" (decodePart AuthSettings.fields .standard) fun v s => { s with auth := v },
   .given "store" (decodePart StoreSettings.fields .standard) fun v s => { s with store := v }]

def decode : Decoder Settings :=
  Decode.record fields standard

def ofBytes? (bytes : List UInt8) : Option Settings :=
  match (Utf8.decode? bytes).bind Toml.parse? with
  | none => none
  | some doc =>
      match Decode.ofJson decode doc with
      | .error _ => none
      | .ok settings => some settings

/-- The settings in a file.  Where there is no file, the defaults count. -/
def load (disk : Disk) (path : String) : Except ServiceError Settings :=
  match disk.read path with
  | .error .missing => .ok standard
  | .error .unreadable => .error (.configuration path)
  | .ok bytes =>
      match ofBytes? bytes with
      | none => .error (.configuration path)
      | some settings => .ok settings

/-- The settings with the secret of the environment, unless that is blank. -/
def override (settings : Settings) (secret : Option String) : Settings :=
  match secret with
  | none => settings
  | some secret =>
      if Text.allBlank secret then settings
      else { settings with auth := { settings.auth with secret := some secret } }

/-- The lifetime of issued tokens, cut to the longest one. -/
def tokenSpan (settings : Settings) : Span :=
  (Span.ofSeconds? settings.auth.tokenSeconds.toNat).getD .longest

def tokenKey (settings : Settings) : Except ServiceError TokenKey :=
  match settings.auth.secret with
  | none => .error .missingSecret
  | some secret =>
      if secret.isEmpty then .error .missingSecret
      else (TokenKey.ofSecret secret).mapError .auth

def guard (settings : Settings) : Except ServiceError Guard :=
  settings.tokenKey.map fun key => ⟨key, .new settings.auth.revocationSeconds.toNat⟩

/-- Where the snapshot is kept, in a folder unless the settings say otherwise. -/
def snapshotPath (settings : Settings) (folder : String) : String :=
  settings.store.snapshotPath.getD (folder ++ "/layers.json")

end Settings

namespace Service

/-- The service that settings describe, with the catalogue that its snapshot holds. -/
def ofSettings (settings : Settings) (disk : Disk) (folder : String) :
    Except ServiceError Service :=
  match settings.guard with
  | .error e => .error e
  | .ok guard =>
      match Catalog.openFile disk (settings.snapshotPath folder) with
      | .error e => .error (.catalog e)
      | .ok catalog => .ok ⟨catalog, guard⟩

end Service

end MapCatalog
