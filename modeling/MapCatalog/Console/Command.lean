import MapCatalog.Console.Error
import MapCatalog.Service.Settings

/-! # Commands -/

namespace MapCatalog

namespace Command

def textFile? (disk : Disk) (path : String) : Option (List Char) :=
  match disk.read path with
  | .ok bytes => Utf8.decode? bytes
  | .error _ => none

/-! ## Compiling a form -/

structure Compilation where
  type : VisualType
  style : CompiledStyle
  source : Source
deriving DecidableEq

namespace Compilation

def toJson (compilation : Compilation) : Json :=
  .object [("type", compilation.type.toJson), ("paint", .object compilation.style.paint),
    ("layout", .object compilation.style.layout), ("source", compilation.source.toJson)]

end Compilation

def compileForm (form : LayerForm) : Except CommandError Compilation :=
  match form.style.compile form.visualType with
  | .error e => .error (.compile form.visualType e)
  | .ok style =>
      .ok ⟨form.visualType, style, Source.resolve form.sourceType form.sourceUrl⟩

def compile (disk : Disk) (path : String) : Except CommandError Compilation :=
  match textFile? disk path with
  | none => .error (.readForm path)
  | some chars =>
      match Decode.ofText LayerForm.decode chars with
      | .error e => .error (.decodeForm path e)
      | .ok form => compileForm form

/-! ## Tokens -/

/-- The lifetime that is asked for, or else that of the settings. -/
def lifetime (settings : Settings) : Option UInt64 → Except CommandError Span
  | none => .ok settings.tokenSpan
  | some seconds =>
      match Span.ofSeconds? seconds.toNat with
      | none => .error .lifetime
      | some span => .ok span

def issue (settings : Settings) (subject : String) (seconds : Option UInt64) (now : Instant) :
    Except CommandError String :=
  if Text.allBlank subject then
    .error .blankSubject
  else
    match settings.tokenKey with
    | .error e => .error (.tokenKey e)
    | .ok key =>
        match lifetime settings seconds with
        | .error e => .error e
        | .ok span => (key.issue subject now span).mapError .issue

def verify (settings : Settings) (token : String) (now : Instant) : Except CommandError Claims :=
  match settings.tokenKey with
  | .error e => .error (.tokenKey e)
  | .ok key => (key.verify (Text.trim token) now).mapError .rejected

/-! ## Snapshots -/

def openSnapshot (disk : Disk) (path : String) : Except CommandError Catalog :=
  (Catalog.openFile disk path).mapError (.openSnapshot path)

def trees (disk : Disk) (path : String) : Except CommandError (List SectionTree) :=
  (openSnapshot disk path).map Catalog.trees

/-! ## Requests -/

structure Call where
  method : String
  path : String
  /-- The file with the body. -/
  body : Option String
  /-- The authorization value. -/
  token : Option String
deriving DecidableEq

def body (disk : Disk) : Option String → Except CommandError (Option Json)
  | none => .ok none
  | some path =>
      match textFile? disk path with
      | none => .error (.readBody path)
      | some chars =>
          match Json.parseRaw? chars with
          | none => .error (.parseBody path)
          | some doc => .ok (some doc.normalize)

def toRequest (disk : Disk) (call : Call) : Except CommandError Request :=
  match Method.ofName? call.method with
  | none => .error (.unknownMethod call.method)
  | some method =>
      (body disk call.body).map fun found => ⟨method, call.path, call.token, found⟩

def serviceFor (settings : Settings) (disk : Disk) (snapshot : String) :
    Except CommandError Service :=
  match openSnapshot disk snapshot with
  | .error e => .error e
  | .ok catalog =>
      match settings.guard with
      | .error e => .error (.guard e)
      | .ok guard => .ok ⟨catalog, guard⟩

/-- Save the catalogue after a success that may have changed something. -/
def keep (service : Service) (method : Method) (response : Response) (snapshot : String)
    (disk : Disk) : Except CommandError Response × Disk :=
  if response.isSuccess && method.isMutation then
    let (saved, disk) := service.catalog.save snapshot disk
    match saved with
    | .error e => (.error (.saveSnapshot snapshot e), disk)
    | .ok _ => (.ok response, disk)
  else
    (.ok response, disk)

/-- Answer a single request with a service of its own, and the disk after it. -/
def request (settings : Settings) (call : Call) (snapshot : String) (now : Instant)
    (fresh : BitVec 128) (disk : Disk) : Except CommandError Response × Disk :=
  match toRequest disk call with
  | .error e => (.error e, disk)
  | .ok request =>
      match serviceFor settings disk snapshot with
      | .error e => (.error e, disk)
      | .ok service =>
          let (response, service) := service.handle request now fresh
          keep service request.method response snapshot disk

end Command

end MapCatalog
