import MapCatalog.Record.VisualType
import MapCatalog.Service.Error

/-! # Errors of commands -/

namespace MapCatalog

inductive CommandError where
  /-- The file for the log cannot be opened. -/
  | log
  | settings (cause : ServiceError)
  | readForm (path : String)
  | decodeForm (path : String) (cause : DecodeError)
  | compile (type : VisualType) (cause : StyleError)
  | blankSubject
  | tokenKey (cause : ServiceError)
  /-- The lifetime asked for is longer than any lifetime. -/
  | lifetime
  | issue (cause : AuthError)
  | rejected (cause : AuthError)
  | openSnapshot (path : String) (cause : CatalogError)
  | unknownMethod (name : String)
  | readBody (path : String)
  | parseBody (path : String)
  | guard (cause : ServiceError)
  | saveSnapshot (path : String) (cause : CatalogError)
deriving DecidableEq

namespace CommandError

/-- What was being done, and the reasons one behind the other. -/
def message : CommandError → String
  | .log => "failed to initialize logging"
  | .settings cause => "loading configuration: " ++ cause.message
  | .readForm path => "reading " ++ path
  | .decodeForm path cause => "parsing layer form " ++ path ++ ": " ++ cause.message
  | .compile type cause => "compiling " ++ type.name ++ " layer: " ++ cause.message
  | .blankSubject => "subject must not be empty"
  | .tokenKey cause => "building token key: " ++ cause.message
  | .lifetime => "token lifetime is too large"
  | .issue cause => "signing token: " ++ cause.message
  | .rejected cause => "token rejected: " ++ cause.message
  | .openSnapshot path cause => "opening snapshot " ++ path ++ ": " ++ cause.message
  | .unknownMethod name =>
      "unsupported method '" ++ name ++ "': " ++ (ServiceError.unknownMethod name).message
  | .readBody path => "reading body " ++ path
  | .parseBody path => "parsing body " ++ path ++ ": " ++ DecodeError.invalidValue.message
  | .guard cause => "building auth guard: " ++ cause.message
  | .saveSnapshot path cause => "saving snapshot " ++ path ++ ": " ++ cause.message

end CommandError

end MapCatalog
