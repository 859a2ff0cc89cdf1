import MapCatalog.Auth.Error
import MapCatalog.Catalog.Error
import MapCatalog.Service.Method
import MapCatalog.Style.Error

/-! # Errors of the service -/

namespace MapCatalog

inductive BodyFault where
  | absent (method : Method)
  | undecodable (cause : DecodeError)
deriving DecidableEq

namespace BodyFault

def message : BodyFault → String
  | .absent method => method.name ++ " needs a JSON body"
  | .undecodable cause => cause.message

end BodyFault

inductive ServiceError where
  /-- The configuration at a path cannot be used. -/
  | configuration (path : String)
  | missingSecret
  | auth (cause : AuthError)
  | catalog (cause : CatalogError)
  | record (cause : RecordError)
  | style (cause : StyleError)
  | badBody (fault : BodyFault)
  | noRoute (method : Method) (path : String)
  | methodNotAllowed (method : Method) (path : String)
  | unknownMethod (name : String)
deriving DecidableEq

namespace ServiceError

def message : ServiceError → String
  | .configuration path => "configuration " ++ path
  | .missingSecret => "token secret is not configured (set [auth] secret or JWT_SECRET)"
  | .auth cause => cause.message
  | .catalog cause => cause.message
  | .record cause => cause.message
  | .style cause => cause.message
  | .badBody fault => "invalid request body: " ++ fault.message
  | .noRoute method path => "no route for " ++ method.name ++ " " ++ path
  | .methodNotAllowed method path => method.name ++ " is not supported on " ++ path
  | .unknownMethod name => name ++ " is not supported on "

def userMessage : ServiceError → String
  | .configuration path => "The configuration file at " ++ path ++ " is invalid."
  | .missingSecret => "Authentication is not configured."
  | .auth cause => cause.userMessage
  | .catalog cause => cause.userMessage
  | .record cause => cause.userMessage
  | .style cause => cause.userMessage
  | .badBody fault => "The request could not be read: " ++ fault.message
  | .noRoute _ _ => "Nothing exists at this address."
  | .methodNotAllowed method _ => method.name ++ " is not allowed here."
  | .unknownMethod name => name ++ " is not allowed here."

def authStatus (cause : AuthError) : Nat :=
  if cause.isUnauthorized then 401 else 500

/-- The status of an operation on the catalogue that failed. -/
def catalogStatus : CatalogError → Nat
  | .notFound _ _ => 404
  | .invalid _ => 400
  | .conflict _ _ _ => 409
  | .file _ _ | .snapshot _ _ => 500

def status : ServiceError → Nat
  | .configuration _ | .missingSecret => 500
  | .auth cause => authStatus cause
  | .catalog cause => catalogStatus cause
  | .record _ | .style _ | .badBody _ => 400
  | .noRoute _ _ => 404
  | .methodNotAllowed _ _ | .unknownMethod _ => 405

end ServiceError

end MapCatalog
