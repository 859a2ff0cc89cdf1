/-! # Errors of authorization -/

namespace MapCatalog

inductive TokenPart where
  /-- There are not exactly three segments. -/
  | segments
  | header
  | signature
  | claims
  /-- The subject is blank. -/
  | subject
deriving DecidableEq

namespace TokenPart

def message : TokenPart → String
  | .segments => "expected three segments"
  | .header => "header"
  | .signature => "signature"
  | .claims => "claims"
  | .subject => "empty userId claim"

end TokenPart

inductive AuthError where
  | missingToken
  | malformed (part : TokenPart)
  | unsupportedAlgorithm (name : String)
  | badSignature
  /-- The second at which the token expired. -/
  | expired (second : Int)
  | revoked (subject : String)
  | emptySecret
  /-- The token would expire at a moment without a calendar date. -/
  | endlessLifetime
deriving DecidableEq

namespace AuthError

def message : AuthError → String
  | .missingToken => "missing bearer token"
  | .malformed part => "malformed token: " ++ part.message
  | .unsupportedAlgorithm name => "unsupported token algorithm: " ++ name
  | .badSignature => "token signature mismatch"
  | .expired second => "token expired at " ++ toString second
  | .revoked subject => "token subject " ++ subject ++ " has been revoked"
  | .emptySecret => "token secret must not be empty"
  | .endlessLifetime => "failed to sign token: token lifetime is out of range"

def userMessage : AuthError → String
  | .missingToken => "Sign in to make changes."
  | .expired _ => "Your session has expired. Please sign in again."
  | .revoked _ => "Your session has ended. Please sign in again."
  | .malformed _ | .unsupportedAlgorithm _ | .badSignature =>
      "Your session is not valid. Please sign in again."
  | .emptySecret | .endlessLifetime => "Authentication is not configured."

def isUnauthorized : AuthError → Bool
  | .emptySecret | .endlessLifetime => false
  | _ => true

end AuthError

end MapCatalog
