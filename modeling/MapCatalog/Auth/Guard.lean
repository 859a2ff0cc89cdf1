import MapCatalog.Auth.Token
import MapCatalog.Auth.Revocation
import MapCatalog.Text.Case

/-! # The guard -/

namespace MapCatalog

structure Guard where
  key : TokenKey
  revocations : Revocations
deriving DecidableEq

namespace Guard

def scheme : List Char :=
  "bearer".toList

/-- The token in an authorization value, whose scheme is optional. -/
def tokenChars (value : List Char) : List Char :=
  let trimmed := Text.trimEnd (Text.trimStart value)
  let rest := trimmed.drop scheme.length
  if (trimmed.take scheme.length).map Char.toLower = scheme ∧
      (rest.head?.map Text.isBlank).getD true then
    Text.trimStart rest
  else
    trimmed

def token? (authorization : Option String) : Option String :=
  match authorization with
  | none => none
  | some value =>
      match tokenChars value.toList with
      | [] => none
      | chars => some (String.ofList chars)

/-- The subject of a request, and the guard as the look-up leaves it. -/
def check (guard : Guard) (authorization : Option String) (now : Instant) :
    Except AuthError String × Guard :=
  match token? authorization with
  | none => (.error .missingToken, guard)
  | some token =>
      match guard.key.verify token now with
      | .error e => (.error e, guard)
      | .ok claims =>
          let (revoked, revocations) := guard.revocations.check claims.subject now
          let guard := { guard with revocations := revocations }
          if revoked then (.error (.revoked claims.subject), guard)
          else (.ok claims.subject, guard)

def revoke (guard : Guard) (subject : String) (now : Instant) : Guard :=
  { guard with revocations := guard.revocations.revoke subject now }

end Guard

end MapCatalog
