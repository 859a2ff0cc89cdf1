import MapCatalog.Auth.Error
import MapCatalog.Auth.Time
import MapCatalog.Bytes.Base64Url
import MapCatalog.Bytes.Hmac
import MapCatalog.Bytes.Utf8
import MapCatalog.Record.Decode
import MapCatalog.Text.Blank
import MapCatalog.Text.Pieces

/-! # Bearer tokens -/

namespace MapCatalog

structure TokenHeader where
  algorithm : String
  type : String
deriving DecidableEq, Inhabited

namespace TokenHeader

def fields : List (Decode.Field TokenHeader) :=
  [.needed "alg" Decode.text fun v h => { h with algorithm := v },
   .given "typ" Decode.text fun v h => { h with type := v }]

def decode : Decoder TokenHeader :=
  Decode.record fields default

def toJson (header : TokenHeader) : Json :=
  .object [("alg", .text header.algorithm), ("typ", .text header.type)]

def algorithmName : String :=
  "HS256"

def standard : TokenHeader :=
  ⟨algorithmName, "JWT"⟩

end TokenHeader

structure Claims where
  subject : String
  /-- The second in which the token was issued. -/
  issuedAt : Int
  /-- The first second in which the token no longer counts. -/
  expiresAt : Int
deriving DecidableEq, Inhabited

namespace Claims

def fields : List (Decode.Field Claims) :=
  [.needed "userId" Decode.text fun v c => { c with subject := v },
   .needed "iat" Decode.signed64 fun v c => { c with issuedAt := v },
   .needed "exp" Decode.signed64 fun v c => { c with expiresAt := v }]

def decode : Decoder Claims :=
  Decode.record fields default

def toJson (claims : Claims) : Json :=
  .object [("userId", .text claims.subject), ("iat", .ofInt claims.issuedAt),
    ("exp", .ofInt claims.expiresAt)]

end Claims

/-- The secret that tokens are signed with, which is not empty. -/
structure TokenKey where
  secret : List UInt8
  secret_ne_nil : secret ≠ []
deriving DecidableEq

namespace TokenKey

def ofSecret (secret : String) : Except AuthError TokenKey :=
  match h : Utf8.encode secret.toList with
  | [] => .error .emptySecret
  | byte :: rest => .ok ⟨byte :: rest, by simp⟩

/-- The authentication code of the characters of the first two segments. -/
def sign (key : TokenKey) (content : List Char) : List UInt8 :=
  Hmac.code key.secret (Utf8.encode content)

def segment (doc : Json) : List Char :=
  Base64Url.encode (Utf8.encode doc.compactChars)

def readSegment {α : Type} (decode : Decoder α) (chars : List Char) : Option α :=
  match Base64Url.decode? chars with
  | none => none
  | some bytes =>
      match Decode.ofText decode (Utf8.documentChars bytes) with
      | .error _ => none
      | .ok value => some value

def signed (key : TokenKey) (content : List Char) : List Char :=
  content ++ '.' :: Base64Url.encode (key.sign content)

def tokenOf (key : TokenKey) (claims : Claims) : String :=
  String.ofList (key.signed (segment TokenHeader.standard.toJson ++ '.' :: segment claims.toJson))

def issue (key : TokenKey) (subject : String) (issuedAt : Instant) (lifetime : Span) :
    Except AuthError String :=
  match issuedAt.add? lifetime with
  | none => .error .endlessLifetime
  | some expiresAt => .ok (key.tokenOf ⟨subject, issuedAt.seconds, expiresAt.seconds⟩)

/-- Check the claims of a token whose signature is right. -/
def checkClaims (now : Instant) (claims : Claims) : Except AuthError Claims :=
  if Text.allBlank claims.subject then .error (.malformed .subject)
  else if claims.expiresAt ≤ now.seconds then .error (.expired claims.expiresAt)
  else .ok claims

def verifySegments (key : TokenKey) (now : Instant) (header claims signature : List Char) :
    Except AuthError Claims :=
  match readSegment TokenHeader.decode header with
  | none => .error (.malformed .header)
  | some found =>
      if found.algorithm ≠ TokenHeader.algorithmName then
        .error (.unsupportedAlgorithm found.algorithm)
      else
        match Base64Url.decode? signature with
        | none => .error (.malformed .signature)
        | some code =>
            if code ≠ key.sign (header ++ '.' :: claims) then
              .error .badSignature
            else
              match readSegment Claims.decode claims with
              | none => .error (.malformed .claims)
              | some claims => checkClaims now claims

def verify (key : TokenKey) (token : String) (now : Instant) : Except AuthError Claims :=
  match Text.pieces (· == '.') token.toList with
  | [header, claims, signature] => key.verifySegments now header claims signature
  | _ => .error (.malformed .segments)

def describe (_ : TokenKey) : String :=
  "TokenKey \x7b secret: \"[REDACTED]\" \x7d"

end TokenKey

namespace Token

def hex (bytes : List UInt8) : List Char :=
  bytes.flatMap fun byte => [Json.hexDigit (byte.toNat / 16), Json.hexDigit (byte.toNat % 16)]

/-- A short name for a token that gives nothing of it away: the start of its digest. -/
def fingerprint (token : String) : String :=
  String.ofList (hex ((Sha256.digest (Utf8.encode token.toList)).take 6))

end Token

end MapCatalog
