import MapCatalog.Bytes.Sha256

/-! # Message authentication -/

namespace MapCatalog

namespace Hmac

/-- The secret as sixty-four bytes; a longer one is digested first. -/
def keyBlock (secret : List UInt8) : List UInt8 :=
  let short := if 64 < secret.length then Sha256.digest secret else secret
  short ++ List.replicate (64 - short.length) 0

def code (secret message : List UInt8) : List UInt8 :=
  let key := keyBlock secret
  let inner := Sha256.digest (key.map (· ^^^ 0x36) ++ message)
  Sha256.digest (key.map (· ^^^ 0x5c) ++ inner)

end Hmac

end MapCatalog
