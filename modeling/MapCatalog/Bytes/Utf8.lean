/-! # Texts as bytes -/

namespace MapCatalog

namespace Utf8

def encode (chars : List Char) : List UInt8 :=
  chars.flatMap String.utf8EncodeChar

def decode? (bytes : List UInt8) : Option (List Char) :=
  (String.fromUTF8? bytes.toByteArray).map String.toList

/-- An escape in a document that stands for no character, whatever is written around it. -/
def strayEscape : List Char :=
  "\\udc00\\udc00".toList

/--
The characters that bytes encode, with an escape for every byte that belongs to none.  A backslash
before such a byte has nothing to escape, and a character follows that is allowed nowhere.
-/
def salvage : (fuel : Nat) → (escaping : Bool) → List UInt8 → List Char
  | 0, _, _ => []
  | _ + 1, _, [] => []
  | fuel + 1, escaping, byte :: rest =>
      match (byte :: rest).toByteArray.utf8DecodeChar? 0 with
      | some c => c :: salvage fuel (c = '\\' && !escaping) ((byte :: rest).drop c.utf8Size)
      | none => (if escaping then ['\x00'] else strayEscape) ++ salvage fuel false rest

def documentChars (bytes : List UInt8) : List Char :=
  match decode? bytes with
  | some chars => chars
  | none => salvage bytes.length false bytes

end Utf8

end MapCatalog
