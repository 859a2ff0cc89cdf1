import MapCatalog.Text.Blank
import MapCatalog.Text.Case
import MapCatalog.Record.Error
import MapCatalog.Record.Decode

/-! # Record identifiers

An identifier is read from its hyphenated form, from the bare digits, from the form in braces, and from the form behind
`urn:uuid:`, in letters of any case.
-/

namespace MapCatalog

structure Id (tier : Tier) where
  value : BitVec 128
deriving DecidableEq

namespace Id

variable {tier : Tier}

/-- The identifier of all zeros, which stands in until one is known. -/
instance : Inhabited (Id tier) :=
  ⟨⟨0⟩⟩

def hexDigits (width n : Nat) : List Nat :=
  match width with
  | 0 => []
  | width + 1 => hexDigits width (n / 16) ++ [n % 16]

def ofHexDigits (digits : List Nat) : Nat :=
  digits.foldl (fun total digit => total * 16 + digit) 0

theorem length_hexDigits (width n : Nat) :
    (hexDigits width n).length = width := by
  induction width generalizing n with
  | zero =>
      rfl
  | succ width ih =>
      simp [hexDigits, ih]

theorem ofHexDigits_hexDigits {width n : Nat} (h : n < Nat.pow 16 width) :
    ofHexDigits (hexDigits width n) = n := by
  induction width generalizing n with
  | zero =>
      simp at h
      simp [hexDigits, ofHexDigits, h]
  | succ width ih =>
      have hdiv : n / 16 < Nat.pow 16 width := by
        have hpow : Nat.pow 16 (width + 1) = Nat.pow 16 width * 16 := rfl
        rw [hpow] at h
        omega
      have hrec := ih hdiv
      simp only [ofHexDigits] at hrec
      simp only [hexDigits, ofHexDigits, List.foldl_append, List.foldl_cons, List.foldl_nil, hrec]
      omega

/-- Put hyphens behind the digits 8, 12, 16 and 20. -/
def hyphenate (chars : List Char) : List Char :=
  chars.take 8 ++ '-' :: ((chars.drop 8).take 4 ++ '-' :: ((chars.drop 12).take 4 ++
    '-' :: ((chars.drop 16).take 4 ++ '-' :: chars.drop 20)))

def dehyphenate? (chars : List Char) : Option (List Char) :=
  let digits := chars.take 8 ++ ((chars.drop 9).take 4 ++ ((chars.drop 14).take 4 ++
    ((chars.drop 19).take 4 ++ chars.drop 24)))
  if chars = hyphenate digits then some digits else none

def readDigits? (chars : List Char) : Option (Id tier) :=
  if chars.length = 32 then
    (chars.mapM Json.hexValue?).map fun digits => ⟨BitVec.ofNat 128 (ofHexDigits digits)⟩
  else
    none

def hasUrn (chars : List Char) : Bool :=
  (chars.take 9).map Char.toLower == "urn:uuid:".toList

def ofChars? (chars : List Char) : Option (Id tier) :=
  if chars.length = 32 then
    readDigits? chars
  else if chars.length = 38 ∧ chars.head? = some '\x7b' ∧ chars.getLast? = some '\x7d' then
    (dehyphenate? (chars.drop 1).dropLast).bind readDigits?
  else if chars.length = 45 ∧ hasUrn chars then
    (dehyphenate? (chars.drop 9)).bind readDigits?
  else
    (dehyphenate? chars).bind readDigits?

def toChars (id : Id tier) : List Char :=
  hyphenate ((hexDigits 32 id.value.toNat).map Json.hexDigit)

protected def toString (id : Id tier) : String :=
  String.ofList id.toChars

instance : ToString (Id tier) :=
  ⟨Id.toString⟩

def parse (tier : Tier) (text : String) : Except RecordError (Id tier) :=
  match ofChars? (Text.trim text).toList with
  | some id => .ok id
  | none => .error (.invalidId tier text)

/-- An identifier inside a record, which is not trimmed. -/
def decode : Decoder (Id tier)
  | _, .text text =>
      match ofChars? text.toList with
      | some id => .ok id
      | none => .error .invalidValue
  | _, _ => .error .invalidValue

def toJson (id : Id tier) : Json :=
  .text id.toString

end Id

abbrev SectionId :=
  Id .sections

abbrev GroupId :=
  Id .groups

abbrev LayerId :=
  Id .layers

end MapCatalog
