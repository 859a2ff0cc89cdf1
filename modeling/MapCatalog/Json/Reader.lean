import MapCatalog.Json.Reading
import MapCatalog.Json.Numeral

/-! # Reading documents

Members stay in text order, repeated keys included.  Where the text goes wrong the reader leaves a fault and stops.
-/

namespace MapCatalog

namespace Json

def isSpace (c : Char) : Bool :=
  c == ' ' || c == '\n' || c == '\t' || c == '\r'

def skipSpaces (chars : List Char) : List Char :=
  chars.dropWhile isSpace

/-! ## Texts -/

def hexValue? (c : Char) : Option Nat :=
  if '0' ≤ c ∧ c ≤ '9' then some (c.toNat - '0'.toNat)
  else if 'a' ≤ c ∧ c ≤ 'f' then some (c.toNat - 'a'.toNat + 10)
  else if 'A' ≤ c ∧ c ≤ 'F' then some (c.toNat - 'A'.toNat + 10)
  else none

def hexUnit? (a b c d : Char) : Option Nat := do
  return (((← hexValue? a) * 16 + (← hexValue? b)) * 16 + (← hexValue? c)) * 16 + (← hexValue? d)

def unescape? (c : Char) : Option Char :=
  if c = '"' ∨ c = '\\' ∨ c = '/' then some c
  else if c = 'b' then some '\x08'
  else if c = 'f' then some '\x0c'
  else if c = 'n' then some '\n'
  else if c = 'r' then some '\r'
  else if c = 't' then some '\t'
  else none

def isHighHalf (unit : Nat) : Bool :=
  0xD800 ≤ unit && unit < 0xDC00

def isLowHalf (unit : Nat) : Bool :=
  0xDC00 ≤ unit && unit < 0xE000

def joinHalves (high low : Nat) : Char :=
  Char.ofNat (0x10000 + (high - 0xD800) * 0x400 + (low - 0xDC00))

/-- What a quoted text came to: its characters, unless it holds half a character. -/
abbrev Quotation :=
  Option (List Char)

def prepend (c : Char) (read : Option (Quotation × List Char)) : Option (Quotation × List Char) :=
  read.map fun (body, rest) => (body.map (c :: ·), rest)

/-- A quotation that stands for nothing, read with the rest of the text. -/
def spoil (read : Option (Quotation × List Char)) : Option (Quotation × List Char) :=
  read.map fun (_, rest) => (none, rest)

/-- The rest of a quotation behind the first half of a character that nothing completed. -/
def settle (pending : Option Nat) (read : Option (Quotation × List Char)) :
    Option (Quotation × List Char) :=
  if pending.isSome then spoil read else read

/--
A text up to its closing quote, and what follows it.  There is no result where the quote is missing,
an escape is unknown, or a control character stands bare.  The first half of a character waits in
`pending` for the escape of the second.
-/
def readQuotation (pending : Option Nat) : List Char → Option (Quotation × List Char)
  | [] => none
  | '"' :: rest => settle pending (some (some [], rest))
  | '\\' :: 'u' :: a :: b :: c :: d :: rest =>
      match hexUnit? a b c d, pending with
      | none, _ => none
      | some unit, some high =>
          if isLowHalf unit then prepend (joinHalves high unit) (readQuotation none rest)
          else spoil (readQuotation none rest)
      | some unit, none =>
          if isLowHalf unit then spoil (readQuotation none rest)
          else if isHighHalf unit then readQuotation (some unit) rest
          else prepend (Char.ofNat unit) (readQuotation none rest)
  | '\\' :: c :: rest =>
      match unescape? c with
      | some c => settle pending (prepend c (readQuotation none rest))
      | none => none
  | c :: rest =>
      if c.toNat < 0x20 then none else settle pending (prepend c (readQuotation none rest))

/-! ## Values -/

/-- The value of a container when `room` further levels may open. -/
def enclose (room : Nat) (container : Reading) : Reading :=
  if 0 < room then container
  else if container.wellFormed then .fault .meaningless
  else .fault .malformed

/-- A key without a value, where the text goes wrong. -/
def brokenMember (key : Option String) : Option String × Reading :=
  (key, .fault .malformed)

def ofQuotation (body : Quotation) : Reading :=
  match body with
  | some chars => .text (String.ofList chars)
  | none => .fault .meaningless

mutual

/-- A value, of which `room` levels may be containers, and what follows it. -/
def readValue : (fuel room : Nat) → List Char → Reading × List Char
  | 0, _, _ => (.fault .malformed, [])
  | fuel + 1, room, chars =>
      match skipSpaces chars with
      | 'n' :: 'u' :: 'l' :: 'l' :: rest => (.null, rest)
      | 't' :: 'r' :: 'u' :: 'e' :: rest => (.bool true, rest)
      | 'f' :: 'a' :: 'l' :: 's' :: 'e' :: rest => (.bool false, rest)
      | '"' :: rest =>
          match readQuotation none rest with
          | some (body, rest) => (ofQuotation body, rest)
          | none => (.fault .malformed, [])
      | '[' :: rest =>
          match skipSpaces rest with
          | ']' :: rest => (enclose room (.array []), rest)
          | rest =>
              let (items, rest) := readItems fuel (room - 1) rest
              (enclose room (.array items), rest)
      | '\x7b' :: rest =>
          match skipSpaces rest with
          | '\x7d' :: rest => (enclose room (.object []), rest)
          | rest =>
              let (members, rest) := readMembers fuel (room - 1) rest
              (enclose room (.object members), rest)
      | chars =>
          match readNumeral chars with
          | some (numeral, rest) =>
              match numeral.value? with
              | some value => (.number value, rest)
              | none => (.fault .meaningless, rest)
          | none => (.fault .malformed, [])

def readItems : (fuel room : Nat) → List Char → List Reading × List Char
  | 0, _, _ => ([.fault .malformed], [])
  | fuel + 1, room, chars =>
      let (item, rest) := readValue fuel room chars
      match skipSpaces rest with
      | ',' :: rest =>
          let (items, rest) := readItems fuel room rest
          (item :: items, rest)
      | ']' :: rest => ([item], rest)
      | _ => ([item, .fault .malformed], [])

def readMembers : (fuel room : Nat) → List Char → Reading.Members × List Char
  | 0, _, _ => ([brokenMember none], [])
  | fuel + 1, room, chars =>
      match skipSpaces chars with
      | '"' :: rest =>
          match readQuotation none rest with
          | none => ([brokenMember none], [])
          | some (key, rest) =>
              let key := key.map String.ofList
              match skipSpaces rest with
              | ':' :: rest =>
                  let (value, rest) := readValue fuel room rest
                  match skipSpaces rest with
                  | ',' :: rest =>
                      let (members, rest) := readMembers fuel room rest
                      ((key, value) :: members, rest)
                  | '\x7d' :: rest => ([(key, value)], rest)
                  | _ => ([(key, value), brokenMember none], [])
              | _ => ([brokenMember key], [])
      | _ => ([brokenMember none], [])

end

/-! ## Whole texts -/

def maxDepth : Nat :=
  127

structure Document where
  root : Reading
  /-- Whether nothing but blanks follows the value. -/
  ended : Bool

/-- Read a text.  Each character costs at most two steps of fuel. -/
def read (chars : List Char) : Document :=
  let (root, rest) := readValue (2 * chars.length + 2) maxDepth chars
  ⟨root, (skipSpaces rest).isEmpty⟩

def parseRaw? (chars : List Char) : Option Json :=
  let document := read chars
  if document.ended then document.root.toJson? else none

def parse? (text : String) : Option Json :=
  (parseRaw? text.toList).map normalize

end Json

end MapCatalog
