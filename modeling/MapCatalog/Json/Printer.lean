import MapCatalog.Json.Basic
import MapCatalog.Binary64.Layout

/-! # Written documents -/

namespace MapCatalog

namespace Json

def hexDigit (n : Nat) : Char :=
  Nat.digitChar n

def escapeChar (c : Char) : List Char :=
  if c = '"' then ['\\', '"']
  else if c = '\\' then ['\\', '\\']
  else if c = '\x08' then ['\\', 'b']
  else if c = '\t' then ['\\', 't']
  else if c = '\n' then ['\\', 'n']
  else if c = '\x0c' then ['\\', 'f']
  else if c = '\r' then ['\\', 'r']
  else if c.toNat < 0x20 then
    ['\\', 'u', '0', '0', hexDigit (c.toNat / 16), hexDigit (c.toNat % 16)]
  else [c]

def escape (chars : List Char) : List Char :=
  chars.flatMap escapeChar

def quoted (text : String) : List Char :=
  '"' :: (escape text.toList ++ ['"'])

def wholeChars (n : Int) : List Char :=
  if n < 0 then '-' :: Nat.toDigits 10 n.natAbs else Nat.toDigits 10 n.natAbs

def numberChars : Number → List Char
  | .whole n => wholeChars n
  | .float x =>
      if x.isFinite then Binary64.finiteText Binary64.documentLayout x else "null".toList

def boolChars (flag : Bool) : List Char :=
  if flag then "true".toList else "false".toList

mutual

def compactChars : Json → List Char
  | .null => "null".toList
  | .bool flag => boolChars flag
  | .number value => numberChars value
  | .text value => quoted value
  | .array [] => ['[', ']']
  | .array (item :: rest) => '[' :: (compactChars item ++ compactItems rest)
  | .object [] => ['\x7b', '\x7d']
  | .object ((key, value) :: rest) =>
      '\x7b' :: (quoted key ++ ':' :: (compactChars value ++ compactMembers rest))

/-- The items after the first, and the closing bracket. -/
def compactItems : List Json → List Char
  | [] => [']']
  | item :: rest => ',' :: (compactChars item ++ compactItems rest)

def compactMembers : List (String × Json) → List Char
  | [] => ['\x7d']
  | (key, value) :: rest =>
      ',' :: (quoted key ++ ':' :: (compactChars value ++ compactMembers rest))

end

def lineBreak (level : Nat) : List Char :=
  '\n' :: List.replicate (2 * level) ' '

mutual

/-- The indented form; the lines inside start one level further in than `level`. -/
def prettyChars (level : Nat) : Json → List Char
  | .null => "null".toList
  | .bool flag => boolChars flag
  | .number value => numberChars value
  | .text value => quoted value
  | .array [] => ['[', ']']
  | .array (item :: rest) =>
      '[' :: (lineBreak (level + 1) ++ prettyChars (level + 1) item ++ prettyItems level rest)
  | .object [] => ['\x7b', '\x7d']
  | .object ((key, value) :: rest) =>
      '\x7b' :: (lineBreak (level + 1) ++ quoted key ++ ':' :: ' ' ::
        (prettyChars (level + 1) value ++ prettyMembers level rest))

def prettyItems (level : Nat) : List Json → List Char
  | [] => lineBreak level ++ [']']
  | item :: rest =>
      ',' :: (lineBreak (level + 1) ++ prettyChars (level + 1) item ++ prettyItems level rest)

def prettyMembers (level : Nat) : List (String × Json) → List Char
  | [] => lineBreak level ++ ['\x7d']
  | (key, value) :: rest =>
      ',' :: (lineBreak (level + 1) ++ quoted key ++ ':' :: ' ' ::
        (prettyChars (level + 1) value ++ prettyMembers level rest))

end

def compact (doc : Json) : String :=
  String.ofList (compactChars doc)

def pretty (doc : Json) : String :=
  String.ofList (prettyChars 0 doc)

end Json

end MapCatalog
