import MapCatalog.Json.Reader

/-! # Quoted texts of a configuration -/

namespace MapCatalog

namespace Toml

def isBlank (c : Char) : Bool :=
  c == ' ' || c == '\t'

def isControl (c : Char) : Bool :=
  (c.toNat < 0x20 && c != '\t') || c.toNat == 0x7F

def afterBreak? : List Char → Option (List Char)
  | '\n' :: rest => some rest
  | '\r' :: '\n' :: rest => some rest
  | _ => none

def unescape? (c : Char) : Option Char :=
  if c = '/' then none else Json.unescape? c

def character? (n : Nat) : Option Char :=
  if n.isValidChar then some (Char.ofNat n) else none

def numbered? (digits : List Char) : Option Char :=
  match digits.mapM Json.hexValue? with
  | some digits => character? (digits.foldl (fun total digit => 16 * total + digit) 0)
  | none => none

def prepend (c : Char) (read : Option (List Char × List Char)) : Option (List Char × List Char) :=
  read.map fun (body, rest) => (c :: body, rest)

/-- A character, if there is one, and then the rest of the text. -/
def prependFound (c : Option Char) (read : Option (List Char × List Char)) :
    Option (List Char × List Char) :=
  match c with
  | some c => prepend c read
  | none => none

def basic : List Char → Option (List Char × List Char)
  | [] => none
  | '"' :: rest => some ([], rest)
  | '\\' :: 'u' :: a :: b :: c :: d :: rest => prependFound (numbered? [a, b, c, d]) (basic rest)
  | '\\' :: 'U' :: a :: b :: c :: d :: e :: f :: g :: h :: rest =>
      prependFound (numbered? [a, b, c, d, e, f, g, h]) (basic rest)
  | '\\' :: c :: rest => prependFound (unescape? c) (basic rest)
  | c :: rest => if isControl c then none else prepend c (basic rest)

def literal : List Char → Option (List Char × List Char)
  | [] => none
  | '\'' :: rest => some ([], rest)
  | c :: rest => if isControl c then none else prepend c (literal rest)

def dropBreak (chars : List Char) : List Char :=
  (afterBreak? chars).getD chars

def endsLine (chars : List Char) : Bool :=
  (afterBreak? (chars.dropWhile isBlank)).isSome

/--
A text of several lines up to its three double quotes, and what follows them.  A backslash at the end
of a line makes a gap, in which blanks and line breaks count for nothing.
-/
def basicLines (gap : Bool) : List Char → Option (List Char × List Char)
  | [] => none
  | '"' :: '"' :: '"' :: '"' :: '"' :: rest => some (['"', '"'], rest)
  | '"' :: '"' :: '"' :: '"' :: rest => some (['"'], rest)
  | '"' :: '"' :: '"' :: rest => some ([], rest)
  | '\\' :: 'u' :: a :: b :: c :: d :: rest =>
      prependFound (numbered? [a, b, c, d]) (basicLines false rest)
  | '\\' :: 'U' :: a :: b :: c :: d :: e :: f :: g :: h :: rest =>
      prependFound (numbered? [a, b, c, d, e, f, g, h]) (basicLines false rest)
  | '\\' :: c :: rest =>
      if endsLine (c :: rest) then basicLines true (c :: rest)
      else prependFound (unescape? c) (basicLines false rest)
  | '\r' :: '\n' :: rest => if gap then basicLines true rest else prepend '\n' (basicLines false rest)
  | c :: rest =>
      if gap && (isBlank c || c == '\n') then basicLines true rest
      else if isControl c && c != '\n' then none
      else prepend c (basicLines false rest)

def literalLines : List Char → Option (List Char × List Char)
  | [] => none
  | '\'' :: '\'' :: '\'' :: '\'' :: '\'' :: rest => some (['\'', '\''], rest)
  | '\'' :: '\'' :: '\'' :: '\'' :: rest => some (['\''], rest)
  | '\'' :: '\'' :: '\'' :: rest => some ([], rest)
  | '\r' :: '\n' :: rest => prepend '\n' (literalLines rest)
  | c :: rest =>
      if isControl c && c != '\n' then none else prepend c (literalLines rest)

end Toml

end MapCatalog
