import MapCatalog.Toml.Quoted
import MapCatalog.Toml.Scalar
import MapCatalog.Toml.Table

/-! # Reading a configuration -/

namespace MapCatalog

namespace Toml

def skipBlanks (chars : List Char) : List Char :=
  chars.dropWhile isBlank

/-! ## Ends of lines -/

def skipComment : List Char → List Char
  | '#' :: rest => rest.dropWhile fun c => !isControl c
  | rest => rest

def endLine? (chars : List Char) : Option (List Char) :=
  match skipComment (skipBlanks chars) with
  | [] => some []
  | rest => afterBreak? rest

def skipLines : (fuel : Nat) → List Char → List Char
  | 0, chars => chars
  | fuel + 1, chars =>
      let chars := skipBlanks chars
      match afterBreak? (skipComment chars) with
      | some rest => skipLines fuel rest
      | none => chars

/-! ## Keys -/

def isKeyChar (c : Char) : Bool :=
  c.isAlphanum || c == '_' || c == '-'

def key? : List Char → Option (String × List Char)
  | '"' :: rest => (basic rest).map fun (key, rest) => (String.ofList key, rest)
  | '\'' :: rest => (literal rest).map fun (key, rest) => (String.ofList key, rest)
  | chars =>
      match chars.takeWhile isKeyChar with
      | [] => none
      | key => some (String.ofList key, chars.dropWhile isKeyChar)

/-- The parts of a dotted key: those before the last one, the last one, and what follows. -/
def dottedKey? : (fuel : Nat) → List Char → Option (List String × String × List Char)
  | 0, _ => none
  | fuel + 1, chars =>
      match key? (skipBlanks chars) with
      | none => none
      | some (key, rest) =>
          match skipBlanks rest with
          | '.' :: rest =>
              (dottedKey? fuel rest).map fun (path, last, rest) => (key :: path, last, rest)
          | rest => some ([], key, rest)

/-! ## Values -/

def isScalarChar (c : Char) : Bool :=
  c.isAlphanum || c == '_' || c == '-' || c == '+' || c == '.' || c == ':'

/-- A bare value, and what follows it.  A blank may stand between a date and a time. -/
def bare? (chars : List Char) : Option (Json × List Char) :=
  let word := chars.takeWhile isScalarChar
  let rest := chars.dropWhile isScalarChar
  match isDate word, rest with
  | true, ' ' :: more =>
      match more.takeWhile isScalarChar with
      | [] => (scalar? word).map fun value => (value, rest)
      | time => (scalar? (word ++ ' ' :: time)).map fun value =>
          (value, more.dropWhile isScalarChar)
  | _, _ => (scalar? word).map fun value => (value, rest)

def quoted (read : Option (List Char × List Char)) : Option (Json × List Char) :=
  read.map fun (body, rest) => (.text (String.ofList body), rest)

def maxDepth : Nat :=
  80

mutual

/-- A value, of which `room` levels may be arrays and inline tables, and what follows it. -/
def value? : (fuel room : Nat) → List Char → Option (Json × List Char)
  | 0, _, _ => none
  | fuel + 1, room, chars =>
      match chars with
      | '"' :: '"' :: '"' :: rest => quoted (basicLines false (dropBreak rest))
      | '"' :: rest => quoted (basic rest)
      | '\'' :: '\'' :: '\'' :: rest => quoted (literalLines (dropBreak rest))
      | '\'' :: rest => quoted (literal rest)
      | '[' :: rest =>
          if room = 0 then none
          else (items? fuel (room - 1) rest).map fun (items, rest) => (.array items, rest)
      | '\x7b' :: rest =>
          if room = 0 then none
          else
            match skipBlanks rest with
            | '\x7d' :: rest => some (.object [], rest)
            | rest =>
                (inline? fuel (room - 1) .empty rest).map fun (table, rest) => (table.toJson, rest)
      | chars => bare? chars

/-- The items of an array up to its closing bracket.  A comma may follow the last one. -/
def items? : (fuel room : Nat) → List Char → Option (List Json × List Char)
  | 0, _, _ => none
  | fuel + 1, room, chars =>
      match skipLines fuel chars with
      | ']' :: rest => some ([], rest)
      | chars =>
          match value? fuel room chars with
          | none => none
          | some (item, rest) =>
              match skipLines fuel rest with
              | ']' :: rest => some ([item], rest)
              | ',' :: rest =>
                  (items? fuel room rest).map fun (items, rest) => (item :: items, rest)
              | _ => none

def inline? : (fuel room : Nat) → Table → List Char → Option (Table × List Char)
  | 0, _, _, _ => none
  | fuel + 1, room, table, chars =>
      match dottedKey? fuel chars with
      | some (path, key, '=' :: rest) =>
          match value? fuel room (skipBlanks rest) with
          | none => none
          | some (value, rest) =>
              match table.assignAt path key value, skipBlanks rest with
              | some table, '\x7d' :: rest => some (table, rest)
              | some table, ',' :: rest => inline? fuel room table rest
              | _, _ => none
      | _ => none

end

/-! ## Lines -/

/-- A key with its value, put into the table that was declared last. -/
def assignment? (fuel : Nat) (current : List String) (root : Table) (chars : List Char) :
    Option (Table × List Char) :=
  match dottedKey? fuel chars with
  | some (path, key, '=' :: rest) =>
      match value? fuel maxDepth (skipBlanks rest) with
      | none => none
      | some (value, rest) =>
          match Table.alter false (Table.assignAt path key value) current root, endLine? rest with
          | some root, some rest => some (root, rest)
          | _, _ => none
  | _ => none

/-- The heading of a table or of a row of tables: the path of the table and the tables after it. -/
def heading? (fuel : Nat) (root : Table) (chars : List Char) :
    Option (List String × Table × List Char) :=
  match chars with
  | '[' :: rest =>
      match dottedKey? fuel rest with
      | some (path, key, ']' :: ']' :: rest) =>
          match Table.alter false (Table.addRow key) path root, endLine? rest with
          | some root, some rest => some (path ++ [key], root, rest)
          | _, _ => none
      | _ => none
  | rest =>
      match dottedKey? fuel rest with
      | some (path, key, ']' :: rest) =>
          match Table.alter false (Table.declare key) path root, endLine? rest with
          | some root, some rest => some (path ++ [key], root, rest)
          | _, _ => none
      | _ => none

/-- Read lines into tables, the table at a path being the one that was declared last. -/
def lines? : (fuel : Nat) → (current : List String) → Table → List Char → Option Table
  | 0, _, _, _ => none
  | fuel + 1, current, root, chars =>
      match skipLines fuel chars with
      | [] => some root
      | '[' :: rest =>
          match heading? fuel root rest with
          | some (current, root, rest) => lines? fuel current root rest
          | none => none
      | '#' :: rest => if (skipComment ('#' :: rest)).isEmpty then some root else none
      | chars =>
          match assignment? fuel current root chars with
          | some (root, rest) => lines? fuel current root rest
          | none => none

def dropMark : List Char → List Char
  | '\uFEFF' :: rest => rest
  | rest => rest

/-- The document of a configuration.  Each character costs at most two steps of fuel. -/
def parse? (chars : List Char) : Option Json :=
  (lines? (2 * chars.length + 2) [] .empty (dropMark chars)).map Table.toJson

end Toml

end MapCatalog
