import MapCatalog.Json.Numeral

/-! # Moments in a configuration -/

namespace MapCatalog

namespace Toml

def number? (count : Nat) (chars : List Char) : Option (Nat × List Char) :=
  if chars.length < count then none
  else
    ((chars.take count).mapM Json.digit?).map fun digits =>
      (digits.foldl (fun total digit => 10 * total + digit) 0, chars.drop count)

def after? (expected : List Char) : List Char → Option (List Char)
  | c :: rest => if expected.contains c then some rest else none
  | [] => none

def daysIn (year month : Nat) : Nat :=
  if month = 2 then
    if year % 4 = 0 ∧ (year % 100 ≠ 0 ∨ year % 400 = 0) then 29 else 28
  else if month = 4 ∨ month = 6 ∨ month = 9 ∨ month = 11 then 30
  else 31

def afterDate? (chars : List Char) : Option (List Char) := do
  let (year, rest) ← number? 4 chars
  let (month, rest) ← number? 2 (← after? ['-'] rest)
  let (day, rest) ← number? 2 (← after? ['-'] rest)
  if 1 ≤ month ∧ month ≤ 12 ∧ 1 ≤ day ∧ day ≤ daysIn year month then some rest else none

/-- What follows the parts of a second in front; there need be none. -/
def afterParts? : List Char → Option (List Char)
  | '.' :: rest =>
      match Json.readDigits rest with
      | ([], _) => none
      | (_, rest) => some rest
  | rest => some rest

def afterTime? (chars : List Char) : Option (List Char) := do
  let (hour, rest) ← number? 2 chars
  let (minute, rest) ← number? 2 (← after? [':'] rest)
  let (second, rest) ← number? 2 (← after? [':'] rest)
  if hour ≤ 23 ∧ minute ≤ 59 ∧ second ≤ 60 then afterParts? rest else none

def isOffset (chars : List Char) : Bool :=
  match chars with
  | [] | ['Z'] | ['z'] => true
  | _ =>
      match (do
        let (hours, rest) ← number? 2 (← after? ['+', '-'] chars)
        let (minutes, rest) ← number? 2 (← after? [':'] rest)
        return (hours * 60 + minutes, minutes, rest)) with
      | some (total, minutes, []) => decide (minutes ≤ 59 ∧ total ≤ 24 * 60)
      | _ => false

def isDate (chars : List Char) : Bool :=
  afterDate? chars == some []

def isMoment (chars : List Char) : Bool :=
  match afterDate? chars with
  | some [] => true
  | some rest =>
      match (after? ['T', 't', ' '] rest).bind afterTime? with
      | some offset => isOffset offset
      | none => false
  | none => afterTime? chars == some []

end Toml

end MapCatalog
