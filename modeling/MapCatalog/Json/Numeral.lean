import MapCatalog.Json.Basic
import MapCatalog.Binary64.Scientific

/-! # Numerals

A numeral without fraction and exponent is a whole number as long as it fits 64 bits, with or without a sign.  Every
other numeral, and minus zero, is a double precision number.
-/

namespace MapCatalog

namespace Json

structure Numeral where
  negative : Bool
  /-- Digits before the point, at least one. -/
  whole : List Nat
  /-- Digits behind the point. -/
  fraction : Option (List Nat)
  exponent : Option Int

namespace Numeral

def significandLimit : Nat :=
  2 ^ 64

/--
Take digits into a significand while there is room.  The result is the significand, the number of
digits taken, and the number left out.
-/
def gather (significand : Nat) : List Nat → Nat × Nat × Nat
  | [] => (significand, 0, 0)
  | digit :: rest =>
      if significand * 10 + digit < significandLimit then
        let (total, taken, left) := gather (significand * 10 + digit) rest
        (total, taken + 1, left)
      else
        (significand, 0, rest.length + 1)

def value? (numeral : Numeral) : Option Number :=
  let (significand, _, left) := gather 0 numeral.whole
  match numeral.fraction, numeral.exponent, left with
  | none, none, 0 =>
      if !numeral.negative then
        some (.whole significand)
      else if 0 < significand ∧ significand ≤ 2 ^ 63 then
        some (.whole (-(significand : Int)))
      else
        some (.float (Binary64.ofNat significand).neg)
  | fraction, exponent, left =>
      let (significand, places, _) := gather significand (fraction.getD [])
      let power := (left : Int) - places + exponent.getD 0
      (Binary64.ofScientific numeral.negative significand power).map .float

end Numeral

/-! ## Reading numerals -/

def digit? (c : Char) : Option Nat :=
  if '0' ≤ c ∧ c ≤ '9' then some (c.toNat - '0'.toNat) else none

def readDigits : List Char → List Nat × List Char
  | [] => ([], [])
  | c :: rest =>
      match digit? c with
      | some digit =>
          let (digits, rest) := readDigits rest
          (digit :: digits, rest)
      | none => ([], c :: rest)

/-- The digits before the point: a zero stands alone, others do not start with one. -/
def readWhole (chars : List Char) : Option (List Nat × List Char) :=
  match readDigits chars with
  | ([], _) => none
  | (0 :: _ :: _, _) => none
  | found => some found

def readFraction : List Char → Option (Option (List Nat) × List Char)
  | '.' :: rest =>
      match readDigits rest with
      | ([], _) => none
      | (digits, rest) => some (some digits, rest)
  | rest => some (none, rest)

def readPower (negative : Bool) (chars : List Char) : Option (Int × List Char) :=
  match readDigits chars with
  | ([], _) => none
  | (digits, rest) =>
      let power : Nat := digits.foldl (fun total digit => 10 * total + digit) 0
      some (if negative then -(power : Int) else power, rest)

def readExponent : List Char → Option (Option Int × List Char)
  | c :: rest =>
      if c = 'e' ∨ c = 'E' then
        let power :=
          match rest with
          | '+' :: rest => readPower false rest
          | '-' :: rest => readPower true rest
          | rest => readPower false rest
        power.map fun (power, rest) => (some power, rest)
      else
        some (none, c :: rest)
  | [] => some (none, [])

def readNumeral (chars : List Char) : Option (Numeral × List Char) := do
  let (negative, chars) :=
    match chars with
    | '-' :: rest => (true, rest)
    | rest => (false, rest)
  let (whole, chars) ← readWhole chars
  let (fraction, chars) ← readFraction chars
  let (exponent, chars) ← readExponent chars
  return (⟨negative, whole, fraction, exponent⟩, chars)

end Json

end MapCatalog
