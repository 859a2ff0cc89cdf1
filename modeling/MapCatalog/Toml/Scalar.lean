import MapCatalog.Binary64.Rounding
import MapCatalog.Json.Reader
import MapCatalog.Text.Pieces
import MapCatalog.Toml.Moment

/-! # Bare values of a configuration -/

namespace MapCatalog

namespace Toml

def digit? (base : Nat) (c : Char) : Option Nat :=
  match Json.hexValue? c with
  | some value => if value < base then some value else none
  | none => none

/-- Digits of a base, with underscores only between two of them. -/
def digits? (base : Nat) (chars : List Char) : Option (List Nat) :=
  let groups := Text.pieces (· == '_') chars
  if groups.any List.isEmpty then none else groups.flatten.mapM (digit? base)

def ofDigits (base : Nat) (digits : List Nat) : Nat :=
  digits.foldl (fun total digit => base * total + digit) 0

/-- The digits of a decimal number, which starts with a zero only when that is all. -/
def decimalDigits? (chars : List Char) : Option (List Nat) :=
  match digits? 10 chars with
  | some (0 :: _ :: _) => none
  | found => found

def sign : List Char → Bool × List Char
  | '+' :: rest => (false, rest)
  | '-' :: rest => (true, rest)
  | rest => (false, rest)

/-! ## Integers -/

def unbounded? : List Char → Option Int
  | '0' :: 'x' :: rest => (digits? 16 rest).map fun digits => ofDigits 16 digits
  | '0' :: 'o' :: rest => (digits? 8 rest).map fun digits => ofDigits 8 digits
  | '0' :: 'b' :: rest => (digits? 2 rest).map fun digits => ofDigits 2 digits
  | chars =>
      let (negative, rest) := sign chars
      (decimalDigits? rest).map fun digits =>
        if negative then -(ofDigits 10 digits : Int) else ofDigits 10 digits

/-- An integer that fits 128 bits, with or without a sign. -/
def integer? (chars : List Char) : Option Int :=
  match unbounded? chars with
  | some n => if -(2 ^ 127) ≤ n ∧ n < 2 ^ 128 then some n else none
  | none => none

/-! ## Double precision numbers -/

def nearest? (digits : List Nat) (power : Int) : Option Binary64 :=
  let digits := digits.dropWhile (· == 0)
  let size := digits.length + power
  if digits = [] ∨ size < -400 then some .zero
  else if 400 < size then none
  else
    let significand := ofDigits 10 digits
    let x := Binary64.ofFraction (significand * Nat.pow 10 power.toNat)
      (Nat.pow 10 (-power).toNat)
    if x.isFinite then some x else none

/-- The digits before and behind the point; there need be no point. -/
def mantissa? (chars : List Char) : Option (List Nat × List Nat) :=
  match Text.pieces (· == '.') chars with
  | [whole] => (decimalDigits? whole).map fun whole => (whole, [])
  | [whole, fraction] =>
      match decimalDigits? whole, digits? 10 fraction with
      | some whole, some fraction => some (whole, fraction)
      | _, _ => none
  | _ => none

def power? (chars : List Char) : Option Int :=
  let (negative, rest) := sign chars
  (digits? 10 rest).map fun digits =>
    if negative then -(ofDigits 10 digits : Int) else ofDigits 10 digits

def unsigned? (chars : List Char) : Option Binary64 :=
  if chars = "inf".toList then some ⟨0x7ff0000000000000⟩
  else if chars = "nan".toList then some ⟨0x7ff8000000000000⟩
  else
    match Text.pieces (fun c => c == 'e' || c == 'E') chars with
    | [body] =>
        if body.contains '.' then
          (mantissa? body).bind fun (whole, fraction) =>
            nearest? (whole ++ fraction) (-fraction.length)
        else
          none
    | [body, exponent] =>
        match mantissa? body, power? exponent with
        | some (whole, fraction), some power =>
            nearest? (whole ++ fraction) (power - fraction.length)
        | _, _ => none
    | _ => none

def float? (chars : List Char) : Option Binary64 :=
  let (negative, rest) := sign chars
  (unsigned? rest).map fun x => if negative then x.neg else x

/-! ## All bare values -/

/-- The document of a bare value; a moment becomes an object with one member. -/
def scalar? (chars : List Char) : Option Json :=
  if chars = "true".toList then some (.bool true)
  else if chars = "false".toList then some (.bool false)
  else
    match integer? chars, float? chars with
    | some n, _ => some (.number (.whole n))
    | none, some x => some (.number (.float x))
    | none, none =>
        if isMoment chars then some (.object [("moment", .text (String.ofList chars))]) else none

end Toml

end MapCatalog
