import MapCatalog.Json.Numeral
import MapCatalog.Json.Printer

/-! # Numerals that are read back

Whether a number is read back is a question about its text alone: behind it may stand anything that does not go on
with a numeral.
-/

namespace MapCatalog

namespace Json

def EndsNumeral (rest : List Char) : Prop :=
  ∀ c ∈ rest.head?, digit? c = none ∧ c ≠ '.' ∧ c ≠ 'e' ∧ c ≠ 'E'

theorem endsNumeral_nil : EndsNumeral [] := by
  intro c h
  cases h

theorem endsNumeral_cons {c : Char} {rest : List Char}
    (h : digit? c = none ∧ c ≠ '.' ∧ c ≠ 'e' ∧ c ≠ 'E') : EndsNumeral (c :: rest) := by
  intro other hother
  cases hother
  exact h

/-! ## What stands behind a numeral -/

section

variable {rest : List Char} (hrest : EndsNumeral rest)
include hrest

theorem readDigits_of_ends : readDigits rest = ([], rest) := by
  cases rest with
  | nil =>
      rfl
  | cons c rest =>
      rw [readDigits, (hrest c rfl).1]

theorem readDigits_append (chars : List Char) :
    readDigits (chars ++ rest) = ((readDigits chars).1, (readDigits chars).2 ++ rest) := by
  induction chars with
  | nil =>
      exact readDigits_of_ends hrest
  | cons c chars ih =>
      rw [List.cons_append, readDigits, readDigits]
      cases digit? c with
      | none =>
          rfl
      | some digit =>
          simp only [ih]

theorem readWhole_append {chars tail : List Char} {digits : List Nat}
    (h : readWhole chars = some (digits, tail)) :
    readWhole (chars ++ rest) = some (digits, tail ++ rest) := by
  unfold readWhole at h ⊢
  rw [readDigits_append hrest]
  cases hread : readDigits chars with
  | mk found left =>
      rw [hread] at h
      match found, h with
      | [], h =>
          cases h
      | [digit], h =>
          cases digit <;> cases h <;> rfl
      | 0 :: _ :: _, h =>
          cases h
      | (digit + 1) :: _ :: _, h =>
          cases h
          rfl

theorem readFraction_append {chars tail : List Char} {fraction : Option (List Nat)}
    (h : readFraction chars = some (fraction, tail)) :
    readFraction (chars ++ rest) = some (fraction, tail ++ rest) := by
  cases chars with
  | nil =>
      cases h
      cases rest with
      | nil =>
          rfl
      | cons c rest =>
          have hpoint : c ≠ '.' := (hrest c rfl).2.1
          simp [readFraction, hpoint]
  | cons c chars =>
      by_cases hpoint : c = '.'
      · subst hpoint
        simp only [List.cons_append, readFraction] at h ⊢
        rw [readDigits_append hrest]
        cases hread : readDigits chars with
        | mk found left =>
            rw [hread] at h
            cases found with
            | nil =>
                cases h
            | cons digit digits =>
                cases h
                rfl
      · have hnone : ∀ more : List Char, readFraction (c :: more) = some (none, c :: more) := by
          intro more
          simp [readFraction, hpoint]
        rw [hnone] at h
        cases h
        exact hnone (chars ++ rest)

theorem readPower_append {negative : Bool} {chars tail : List Char} {power : Int}
    (h : readPower negative chars = some (power, tail)) :
    readPower negative (chars ++ rest) = some (power, tail ++ rest) := by
  unfold readPower at h ⊢
  rw [readDigits_append hrest]
  cases hread : readDigits chars with
  | mk found left =>
      rw [hread] at h
      cases found with
      | nil =>
          cases h
      | cons digit digits =>
          cases h
          rfl

theorem readExponent_append {chars tail : List Char} {exponent : Option Int}
    (h : readExponent chars = some (exponent, tail)) :
    readExponent (chars ++ rest) = some (exponent, tail ++ rest) := by
  have hpower : ∀ {negative : Bool} {chars : List Char},
      (readPower negative chars).map (fun (power, rest) => (some power, rest)) =
        some (exponent, tail) →
      (readPower negative (chars ++ rest)).map (fun (power, rest) => (some power, rest)) =
        some (exponent, tail ++ rest) := by
    intro negative chars h
    obtain ⟨⟨power, left⟩, hread, heq⟩ := Option.map_eq_some_iff.1 h
    cases heq
    rw [readPower_append hrest hread]
    rfl
  match chars with
  | [] =>
      cases h
      cases rest with
      | nil =>
          rfl
      | cons c rest =>
          have hletter : ¬ (c = 'e' ∨ c = 'E') := not_or.2 (hrest c rfl).2.2
          simp [readExponent, hletter]
  | c :: chars =>
      by_cases hletter : c = 'e' ∨ c = 'E'
      · match chars with
        | [] =>
            simp [readExponent, hletter, readPower, readDigits] at h
        | sign :: chars =>
            by_cases hplus : sign = '+'
            · subst hplus
              simp only [List.cons_append, readExponent, hletter, if_true] at h ⊢
              exact hpower h
            by_cases hminus : sign = '-'
            · subst hminus
              simp only [List.cons_append, readExponent, hletter, if_true] at h ⊢
              exact hpower h
            have hunsigned : ∀ more : List Char, readExponent (c :: sign :: more) =
                (readPower false (sign :: more)).map fun (power, rest) => (some power, rest) := by
              intro more
              simp [readExponent, hletter, hplus, hminus]
            rw [hunsigned] at h
            exact (hunsigned (chars ++ rest)).trans (hpower h)
      · simp only [List.cons_append, readExponent, hletter, if_false] at h ⊢
        cases h
        rfl

end

def readUnsigned (negative : Bool) (chars : List Char) : Option (Numeral × List Char) :=
  (readWhole chars).bind fun (whole, chars) =>
    (readFraction chars).bind fun (fraction, chars) =>
      (readExponent chars).map fun (exponent, chars) =>
        (⟨negative, whole, fraction, exponent⟩, chars)

theorem readNumeral_minus (rest : List Char) :
    readNumeral ('-' :: rest) = readUnsigned true rest := by
  simp only [readNumeral, readUnsigned, Option.map_eq_bind]
  rfl

theorem readNumeral_of_ne {c : Char} (h : c ≠ '-') (rest : List Char) :
    readNumeral (c :: rest) = readUnsigned false (c :: rest) := by
  unfold readNumeral
  split
  next hminus =>
    split at hminus
    next heq =>
      cases heq
      exact absurd rfl h
    next =>
      cases hminus
      simp only [readUnsigned, Option.map_eq_bind]
      rfl

theorem readUnsigned_append {rest : List Char} (hrest : EndsNumeral rest) {negative : Bool}
    {chars tail : List Char} {numeral : Numeral}
    (h : readUnsigned negative chars = some (numeral, tail)) :
    readUnsigned negative (chars ++ rest) = some (numeral, tail ++ rest) := by
  obtain ⟨⟨whole, first⟩, hwhole, h⟩ := Option.bind_eq_some_iff.1 h
  obtain ⟨⟨fraction, second⟩, hfraction, h⟩ := Option.bind_eq_some_iff.1 h
  obtain ⟨⟨exponent, third⟩, hexponent, heq⟩ := Option.map_eq_some_iff.1 h
  cases heq
  rw [readUnsigned, readWhole_append hrest hwhole]
  simp only [Option.bind_some, readFraction_append hrest hfraction,
    readExponent_append hrest hexponent, Option.map_some]

/-- A numeral is read alike whatever stands behind it, as long as it does not go on there. -/
theorem readNumeral_append {rest : List Char} (hrest : EndsNumeral rest) {chars tail : List Char}
    {numeral : Numeral} (h : readNumeral chars = some (numeral, tail)) :
    readNumeral (chars ++ rest) = some (numeral, tail ++ rest) := by
  cases chars with
  | nil =>
      cases h
  | cons c chars =>
      by_cases hminus : c = '-'
      · subst hminus
        rw [readNumeral_minus] at h
        rw [List.cons_append, readNumeral_minus, readUnsigned_append hrest h]
      · rw [readNumeral_of_ne hminus] at h
        rw [List.cons_append, readNumeral_of_ne hminus, ← List.cons_append,
          readUnsigned_append hrest h]

/-! ## Numbers that are read back -/

def spelled? (chars : List Char) : Option Number :=
  match readNumeral chars with
  | some (numeral, []) => numeral.value?
  | _ => none

def Number.ReadsBack (value : Number) : Prop :=
  spelled? (numberChars value) = some value

instance (value : Number) : Decidable value.ReadsBack :=
  inferInstanceAs (Decidable (spelled? (numberChars value) = some value))

theorem Number.ReadsBack.readNumeral_append {value : Number} (h : value.ReadsBack)
    {rest : List Char} (hrest : EndsNumeral rest) :
    ∃ numeral, readNumeral (numberChars value ++ rest) = some (numeral, rest) ∧
      numeral.value? = some value := by
  unfold Number.ReadsBack spelled? at h
  split at h
  next numeral hread =>
    exact ⟨numeral, Json.readNumeral_append hrest hread, h⟩
  next =>
    cases h

theorem head_of_readNumeral {chars : List Char} {found : Numeral × List Char}
    (h : readNumeral chars = some found) :
    ∃ c rest, chars = c :: rest ∧ (c = '-' ∨ digit? c ≠ none) := by
  cases chars with
  | nil =>
      cases h
  | cons c rest =>
      refine ⟨c, rest, rfl, ?_⟩
      by_cases hminus : c = '-'
      · exact .inl hminus
      · right
        intro hdigit
        rw [readNumeral_of_ne hminus] at h
        simp [readUnsigned, readWhole, readDigits, hdigit] at h

theorem Number.ReadsBack.head {value : Number} (h : value.ReadsBack) :
    ∃ c rest, numberChars value = c :: rest ∧ (c = '-' ∨ digit? c ≠ none) := by
  obtain ⟨numeral, hread, -⟩ := h.readNumeral_append endsNumeral_nil
  rw [List.append_nil] at hread
  exact head_of_readNumeral hread

/-! ## Whole numbers -/

def ofDigits (digits : List Nat) (before : Nat) : Nat :=
  digits.foldl (fun total digit => total * 10 + digit) before

theorem ofDigits_append (first second : List Nat) (before : Nat) :
    ofDigits (first ++ second) before = ofDigits second (ofDigits first before) :=
  List.foldl_append

theorem le_ofDigits (digits : List Nat) (before : Nat) : before ≤ ofDigits digits before := by
  induction digits generalizing before with
  | nil =>
      exact Nat.le_refl before
  | cons digit rest ih =>
      have hnext := ih (before * 10 + digit)
      rw [ofDigits, List.foldl_cons, ← ofDigits]
      omega

/-- As long as there is room, a significand takes in all digits. -/
theorem gather_of_lt {digits : List Nat} {before : Nat}
    (h : ofDigits digits before < Numeral.significandLimit) :
    Numeral.gather before digits = (ofDigits digits before, digits.length, 0) := by
  induction digits generalizing before with
  | nil =>
      rfl
  | cons digit rest ih =>
      rw [ofDigits, List.foldl_cons, ← ofDigits] at h
      have hroom : before * 10 + digit < Numeral.significandLimit :=
        Nat.lt_of_le_of_lt (le_ofDigits rest _) h
      rw [Numeral.gather, if_pos hroom, ih h]
      rfl

theorem digit?_digitChar {n : Nat} (h : n < 10) : digit? (Nat.digitChar n) = some n := by
  have hall : ∀ n : Fin 10, digit? (Nat.digitChar n) = some n.val := by decide
  exact hall ⟨n, h⟩

theorem readDigits_append_of_all {first : List Char} {digits : List Nat}
    (h : readDigits first = (digits, [])) (second : List Char) :
    readDigits (first ++ second) =
      (digits ++ (readDigits second).1, (readDigits second).2) := by
  induction first generalizing digits with
  | nil =>
      cases h
      rfl
  | cons c first ih =>
      rw [readDigits] at h
      rw [List.cons_append, readDigits]
      cases hc : digit? c with
      | none =>
          rw [hc] at h
          cases h
      | some digit =>
          rw [hc] at h
          cases hfirst : readDigits first with
          | mk found left =>
              rw [hfirst] at h
              cases h
              simp only [ih hfirst, List.cons_append]

/-- The digits of a number are read back, and the first of them is zero for zero alone. -/
theorem readDigits_toDigits (n : Nat) :
    ∃ digit rest, readDigits (Nat.toDigits 10 n) = (digit :: rest, []) ∧
      ofDigits (digit :: rest) 0 = n ∧ (digit = 0 → n = 0 ∧ rest = []) := by
  induction n using Nat.strongRecOn with
  | ind n ih =>
      by_cases hsmall : n < 10
      · refine ⟨n, [], ?_, by simp [ofDigits], fun h => ⟨h, rfl⟩⟩
        rw [Nat.toDigits_of_lt_base hsmall, readDigits, digit?_digitChar hsmall]
        rfl
      · have hlast : n % 10 < 10 := Nat.mod_lt n (by decide)
        have hsplit : Nat.toDigits 10 n =
            Nat.toDigits 10 (n / 10) ++ [Nat.digitChar (n % 10)] := by
          rw [← Nat.toDigits_of_lt_base hlast,
            Nat.toDigits_append_toDigits (by decide) (by omega) hlast, Nat.div_add_mod]
        obtain ⟨digit, rest, hread, hvalue, hzero⟩ := ih (n / 10) (by omega)
        refine ⟨digit, rest ++ [n % 10], ?_, ?_, fun h => ?_⟩
        · rw [hsplit, readDigits_append_of_all hread, readDigits, digit?_digitChar hlast]
          rfl
        · rw [← List.cons_append, ofDigits_append, hvalue]
          simp only [ofDigits, List.foldl_cons, List.foldl_nil]
          omega
        · have hsmaller := (hzero h).1
          omega

theorem readUnsigned_toDigits (negative : Bool) (n : Nat) :
    ∃ digits, readUnsigned negative (Nat.toDigits 10 n) =
      some (⟨negative, digits, none, none⟩, []) ∧ ofDigits digits 0 = n := by
  obtain ⟨digit, rest, hread, hvalue, hzero⟩ := readDigits_toDigits n
  have hwhole : readWhole (Nat.toDigits 10 n) = some (digit :: rest, []) := by
    rw [readWhole, hread]
    cases digit with
    | zero =>
        rw [(hzero rfl).2]
        rfl
    | succ digit =>
        cases rest <;> rfl
  refine ⟨digit :: rest, ?_, hvalue⟩
  rw [readUnsigned, hwhole]
  rfl

theorem readNumeral_toDigits (n : Nat) :
    readNumeral (Nat.toDigits 10 n) = readUnsigned false (Nat.toDigits 10 n) := by
  obtain ⟨digits, hread, -⟩ := readUnsigned_toDigits false n
  cases hchars : Nat.toDigits 10 n with
  | nil =>
      rw [hchars] at hread
      cases hread
  | cons c rest =>
      refine readNumeral_of_ne (fun hminus => ?_) rest
      rw [hchars, hminus] at hread
      cases hread

theorem value?_of_whole {negative : Bool} {digits : List Nat} {n : Nat}
    (hvalue : ofDigits digits 0 = n) (h : n < Numeral.significandLimit) :
    Numeral.value? ⟨negative, digits, none, none⟩ =
      if !negative then some (.whole n)
      else if 0 < n ∧ n ≤ 2 ^ 63 then some (.whole (-(n : Int)))
      else some (.float (Binary64.ofNat n).neg) := by
  subst hvalue
  rw [Numeral.value?]
  simp only [gather_of_lt h]

/-- Whole numbers of 64 bits, with or without a sign, are read back. -/
theorem readsBack_whole {n : Int} (hlow : -(2 ^ 63) ≤ n) (hhigh : n < 2 ^ 64) :
    (Number.whole n).ReadsBack := by
  by_cases hneg : n < 0
  · obtain ⟨digits, hread, hvalue⟩ := readUnsigned_toDigits true n.natAbs
    have hlimit : n.natAbs < Numeral.significandLimit := by
      rw [Numeral.significandLimit]
      omega
    have hrange : 0 < n.natAbs ∧ n.natAbs ≤ 2 ^ 63 := by
      omega
    have hback : -(n.natAbs : Int) = n := by
      omega
    simp only [Number.ReadsBack, spelled?, numberChars, wholeChars, hneg, if_true,
      readNumeral_minus, hread, value?_of_whole hvalue hlimit, hrange, hback]
    rfl
  · obtain ⟨digits, hread, hvalue⟩ := readUnsigned_toDigits false n.natAbs
    have hlimit : n.natAbs < Numeral.significandLimit := by
      rw [Numeral.significandLimit]
      omega
    have hback : (n.natAbs : Int) = n := by
      omega
    simp only [Number.ReadsBack, spelled?, numberChars, wholeChars, hneg, if_false,
      readNumeral_toDigits, hread, value?_of_whole hvalue hlimit, hback]
    rfl

end Json

end MapCatalog
