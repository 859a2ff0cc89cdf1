import MapCatalog.Json.Printer
import MapCatalog.Json.Reader

/-! # Texts that are read back -/

namespace MapCatalog

namespace Json

/-- The last two digits of an escape are those of a character below `U+0020`. -/
theorem hexUnit?_hexDigit {n : Nat} (h : n < 32) :
    hexUnit? '0' '0' (hexDigit (n / 16)) (hexDigit (n % 16)) = some n := by
  have hall : ∀ n : Fin 32,
      hexUnit? '0' '0' (hexDigit (n / 16)) (hexDigit (n % 16)) = some n.val := by
    decide
  exact hall ⟨n, h⟩

theorem readQuotation_bare {c : Char} (hquote : c ≠ '"') (hback : c ≠ '\\')
    (hprintable : ¬ c.toNat < 0x20) (rest : List Char) :
    readQuotation none (c :: rest) = prepend c (readQuotation none rest) := by
  rw [readQuotation.eq_def]
  -- An unescaped character is neither a quote nor a backslash, so only the last case is left.
  split
  next h => cases h
  next h =>
    cases h
    exact absurd rfl hquote
  next h =>
    cases h
    exact absurd rfl hback
  next h =>
    cases h
    exact absurd rfl hback
  next h =>
    cases h
    exact if_neg hprintable

theorem readQuotation_escapeChar (c : Char) (rest : List Char) :
    readQuotation none (escapeChar c ++ rest) = prepend c (readQuotation none rest) := by
  unfold escapeChar
  -- Seven characters have an escape of one letter.
  iterate 7
    split
    next h =>
      subst h
      rfl
  split
  next hcontrol =>
    have hunit := hexUnit?_hexDigit hcontrol
    have hlow : isLowHalf c.toNat = false := by
      simp [isLowHalf]
      omega
    have hhigh : isHighHalf c.toNat = false := by
      simp [isHighHalf]
      omega
    simp only [List.cons_append, List.nil_append]
    rw [readQuotation.eq_def]
    simp [hunit, hlow, hhigh, Char.ofNat_toNat]
  next hquote hback _ _ _ _ _ hprintable =>
    exact readQuotation_bare hquote hback hprintable rest

theorem readQuotation_escape (chars rest : List Char) :
    readQuotation none (escape chars ++ '"' :: rest) = some (some chars, rest) := by
  induction chars with
  | nil =>
      rfl
  | cons c chars ih =>
      rw [escape, List.flatMap_cons, ← escape, List.append_assoc, readQuotation_escapeChar, ih]
      rfl

/-- What was quoted is read back, up to the quote that closes it. -/
theorem readQuotation_quoted (text : String) (rest : List Char) :
    ∃ chars, quoted text ++ rest = '"' :: chars ∧
      readQuotation none chars = some (some text.toList, rest) := by
  refine ⟨escape text.toList ++ '"' :: rest, ?_, readQuotation_escape text.toList rest⟩
  rw [quoted, List.cons_append, List.append_assoc]
  rfl

end Json

end MapCatalog
