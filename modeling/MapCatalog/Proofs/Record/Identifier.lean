import MapCatalog.Record.Id

/-! # Identifiers that are read back -/

namespace MapCatalog

namespace Id

theorem lt_of_mem_hexDigits {width n digit : Nat} (h : digit ∈ hexDigits width n) : digit < 16 := by
  induction width generalizing n with
  | zero =>
      simp [hexDigits] at h
  | succ width ih =>
      rcases List.mem_append.1 h with hfront | hlast
      · exact ih hfront
      · rw [List.mem_singleton.1 hlast]
        exact Nat.mod_lt n (by decide)

theorem hexValue?_hexDigit {n : Nat} (h : n < 16) : Json.hexValue? (Json.hexDigit n) = some n := by
  have hall : ∀ n : Fin 16, Json.hexValue? (Json.hexDigit n) = some n.val := by decide
  exact hall ⟨n, h⟩

theorem mapM_hexValue? {digits : List Nat} (h : ∀ digit ∈ digits, digit < 16) :
    (digits.map Json.hexDigit).mapM Json.hexValue? = some digits := by
  induction digits with
  | nil =>
      rfl
  | cons digit rest ih =>
      have hrest := ih fun other hother => h other (List.mem_cons_of_mem digit hother)
      simp [hexValue?_hexDigit (h digit List.mem_cons_self), hrest]

theorem join_pieces (chars : List Char) :
    chars.take 8 ++ ((chars.drop 8).take 4 ++ ((chars.drop 12).take 4 ++
      ((chars.drop 16).take 4 ++ chars.drop 20))) = chars := by
  have hjoin (start count : Nat) :
      (chars.drop start).take count ++ chars.drop (start + count) = chars.drop start := by
    rw [← List.drop_drop, List.take_append_drop]
  rw [hjoin 16 4, hjoin 12 4, hjoin 8 4, List.take_append_drop]

theorem dehyphenate?_hyphenate {chars : List Char} (h : chars.length = 32) :
    dehyphenate? (hyphenate chars) = some chars := by
  have hpieces : (hyphenate chars).take 8 ++ (((hyphenate chars).drop 9).take 4 ++
      (((hyphenate chars).drop 14).take 4 ++ (((hyphenate chars).drop 19).take 4 ++
        (hyphenate chars).drop 24))) = chars := by
    simp [hyphenate, List.drop_append, List.drop_take, h, join_pieces]
  simp only [dehyphenate?, hpieces, if_true]

theorem length_hyphenate {chars : List Char} (h : chars.length = 32) :
    (hyphenate chars).length = 36 := by
  simp [hyphenate, h]

variable {tier : Tier}

theorem readDigits?_hexDigits (id : Id tier) :
    readDigits? ((hexDigits 32 id.value.toNat).map Json.hexDigit) = some id := by
  have hlt : id.value.toNat < Nat.pow 16 32 := id.value.isLt
  have hdigits : ((hexDigits 32 id.value.toNat).map Json.hexDigit).mapM Json.hexValue? =
      some (hexDigits 32 id.value.toNat) :=
    mapM_hexValue? fun _ h => lt_of_mem_hexDigits h
  rw [readDigits?, if_pos (by simp [length_hexDigits]), hdigits]
  simp [ofHexDigits_hexDigits hlt]

theorem ofChars?_toChars (id : Id tier) : ofChars? id.toChars = some id := by
  have hlength : ((hexDigits 32 id.value.toNat).map Json.hexDigit).length = 32 := by
    simp [length_hexDigits]
  have htext : id.toChars.length = 36 := length_hyphenate hlength
  rw [ofChars?, if_neg (by omega), if_neg (by omega), if_neg (by omega), toChars,
    dehyphenate?_hyphenate hlength, Option.bind_some, readDigits?_hexDigits]

theorem decode_toJson (id : Id tier) (origin : Decode.Origin) :
    decode origin (Reading.ofJson id.toJson) = .ok id := by
  simp [toJson, Reading.ofJson, decode, Id.toString, ofChars?_toChars]

end Id

end MapCatalog
