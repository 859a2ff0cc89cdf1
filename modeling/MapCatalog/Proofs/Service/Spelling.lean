import Mathlib.Data.List.Induction
import MapCatalog.Proofs.Service.Paths

/-! # Spellings -/

namespace MapCatalog

namespace Id

variable {tier : Tier}

/-! ## Digits -/

/-- The thirty-two digits of an identifier, in letters of either case. -/
def HasDigits (id : Id tier) (chars : List Char) : Prop :=
  chars.map Char.toLower = (hexDigits 32 id.value.toNat).map Json.hexDigit

/-- Characters with codes from 128 on are no digits, and their case is not changed. -/
theorem hexValue?_of_code {c : Char} (h : ¬ c.toNat < 128) :
    Json.hexValue? c = none ∧ c.toLower = c := by
  have hbelow (d : Char) (hd : d.toNat < 128) : ¬ c ≤ d := fun hle =>
    h (Nat.lt_of_le_of_lt (UInt32.le_iff_toNat_le.1 hle) hd)
  have hnine := hbelow '9' (by decide)
  have hlower := hbelow 'f' (by decide)
  have hupper := hbelow 'F' (by decide)
  have hletters := hbelow 'Z' (by decide)
  constructor
  · simp only [Json.hexValue?, hnine, hlower, hupper, and_false, if_false]
  · exact dif_neg fun hletter => hletters hletter.2

/-- A character is read as a digit exactly when it is that digit in one case or the other. -/
theorem hexValue?_eq_some_iff {c : Char} {n : Nat} :
    Json.hexValue? c = some n ↔ n < 16 ∧ c.toLower = Json.hexDigit n := by
  by_cases hascii : c.toNat < 128
  · have hall : ∀ code : Fin 128, (∀ n ∈ Json.hexValue? (Char.ofNat code), n < 16) ∧
        ∀ n : Fin 16, Json.hexValue? (Char.ofNat code) = some n.val ↔
          (Char.ofNat code).toLower = Json.hexDigit n := by
      decide +kernel
    obtain ⟨hlt, hdigit⟩ := hall ⟨c.toNat, hascii⟩
    rw [Char.ofNat_toNat] at hlt hdigit
    constructor
    · intro h
      exact ⟨hlt n h, (hdigit ⟨n, hlt n h⟩).1 h⟩
    · rintro ⟨hn, h⟩
      exact (hdigit ⟨n, hn⟩).2 h
  · obtain ⟨hnone, hsame⟩ := hexValue?_of_code hascii
    rw [hnone, hsame]
    refine iff_of_false nofun ?_
    rintro ⟨hn, rfl⟩
    have hdigits : ∀ n : Fin 16, (Json.hexDigit n).toNat < 128 := by decide
    exact hascii (hdigits ⟨n, hn⟩)

theorem mapM_hexValue?_eq_some_iff {chars : List Char} {digits : List Nat} :
    chars.mapM Json.hexValue? = some digits ↔
      (∀ digit ∈ digits, digit < 16) ∧ chars.map Char.toLower = digits.map Json.hexDigit := by
  induction chars generalizing digits with
  | nil =>
      cases digits <;> simp
  | cons c chars ih =>
      rw [List.mapM_cons, Option.bind_eq_bind, Option.bind_eq_some_iff]
      constructor
      · rintro ⟨digit, hdigit, hrest⟩
        obtain ⟨rest, hchars, hsame⟩ := Option.bind_eq_some_iff.1 hrest
        cases hsame
        obtain ⟨hlt, hletter⟩ := hexValue?_eq_some_iff.1 hdigit
        obtain ⟨hsmall, hletters⟩ := ih.1 hchars
        refine ⟨List.forall_mem_cons.2 ⟨hlt, hsmall⟩, ?_⟩
        rw [List.map_cons, List.map_cons, hletter, hletters]
      · rintro ⟨hsmall, hletters⟩
        cases digits with
        | nil => cases hletters
        | cons digit rest =>
            obtain ⟨hlt, hsmall⟩ := List.forall_mem_cons.1 hsmall
            obtain ⟨hletter, hletters⟩ := List.cons.inj hletters
            refine ⟨digit, hexValue?_eq_some_iff.2 ⟨hlt, hletter⟩, ?_⟩
            rw [ih.2 ⟨hsmall, hletters⟩]
            rfl

theorem ofHexDigits_append (digits : List Nat) (digit : Nat) :
    ofHexDigits (digits ++ [digit]) = ofHexDigits digits * 16 + digit := by
  simp [ofHexDigits]

/-- A number with few enough digits has the digits that make it up. -/
theorem hexDigits_ofHexDigits {digits : List Nat} (h : ∀ digit ∈ digits, digit < 16) :
    hexDigits digits.length (ofHexDigits digits) = digits := by
  induction digits using List.reverseRecOn with
  | nil =>
      rfl
  | append_singleton digits digit ih =>
      have hdigit : digit < 16 := h digit (by simp)
      have hdigits := ih fun other hother => h other (List.mem_append_left _ hother)
      have hdiv : (ofHexDigits digits * 16 + digit) / 16 = ofHexDigits digits := by omega
      have hmod : (ofHexDigits digits * 16 + digit) % 16 = digit := by omega
      rw [List.length_append, List.length_singleton, hexDigits, ofHexDigits_append, hdiv, hmod, hdigits]

theorem ofHexDigits_lt {digits : List Nat} (h : ∀ digit ∈ digits, digit < 16) :
    ofHexDigits digits < Nat.pow 16 digits.length := by
  induction digits using List.reverseRecOn with
  | nil =>
      simp [ofHexDigits]
  | append_singleton digits digit ih =>
      have hdigit : digit < 16 := h digit (by simp)
      have hdigits := ih fun other hother => h other (List.mem_append_left _ hother)
      have hpow : Nat.pow 16 (digits.length + 1) = Nat.pow 16 digits.length * 16 := rfl
      rw [ofHexDigits_append, List.length_append, List.length_singleton, hpow]
      omega

theorem HasDigits.length {id : Id tier} {chars : List Char} (h : id.HasDigits chars) :
    chars.length = 32 := by
  have hlength := congrArg List.length h
  simpa [length_hexDigits] using hlength

theorem readDigits?_eq_some_iff {chars : List Char} {id : Id tier} :
    readDigits? chars = some id ↔ id.HasDigits chars := by
  constructor
  · intro h
    unfold readDigits? at h
    split at h
    case isFalse => cases h
    case isTrue hlength =>
      obtain ⟨digits, hdigits, rfl⟩ := Option.map_eq_some_iff.1 h
      obtain ⟨hsmall, hchars⟩ := mapM_hexValue?_eq_some_iff.1 hdigits
      have hcount : digits.length = 32 := by
        have hmapped := congrArg List.length hchars
        rw [List.length_map, List.length_map, hlength] at hmapped
        exact hmapped.symm
      have hbound : ofHexDigits digits < 2 ^ 128 := by
        have hlt := ofHexDigits_lt hsmall
        rwa [hcount] at hlt
      have hback := hexDigits_ofHexDigits hsmall
      rw [hcount] at hback
      rw [HasDigits, BitVec.toNat_ofNat, Nat.mod_eq_of_lt hbound, hback, hchars]
  · intro h
    have hdigits : chars.mapM Json.hexValue? = some (hexDigits 32 id.value.toNat) :=
      mapM_hexValue?_eq_some_iff.2 ⟨fun _ => lt_of_mem_hexDigits, h⟩
    have hlt : id.value.toNat < Nat.pow 16 32 := id.value.isLt
    rw [readDigits?, if_pos h.length, hdigits, Option.map_some, ofHexDigits_hexDigits hlt,
      BitVec.ofNat_toNat, BitVec.setWidth_eq]

/-! ## Forms -/

/-- The four ways in which an identifier is written. -/
inductive Written (id : Id tier) : List Char → Prop where
  | bare {digits : List Char} (h : id.HasDigits digits) : Written id digits
  | hyphenated {digits : List Char} (h : id.HasDigits digits) : Written id (hyphenate digits)
  | braced {digits : List Char} (h : id.HasDigits digits) :
      Written id ('\x7b' :: (hyphenate digits ++ ['\x7d']))
  | urn {scheme digits : List Char} (hscheme : scheme.map Char.toLower = "urn:uuid:".toList)
      (h : id.HasDigits digits) : Written id (scheme ++ hyphenate digits)

/-- What is read behind the hyphens is in the form with hyphens. -/
theorem bind_dehyphenate?_eq_some_iff {chars : List Char} {id : Id tier} :
    (dehyphenate? chars).bind readDigits? = some id ↔
      ∃ digits, chars = hyphenate digits ∧ id.HasDigits digits := by
  rw [Option.bind_eq_some_iff]
  constructor
  · rintro ⟨digits, hdigits, hread⟩
    unfold dehyphenate? at hdigits
    dsimp only at hdigits
    split at hdigits
    case isFalse => cases hdigits
    case isTrue hchars =>
      cases hdigits
      exact ⟨_, hchars, readDigits?_eq_some_iff.1 hread⟩
  · rintro ⟨digits, rfl, h⟩
    exact ⟨digits, dehyphenate?_hyphenate h.length, readDigits?_eq_some_iff.2 h⟩

theorem written_of_ofChars? {chars : List Char} {id : Id tier} (h : ofChars? chars = some id) :
    Written id chars := by
  unfold ofChars? at h
  split at h
  case isTrue =>
    exact .bare (readDigits?_eq_some_iff.1 h)
  case isFalse =>
    split at h
    case isTrue hbraces =>
      obtain ⟨hlength, hfirst, hlast⟩ := hbraces
      obtain ⟨digits, hmiddle, hdigits⟩ := bind_dehyphenate?_eq_some_iff.1 h
      obtain ⟨rest, rfl⟩ := List.head?_eq_some_iff.1 hfirst
      have hrest : rest.getLast? = some '\x7d' := by
        rw [List.getLast?_cons] at hlast
        cases hback : rest.getLast? with
        | none => rw [hback] at hlast; cases hlast
        | some c => rw [hback] at hlast; exact hlast
      obtain ⟨front, rfl⟩ := List.getLast?_eq_some_iff.1 hrest
      have hfront : front = hyphenate digits := by simpa using hmiddle
      rw [hfront]
      exact .braced hdigits
    case isFalse =>
      split at h
      case isTrue hurn =>
        obtain ⟨digits, hback, hdigits⟩ := bind_dehyphenate?_eq_some_iff.1 h
        rw [← List.take_append_drop 9 chars, hback]
        exact .urn (beq_iff_eq.1 hurn.2) hdigits
      case isFalse =>
        obtain ⟨digits, rfl, hdigits⟩ := bind_dehyphenate?_eq_some_iff.1 h
        exact .hyphenated hdigits

theorem ofChars?_of_written {chars : List Char} {id : Id tier} (h : Written id chars) :
    ofChars? chars = some id := by
  cases h with
  | bare h =>
      rw [ofChars?, if_pos h.length, readDigits?_eq_some_iff]
      exact h
  | hyphenated h =>
      have hlength := length_hyphenate h.length
      rw [ofChars?, if_neg (by omega), if_neg (by omega), if_neg (by omega),
        bind_dehyphenate?_eq_some_iff]
      exact ⟨_, rfl, h⟩
  | @braced digits h =>
      have hlength : ('\x7b' :: (hyphenate digits ++ ['\x7d'])).length = 38 := by
        simp [length_hyphenate h.length]
      have hmiddle : (('\x7b' :: (hyphenate digits ++ ['\x7d'])).drop 1).dropLast =
          hyphenate digits := by
        simp
      rw [ofChars?, if_neg (by omega), if_pos ⟨hlength, rfl, by simp [List.getLast?_cons]⟩, hmiddle,
        bind_dehyphenate?_eq_some_iff]
      exact ⟨digits, rfl, h⟩
  | @urn scheme digits hscheme h =>
      have hnine : scheme.length = 9 := by
        have hmapped := congrArg List.length hscheme
        simpa using hmapped
      have hlength : (scheme ++ hyphenate digits).length = 45 := by
        simp [length_hyphenate h.length, hnine]
      have htake : (scheme ++ hyphenate digits).take 9 = scheme := List.take_left' hnine
      have hdrop : (scheme ++ hyphenate digits).drop 9 = hyphenate digits := List.drop_left' hnine
      have hurn : hasUrn (scheme ++ hyphenate digits) = true := by
        rw [hasUrn, htake, hscheme, beq_self_eq_true]
      rw [ofChars?, if_neg (by omega), if_neg (by omega), if_pos ⟨hlength, hurn⟩, hdrop,
        bind_dehyphenate?_eq_some_iff]
      exact ⟨digits, rfl, h⟩

theorem ofChars?_eq_some_iff {chars : List Char} {id : Id tier} :
    ofChars? chars = some id ↔ Written id chars :=
  ⟨written_of_ofChars?, ofChars?_of_written⟩

/-! ## Blanks around a form -/

/-- A text spells an identifier: it is one of the four forms, with blanks around it or without. -/
def Spells (text : String) (id : Id tier) : Prop :=
  ∃ before core after, text.toList = before ++ (core ++ after) ∧
    (∀ c ∈ before, Text.isBlank c = true) ∧ (∀ c ∈ after, Text.isBlank c = true) ∧ Written id core

theorem isPlain_toLower (c : Char) : isPlain c.toLower = isPlain c := by
  by_cases hascii : c.toNat < 128
  · have hall : ∀ code : Fin 128,
        isPlain (Char.ofNat code).toLower = isPlain (Char.ofNat code) := by
      decide +kernel
    have hcode := hall ⟨c.toNat, hascii⟩
    rwa [Char.ofNat_toNat] at hcode
  · rw [(hexValue?_of_code hascii).2]

theorem HasDigits.isPlain {id : Id tier} {chars : List Char} (h : id.HasDigits chars) :
    ∀ c ∈ chars, isPlain c = true := by
  intro c hc
  have hlower : c.toLower ∈ (hexDigits 32 id.value.toNat).map Json.hexDigit :=
    h ▸ List.mem_map_of_mem hc
  obtain ⟨n, hn, hletter⟩ := List.mem_map.1 hlower
  rw [← isPlain_toLower, ← hletter]
  exact isPlain_hexDigit (lt_of_mem_hexDigits hn)

theorem HasDigits.isPlain_hyphenate {id : Id tier} {chars : List Char} (h : id.HasDigits chars) :
    ∀ c ∈ hyphenate chars, Id.isPlain c = true := by
  intro c hc
  rcases mem_hyphenate hc with rfl | hdigit
  · decide
  · exact h.isPlain c hdigit

/-- Neither a blank nor a character with a meaning in a path stands in a form. -/
theorem Written.isPlain {id : Id tier} {chars : List Char} (h : Written id chars) :
    ∀ c ∈ chars, Id.isPlain c = true := by
  cases h with
  | bare h =>
      exact h.isPlain
  | hyphenated h =>
      exact h.isPlain_hyphenate
  | braced h =>
      simp only [List.mem_cons, List.mem_append, List.not_mem_nil, or_false]
      rintro c (rfl | hc | rfl)
      · decide
      · exact h.isPlain_hyphenate c hc
      · decide
  | @urn scheme digits hscheme h =>
      intro c hc
      rcases List.mem_append.1 hc with hfront | hback
      · have hlower : c.toLower ∈ "urn:uuid:".toList := hscheme ▸ List.mem_map_of_mem hfront
        have hall : "urn:uuid:".toList.all Id.isPlain = true := by decide
        rw [← isPlain_toLower]
        exact List.all_eq_true.1 hall _ hlower
      · exact h.isPlain_hyphenate c hback

theorem Written.ne_nil {id : Id tier} {chars : List Char} (h : Written id chars) : chars ≠ [] := by
  rintro rfl
  cases ofChars?_of_written h

theorem not_isBlank_of_isPlain {c : Char} (h : isPlain c = true) : Text.isBlank c = false := by
  simp only [isPlain, Bool.and_eq_true, Bool.not_eq_true'] at h
  exact h.1.1.1

theorem inPiece_of_isPlain {c : Char} (h : isPlain c = true) : c ≠ '/' ∧ c ≠ '?' ∧ c ≠ '#' := by
  simp only [isPlain, Bool.and_eq_true, bne_iff_ne] at h
  exact ⟨h.1.1.2, h.1.2, h.2⟩

/-- What is left of a text without the blanks around a form is the form. -/
theorem toList_trim_of_written {text : String} {before core after : List Char} {id : Id tier}
    (htext : text.toList = before ++ (core ++ after))
    (hbefore : ∀ c ∈ before, Text.isBlank c = true) (hafter : ∀ c ∈ after, Text.isBlank c = true)
    (h : Written id core) : (Text.trim text).toList = core := by
  have hsolid : ∀ c ∈ core, Text.isBlank c = false := fun c hc =>
    not_isBlank_of_isPlain (h.isPlain c hc)
  have hfirst : (core ++ after).head? = core.head? := by
    cases core with
    | nil => exact absurd rfl h.ne_nil
    | cons first rest => rfl
  have hstart : Text.trimStart text.toList = core ++ after := by
    refine Text.trimStart_eq_iff.2 ⟨before, htext, hbefore, fun c hc => ?_⟩
    rw [hfirst] at hc
    exact hsolid c (List.mem_of_mem_head? hc)
  have hend : Text.trimEnd (core ++ after) = core :=
    Text.trimEnd_eq_iff.2 ⟨after, rfl, hafter, fun c hc => hsolid c (List.mem_of_mem_getLast? hc)⟩
  rw [Text.trim, String.toList_ofList, hstart, hend]

/-- The texts that are read as an identifier are its spellings. -/
theorem parse_eq_ok_iff {text : String} {id : Id tier} :
    parse tier text = .ok id ↔ Spells text id := by
  have hparse : parse tier text = .ok id ↔ ofChars? (Text.trim text).toList = some id := by
    unfold parse
    cases (ofChars? (Text.trim text).toList : Option (Id tier)) <;> simp
  rw [hparse, ofChars?_eq_some_iff]
  constructor
  · intro h
    rw [Text.trim, String.toList_ofList] at h
    obtain ⟨before, htext, hbefore, -⟩ :=
      Text.trimStart_eq_iff.1 (rfl : _ = Text.trimStart text.toList)
    obtain ⟨after, hrest, hafter, -⟩ :=
      Text.trimEnd_eq_iff.1 (rfl : _ = Text.trimEnd (Text.trimStart text.toList))
    refine ⟨before, _, after, ?_, hbefore, hafter, h⟩
    rw [← hrest]
    exact htext
  · rintro ⟨before, core, after, htext, hbefore, hafter, h⟩
    rwa [toList_trim_of_written htext hbefore hafter h]

theorem parse_eq_error_iff {text : String} {e : RecordError} :
    parse tier text = .error e ↔ e = .invalidId tier text ∧ ¬ ∃ id : Id tier, Spells text id := by
  simp only [← parse_eq_ok_iff]
  unfold parse
  cases ofChars? (Text.trim text).toList with
  | none => simp [eq_comm]
  | some id => simp

theorem Spells.ne_nil {text : String} {id : Id tier} (h : Spells text id) : text.toList ≠ [] := by
  obtain ⟨before, core, after, htext, -, -, hwritten⟩ := h
  have hsome := hwritten.ne_nil
  simp [htext, hsome]

theorem Spells.inPiece {text : String} {id : Id tier} (h : Spells text id) :
    ∀ c ∈ text.toList, c ≠ '/' ∧ c ≠ '?' ∧ c ≠ '#' := by
  obtain ⟨before, core, after, htext, hbefore, hafter, hwritten⟩ := h
  have hblank {c : Char} (hc : Text.isBlank c = true) : c ≠ '/' ∧ c ≠ '?' ∧ c ≠ '#' := by
    refine ⟨?_, ?_, ?_⟩ <;> rintro rfl <;> revert hc <;> decide
  intro c hc
  rw [htext] at hc
  rcases List.mem_append.1 hc with hc | hc
  · exact hblank (hbefore c hc)
  rcases List.mem_append.1 hc with hc | hc
  · exact inPiece_of_isPlain (hwritten.isPlain c hc)
  · exact hblank (hafter c hc)

end Id

/-! ## Directions -/

namespace Direction

/-- A text spells a direction: it is its name, in letters of either case. -/
def Spells (text : String) (direction : Direction) : Prop :=
  text.toList.map Char.toLower = direction.name.toList.map Char.toLower

theorem Spells.unique {text : String} {direction other : Direction} (h : Spells text direction)
    (h' : Spells text other) : direction = other := by
  have hletters := h.symm.trans h'
  cases direction <;> cases other <;> revert hletters <;> decide

theorem sameLetters_iff (text : String) :
    (Text.sameLetters text "up" = true ↔ Spells text .up) ∧
      (Text.sameLetters text "down" = true ↔ Spells text .down) := by
  have hup : "up".toList.map Char.toLower = Direction.up.name.toList.map Char.toLower := by decide
  have hdown : "down".toList.map Char.toLower = Direction.down.name.toList.map Char.toLower := by
    decide
  simp only [Text.sameLetters, beq_iff_eq, hup, hdown, Spells, and_self]

/-- The texts that are read as a direction are its spellings. -/
theorem parse_eq_ok_iff {text : String} {direction : Direction} :
    parse text = .ok direction ↔ Spells text direction := by
  obtain ⟨hup, hdown⟩ := sameLetters_iff text
  unfold parse
  split
  case isTrue h =>
    have hspelled := hup.1 h
    exact ⟨fun hsame => Except.ok.inj hsame ▸ hspelled, fun h => by rw [hspelled.unique h]⟩
  case isFalse hnotup =>
    split
    case isTrue h =>
      have hspelled := hdown.1 h
      exact ⟨fun hsame => Except.ok.inj hsame ▸ hspelled, fun h => by rw [hspelled.unique h]⟩
    case isFalse hnotdown =>
      refine iff_of_false nofun fun h => ?_
      cases direction with
      | up => exact hnotup (hup.2 h)
      | down => exact hnotdown (hdown.2 h)

theorem parse_eq_error_iff {text : String} {e : RecordError} :
    parse text = .error e ↔
      e = .unknownDirection text ∧ ¬ ∃ direction, Spells text direction := by
  simp only [← parse_eq_ok_iff]
  unfold parse
  split
  case isTrue => simp
  case isFalse =>
    split <;> simp [eq_comm]

end Direction

end MapCatalog
