import Mathlib.Algebra.Ring.Nat
import MapCatalog.Console.Grid

/-! # Wrapped texts

Wrapping drops nothing but blanks, and no line of a cell is wider than its column.
-/

namespace MapCatalog

namespace Text

/-! ## Widths -/

theorem width_eq_sum (chars : List Char) : width chars = (chars.map charWidth).sum := by
  rw [List.sum_eq_foldl, List.foldl_map]
  rfl

@[simp] theorem width_nil : width [] = 0 :=
  rfl

@[simp] theorem width_cons (c : Char) (chars : List Char) :
    width (c :: chars) = charWidth c + width chars := by
  simp [width_eq_sum]

@[simp] theorem width_append (front back : List Char) :
    width (front ++ back) = width front + width back := by
  simp [width_eq_sum]

theorem charWidth_le (c : Char) : charWidth c ≤ 2 := by
  unfold charWidth
  split
  · omega
  · split
    · omega
    · split <;> omega

theorem width_splitAtWidth_le (room : Nat) (word : List Char) :
    width (splitAtWidth room word).1 ≤ room := by
  fun_induction splitAtWidth room word with
  | case1 => exact Nat.zero_le _
  | case2 => exact Nat.zero_le _
  | case3 room c rest hfits front back hsplit ih =>
      rw [hsplit] at ih
      have hfront : width front ≤ room - charWidth c := ih
      rw [width_cons]
      omega

theorem flatten_pieces (sep : Char → Bool) (chars : List Char) :
    (pieces sep chars).flatten = chars.filter fun c => !sep c := by
  induction chars with
  | nil => rfl
  | cons c rest ih =>
      by_cases hc : sep c = true
      · simp [pieces, hc, ih]
      · cases hp : pieces sep rest with
        | nil => exact absurd hp (pieces_ne_nil sep rest)
        | cons first more =>
            rw [hp] at ih
            simp [pieces, hc, hp, ← ih]

/-! ## Wrapping -/

namespace Wrapping

variable {width : Nat} {wrapping : Wrapping}

/-- What stands on the lines, without the blanks. -/
def letters (wrapping : Wrapping) : List Char :=
  (wrapping.full.flatten ++ wrapping.current).filter (· != ' ')

theorem letters_close (wrapping : Wrapping) : wrapping.close.letters = wrapping.letters := by
  simp [letters, close]

theorem letters_settle (wrapping : Wrapping) (width : Nat) :
    (wrapping.settle width).letters = wrapping.letters := by
  unfold settle
  split
  · exact wrapping.letters_close
  · rfl

theorem letters_append (wrapping : Wrapping) (word : List Char) :
    (wrapping.append word).letters = wrapping.letters ++ word.filter (· != ' ') := by
  unfold append letters
  by_cases hempty : wrapping.current = [] <;> simp [hempty]

theorem letters_place (wrapping : Wrapping) (width : Nat) (word : List Char) :
    (wrapping.place width word).letters = wrapping.letters ++ word.filter (· != ' ') := by
  fun_induction place wrapping width word with
  | case1 wrapping word hfits => rw [letters_settle, letters_append]
  | case2 wrapping word hwide hscant ih => rw [ih, letters_close]
  | case3 wrapping word hwide hroom hlong ih =>
      rw [ih, letters_close, letters_append, List.append_assoc, ← List.filter_append, cut_append]
  | case4 wrapping word hwide hroom hshort =>
      rw [letters_settle]
      simp [letters, close]

structure Fits (width : Nat) (wrapping : Wrapping) : Prop where
  full : ∀ line ∈ wrapping.full, Text.width line ≤ width
  current : Text.width wrapping.current ≤ width

theorem Fits.close (h : Fits width wrapping) : Fits width wrapping.close := by
  refine ⟨?_, Nat.zero_le _⟩
  intro line hline
  rcases List.mem_append.1 hline with hfull | hcurrent
  · exact h.full line hfull
  · rw [List.mem_singleton.1 hcurrent]
    exact h.current

theorem Fits.settle (h : Fits width wrapping) : Fits width (wrapping.settle width) := by
  unfold Wrapping.settle
  split
  · exact h.close
  · exact h

/-- What is cut from a word finds room, except for a single character on an empty line. -/
theorem width_cut_le (wrapping : Wrapping) (width : Nat) (word : List Char) :
    Text.width (wrapping.cut width word).1 ≤ wrapping.room width ∨
      wrapping.current = [] ∧ Text.width (wrapping.cut width word).1 ≤ 2 := by
  have hsplit := width_splitAtWidth_le (wrapping.room width) word
  unfold cut
  split
  next c rest hparts =>
    by_cases hempty : wrapping.current = []
    · rw [if_pos hempty]
      have hc := charWidth_le c
      exact .inr ⟨hempty, by simpa using hc⟩
    · rw [if_neg hempty]
      exact .inl (Nat.zero_le _)
  next => exact .inl hsplit

theorem width_append_cut (hwidth : 2 ≤ width) (wrapping : Wrapping) (word : List Char)
    (hroom : ¬ (wrapping.current ≠ [] ∧ wrapping.room width ≤ scantRoom)) :
    Text.width (wrapping.append (wrapping.cut width word).1).current ≤ width := by
  have hcut := wrapping.width_cut_le width word
  by_cases hempty : wrapping.current = []
  · simp only [append, room, if_pos hempty] at hcut ⊢
    omega
  · simp only [append, room, scantRoom, if_neg hempty, width_append, width_cons] at hcut hroom ⊢
    have hblank : charWidth ' ' = 1 := rfl
    have hleft : 2 < width - Text.width wrapping.current - 1 :=
      Nat.not_le.1 fun hscant => hroom ⟨hempty, hscant⟩
    rcases hcut with hfront | ⟨hnone, -⟩
    · omega
    · exact absurd hnone hempty

theorem Fits.place (hwidth : 2 ≤ width) (h : Fits width wrapping) (word : List Char) :
    Fits width (wrapping.place width word) := by
  fun_induction Wrapping.place wrapping width word with
  | case1 wrapping word hfits => exact Fits.settle ⟨h.full, hfits⟩
  | case2 wrapping word hwide hscant ih => exact ih h.close
  | case3 wrapping word hwide hroom hlong ih =>
      exact ih (Fits.close ⟨h.full, width_append_cut hwidth wrapping word hroom⟩)
  | case4 wrapping word hwide hroom hshort =>
      exact Fits.settle ⟨h.close.full, Nat.not_lt.1 hshort⟩

theorem letters_placeAll (wrapping : Wrapping) (width : Nat) (words : List (List Char)) :
    (wrapping.placeAll width words).letters =
      wrapping.letters ++ words.flatten.filter (· != ' ') := by
  induction words generalizing wrapping with
  | nil => simp [placeAll]
  | cons word words ih =>
      have hrest := ih (wrapping.place width word)
      rw [letters_place, List.append_assoc, ← List.filter_append] at hrest
      exact hrest

theorem Fits.placeAll (hwidth : 2 ≤ width) (h : Fits width wrapping) (words : List (List Char)) :
    Fits width (wrapping.placeAll width words) := by
  induction words generalizing wrapping with
  | nil => exact h
  | cons word words ih => exact ih (h.place hwidth word)

theorem filter_flatten_lines (wrapping : Wrapping) :
    wrapping.lines.flatten.filter (· != ' ') = wrapping.letters := by
  unfold lines letters
  by_cases hempty : wrapping.current = [] <;> simp [hempty, close]

theorem Fits.lines (h : Fits width wrapping) :
    ∀ line ∈ wrapping.lines, Text.width line ≤ width := by
  unfold Wrapping.lines
  split
  · exact h.full
  · exact h.close.full

end Wrapping

/-- Only blanks are dropped where a line is wrapped. -/
theorem filter_flatten_wrap (width : Nat) (line : List Char) :
    (wrap width line).flatten.filter (· != ' ') = line.filter (· != ' ') := by
  rw [wrap, Wrapping.filter_flatten_lines, Wrapping.letters_placeAll, flatten_pieces,
    List.filter_filter]
  simp [Wrapping.letters, bne]

theorem width_le_of_mem_wrap {width : Nat} (hwidth : 2 ≤ width) {line piece : List Char}
    (h : piece ∈ wrap width line) : Text.width piece ≤ width :=
  (Wrapping.Fits.placeAll hwidth ⟨by simp, Nat.zero_le _⟩ _).lines piece h

example : (wrap 10 "Watercourses of Scandinavia".toList).map String.ofList =
    ["Watercours", "es of Scan", "dinavia"] := by
  cbv

end Text

namespace Grid

/-! ## Texts in cells -/

theorem foldl_max_le_iff {sizes : List Nat} {start most : Nat} :
    sizes.foldl max start ≤ most ↔ start ≤ most ∧ ∀ size ∈ sizes, size ≤ most := by
  induction sizes generalizing start with
  | nil => simp
  | cons size sizes ih => simp [ih, Nat.max_le, and_assoc]

theorem widest_le_iff {lines : List (List Char)} {most : Nat} :
    widest lines ≤ most ↔ ∀ line ∈ lines, Text.width line ≤ most := by
  simp [widest, foldl_max_le_iff]

theorem le_widest {lines : List (List Char)} {line : List Char} (h : line ∈ lines) :
    Text.width line ≤ widest lines :=
  widest_le_iff.1 (Nat.le_refl _) line h

theorem width_le_of_mem_fittedLines {width : Nat} (hwidth : 2 ≤ width) {text : String}
    {line : List Char} (h : line ∈ fittedLines width text) : Text.width line ≤ width := by
  obtain ⟨whole, -, hline⟩ := List.mem_flatMap.1 h
  split at hline
  next hfits =>
    rw [List.mem_singleton.1 hline]
    exact hfits
  next => exact Text.width_le_of_mem_wrap hwidth hline

/-- The lines of a cell have all characters of its text but blanks and line breaks. -/
theorem filter_flatten_fittedLines (width : Nat) (text : String) :
    (fittedLines width text).flatten.filter (· != ' ') =
      text.toList.filter fun c => c != ' ' && c != '\n' := by
  have hline (line : List Char) :
      (if Text.width line ≤ width then [line] else Text.wrap width line).flatten.filter
        (· != ' ') = line.filter (· != ' ') := by
    split
    · simp
    · exact Text.filter_flatten_wrap width line
  have hlines (whole : List (List Char)) :
      (whole.flatMap fun line =>
        if Text.width line ≤ width then [line] else Text.wrap width line).flatten.filter
          (· != ' ') = whole.flatten.filter (· != ' ') := by
    induction whole with
    | nil => rfl
    | cons line whole ih =>
        rw [List.flatMap_cons, List.flatten_append, List.filter_append, ih, hline, List.flatten_cons,
          List.filter_append]
  rw [fittedLines, hlines, lines, Text.flatten_pieces, List.filter_filter]
  rfl

end Grid

end MapCatalog
