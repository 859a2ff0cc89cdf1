import MapCatalog.Text.Pieces
import MapCatalog.Text.Width

/-! # Wrapped lines

A line that is too wide is broken between its words.  A word is broken where it is wider than a whole line,
and then it begins on the line before if there is room for more than a few characters.
-/

namespace MapCatalog

namespace Text

/-- The room at the end of a line that is left empty. -/
def scantRoom : Nat :=
  2

def splitAtWidth : Nat → List Char → List Char × List Char
  | _, [] => ([], [])
  | room, c :: rest =>
      if room < charWidth c then ([], c :: rest)
      else
        let (front, back) := splitAtWidth (room - charWidth c) rest
        (c :: front, back)

theorem splitAtWidth_append (room : Nat) (word : List Char) :
    (splitAtWidth room word).1 ++ (splitAtWidth room word).2 = word := by
  fun_induction splitAtWidth room word with
  | case1 => rfl
  | case2 => rfl
  | case3 room c rest hfits front back hsplit ih =>
      rw [hsplit] at ih
      exact congrArg (c :: ·) ih

/-- Lines that are full, and one that is being filled. -/
structure Wrapping where
  full : List (List Char)
  current : List Char
deriving DecidableEq

namespace Wrapping

def close (wrapping : Wrapping) : Wrapping :=
  ⟨wrapping.full ++ [wrapping.current], []⟩

def settle (wrapping : Wrapping) (width : Nat) : Wrapping :=
  if width - scantRoom < Text.width wrapping.current then wrapping.close else wrapping

def append (wrapping : Wrapping) (word : List Char) : Wrapping :=
  { wrapping with
    current := if wrapping.current = [] then word else wrapping.current ++ ' ' :: word }

/-- The room for another word. -/
def room (wrapping : Wrapping) (width : Nat) : Nat :=
  if wrapping.current = [] then width else width - Text.width wrapping.current - 1

/-- Break a word that is wider than a line.  On an empty line one character stands in any case. -/
def cut (wrapping : Wrapping) (width : Nat) (word : List Char) : List Char × List Char :=
  match splitAtWidth (wrapping.room width) word with
  | ([], c :: rest) => if wrapping.current = [] then ([c], rest) else ([], c :: rest)
  | parts => parts

theorem cut_append (wrapping : Wrapping) (width : Nat) (word : List Char) :
    (wrapping.cut width word).1 ++ (wrapping.cut width word).2 = word := by
  have hsplit := splitAtWidth_append (wrapping.room width) word
  unfold cut
  split
  next c rest hparts =>
    rw [hparts] at hsplit
    split <;> exact hsplit
  next => exact hsplit

theorem cut_lt (wrapping : Wrapping) {width : Nat} {word : List Char} (hwide : width < Text.width word) :
    (wrapping.cut width word).2.length < word.length ∨
      (wrapping.cut width word).2.length = word.length ∧ 0 < wrapping.current.length := by
  have hlength := congrArg List.length (wrapping.cut_append width word)
  rw [List.length_append] at hlength
  by_cases hfront : (wrapping.cut width word).1 = []
  · rw [hfront, List.length_nil, Nat.zero_add] at hlength
    refine .inr ⟨hlength, List.length_pos_iff.2 fun hempty => ?_⟩
    unfold cut at hfront
    split at hfront
    next => simp [hempty] at hfront
    next hparts =>
      cases hword : word with
      | nil => simp [hword, Text.width] at hwide
      | cons c rest =>
          have hrest := splitAtWidth_append (wrapping.room width) word
          rw [hfront, hword, List.nil_append] at hrest
          exact hparts c rest (Prod.ext hfront (hword ▸ hrest))
  · have hpos := List.length_pos_iff.2 hfront
    exact .inl (by omega)

/-- Put a word on the line that is being filled, or on the next ones. -/
def place (wrapping : Wrapping) (width : Nat) (word : List Char) : Wrapping :=
  if Text.width (wrapping.append word).current ≤ width then
    (wrapping.append word).settle width
  else if wrapping.current ≠ [] ∧ wrapping.room width ≤ scantRoom then
    place wrapping.close width word
  else if width < Text.width word then
    place (wrapping.append (wrapping.cut width word).1).close width (wrapping.cut width word).2
  else
    { wrapping.close with current := word }.settle width
termination_by (word.length, wrapping.current.length)
decreasing_by
  next hopen =>
    exact Prod.Lex.right _ (List.length_pos_iff.2 hopen.1)
  next hwide =>
    rcases wrapping.cut_lt hwide with hless | ⟨hsame, hopen⟩
    · exact Prod.Lex.left _ _ hless
    · rw [hsame]
      exact Prod.Lex.right _ hopen

def placeAll (wrapping : Wrapping) (width : Nat) (words : List (List Char)) : Wrapping :=
  words.foldl (fun wrapping word => wrapping.place width word) wrapping

def lines (wrapping : Wrapping) : List (List Char) :=
  if wrapping.current = [] then wrapping.full else wrapping.close.full

end Wrapping

/-- The lines that become of a line with more than `width` columns of the screen. -/
def wrap (width : Nat) (line : List Char) : List (List Char) :=
  ((Wrapping.mk [] []).placeAll width (pieces (· == ' ') line)).lines

end Text

end MapCatalog
