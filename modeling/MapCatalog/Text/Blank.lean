/-! # Blank text -/

namespace MapCatalog

namespace Text

/-- The characters with the Unicode property `White_Space`, of which there are twenty-five. -/
def isBlank (c : Char) : Bool :=
  let n := c.toNat
  (9 ≤ n && n ≤ 13) || n == 0x20 || n == 0x85 || n == 0xA0 || n == 0x1680 ||
    (0x2000 ≤ n && n ≤ 0x200A) || n == 0x2028 || n == 0x2029 || n == 0x202F ||
    n == 0x205F || n == 0x3000

def trimStart (chars : List Char) : List Char :=
  chars.dropWhile isBlank

def trimEnd (chars : List Char) : List Char :=
  (chars.reverse.dropWhile isBlank).reverse

def trim (text : String) : String :=
  String.ofList (trimEnd (trimStart text.toList))

def allBlank (text : String) : Bool :=
  text.toList.all isBlank

theorem trimStart_eq_nil_iff (chars : List Char) :
    trimStart chars = [] ↔ chars.all isBlank = true := by
  induction chars with
  | nil =>
      simp [trimStart]
  | cons c rest ih =>
      by_cases h : isBlank c = true
      · rw [trimStart, List.dropWhile_cons_of_pos h, List.all_cons, h, Bool.true_and]
        exact ih
      · simp [trimStart, h]

theorem trimEnd_eq_nil_iff (chars : List Char) :
    trimEnd chars = [] ↔ chars.all isBlank = true := by
  have h := trimStart_eq_nil_iff chars.reverse
  rw [List.all_reverse] at h
  rw [trimEnd, List.reverse_eq_nil_iff]
  exact h

theorem trimStart_eq_iff {chars rest : List Char} :
    trimStart chars = rest ↔
      ∃ blanks, chars = blanks ++ rest ∧ (∀ c ∈ blanks, isBlank c = true) ∧
        ∀ c ∈ rest.head?, isBlank c = false := by
  constructor
  · rintro rfl
    have hfirst := List.head?_dropWhile_not isBlank chars
    refine ⟨chars.takeWhile isBlank, List.takeWhile_append_dropWhile.symm, ?_, ?_⟩
    · exact List.all_eq_true.1 List.all_takeWhile
    · intro c hc
      rw [trimStart, Option.mem_def] at hc
      simpa [hc] using hfirst
  · rintro ⟨blanks, rfl, hblanks, hrest⟩
    rw [trimStart, List.dropWhile_append_of_pos hblanks]
    cases rest with
    | nil =>
        rfl
    | cons c rest =>
        have hc : isBlank c = false := hrest c rfl
        rw [List.dropWhile_cons_of_neg (by simp [hc])]

theorem trimEnd_eq_iff {chars rest : List Char} :
    trimEnd chars = rest ↔
      ∃ blanks, chars = rest ++ blanks ∧ (∀ c ∈ blanks, isBlank c = true) ∧
        ∀ c ∈ rest.getLast?, isBlank c = false := by
  have hreverse : trimEnd chars = rest ↔ trimStart chars.reverse = rest.reverse := by
    rw [trimEnd, List.reverse_eq_iff, trimStart]
  rw [hreverse, trimStart_eq_iff, List.head?_reverse]
  constructor
  · rintro ⟨blanks, htext, hblanks, hrest⟩
    refine ⟨blanks.reverse, ?_, by simpa using hblanks, hrest⟩
    rw [← List.reverse_reverse chars, htext, List.reverse_append, List.reverse_reverse]
  · rintro ⟨blanks, htext, hblanks, hrest⟩
    exact ⟨blanks.reverse, by rw [htext, List.reverse_append], by simpa using hblanks, hrest⟩

def nonBlank? (text : String) : Option String :=
  if allBlank text then none else some (trim text)

end Text

end MapCatalog
