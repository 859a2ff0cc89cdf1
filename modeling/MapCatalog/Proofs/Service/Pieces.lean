import Mathlib.Data.List.TakeWhile
import MapCatalog.Service.Route

/-! # How a path is cut -/

namespace MapCatalog

/-- A text that is cut at a separator is cut on both sides of it. -/
theorem Text.pieces_append {sep : Char → Bool} {cut : Char} (hcut : sep cut = true)
    (front back : List Char) :
    pieces sep (front ++ cut :: back) = pieces sep front ++ pieces sep back := by
  induction front with
  | nil =>
      simp [pieces, hcut]
  | cons c front ih =>
      by_cases hc : sep c = true
      · simp [pieces, hc, ih]
      · cases hfront : pieces sep front with
        | nil => exact absurd hfront (pieces_ne_nil sep front)
        | cons first more => simp [pieces, hc, ih, hfront]

namespace Address

/-! ## The cut, told as it is seen -/

/-- What stands in a path in front of the first question mark or hash. -/
def Front (path front : List Char) : Prop :=
  ∃ rest, path = front ++ rest ∧ (∀ c ∈ front, c ≠ '?' ∧ c ≠ '#') ∧
    ∀ c ∈ rest.head?, c = '?' ∨ c = '#'

/-- The pieces of a text between its slashes, without the empty ones. -/
inductive Split : List Char → List String → Prop where
  | done : Split [] []
  | slash {rest : List Char} {pieces : List String} (h : Split rest pieces) :
      Split ('/' :: rest) pieces
  | piece {piece rest : List Char} {pieces : List String} (hsome : piece ≠ [])
      (hpiece : ∀ c ∈ piece, c ≠ '/') (hrest : ∀ c ∈ rest.head?, c = '/') (h : Split rest pieces) :
      Split (piece ++ rest) (String.ofList piece :: pieces)

def Splits (path : String) (all : List String) : Prop :=
  ∃ front, Front path.toList front ∧ Split front all

inductive Counted : List String → List String → Prop where
  | behind (pieces : List String) : Counted ("api" :: pieces) pieces
  | all {pieces : List String} (h : pieces.head? ≠ some "api") : Counted pieces pieces

def Reads (path : String) (pieces : List String) : Prop :=
  ∃ all, Splits path all ∧ Counted all pieces

/-! ## The cut, as it is made -/

def front (path : List Char) : List Char :=
  path.takeWhile fun c => c != '?' && c != '#'

def split (chars : List Char) : List String :=
  ((Text.pieces (· == '/') chars).filter fun piece => !piece.isEmpty).map String.ofList

theorem pieces_eq (path : String) :
    pieces path =
      if (split (front path.toList)).head? = some "api" then (split (front path.toList)).tail
      else split (front path.toList) :=
  rfl

theorem split_append (before behind : List Char) :
    split (before ++ '/' :: behind) = split before ++ split behind := by
  rw [split, Text.pieces_append rfl, List.filter_append, List.map_append]
  rfl

theorem split_slash (chars : List Char) : split ('/' :: chars) = split chars :=
  split_append [] chars

theorem split_piece {piece rest : List Char} (hsome : piece ≠ []) (hpiece : ∀ c ∈ piece, c ≠ '/')
    (hrest : ∀ c ∈ rest.head?, c = '/') :
    split (piece ++ rest) = String.ofList piece :: split rest := by
  have halone : split piece = [String.ofList piece] := by
    have hcut : Text.pieces (· == '/') piece = [piece] :=
      Text.pieces_of_none fun c hc => by simpa using hpiece c hc
    simp [split, hcut, hsome]
  cases rest with
  | nil =>
      rw [List.append_nil, halone]
      rfl
  | cons c rest =>
      obtain rfl : c = '/' := hrest c rfl
      rw [split_append, split_slash, halone, List.singleton_append]

theorem Split.eq {chars : List Char} {pieces : List String} (h : Split chars pieces) :
    split chars = pieces := by
  induction h with
  | done => rfl
  | slash _ ih => rw [split_slash, ih]
  | piece hsome hpiece hrest _ ih => rw [split_piece hsome hpiece hrest, ih]

/-- Every text has pieces: those behind its first slash, after the one in front of it. -/
theorem exists_split (chars : List Char) : ∃ pieces, Split chars pieces := by
  induction hlength : chars.length using Nat.strong_induction_on generalizing chars with
  | _ length ih =>
      rcases Text.exists_first_sep (· == '/') chars with hnone | ⟨piece, cut, rest, rfl, hpiece, hcut⟩
      · cases chars with
        | nil => exact ⟨[], .done⟩
        | cons c chars =>
            have hplain : ∀ d ∈ c :: chars, d ≠ '/' := fun d hd => by simpa using hnone d hd
            have hlast := Split.piece (List.cons_ne_nil c chars) hplain (by simp) .done
            rw [List.append_nil] at hlast
            exact ⟨_, hlast⟩
      · obtain rfl : cut = '/' := by simpa using hcut
        have hshorter : rest.length < length := by
          rw [← hlength, List.length_append, List.length_cons]
          omega
        obtain ⟨pieces, hrest⟩ := ih rest.length hshorter rest rfl
        cases piece with
        | nil => exact ⟨pieces, .slash hrest⟩
        | cons c piece =>
            have hplain : ∀ d ∈ c :: piece, d ≠ '/' := fun d hd => by simpa using hpiece d hd
            exact ⟨_, .piece (List.cons_ne_nil c piece) hplain (by simp) (.slash hrest)⟩

theorem split_iff {chars : List Char} {pieces : List String} :
    Split chars pieces ↔ split chars = pieces := by
  refine ⟨Split.eq, ?_⟩
  rintro rfl
  obtain ⟨pieces, h⟩ := exists_split chars
  exact h.eq ▸ h

theorem front_iff {path part : List Char} : Front path part ↔ front path = part := by
  constructor
  · rintro ⟨rest, rfl, hpart, hrest⟩
    have hend : front rest = [] := by
      cases rest with
      | nil => rfl
      | cons c rest =>
          rcases hrest c rfl with rfl | rfl <;> rfl
    rw [front, List.takeWhile_append_of_pos fun c hc => by simpa using hpart c hc]
    exact (congrArg (part ++ ·) hend).trans (List.append_nil part)
  · rintro rfl
    refine ⟨path.dropWhile fun c => c != '?' && c != '#', List.takeWhile_append_dropWhile.symm, ?_, ?_⟩
    · intro c hc
      simpa using List.mem_takeWhile_imp hc
    · intro c hc
      have hstop := List.head?_dropWhile_not (fun c => c != '?' && c != '#') path
      rw [Option.mem_def.1 hc] at hstop
      simpa [or_iff_not_imp_left] using hstop

theorem splits_iff {path : String} {all : List String} :
    Splits path all ↔ split (front path.toList) = all := by
  constructor
  · rintro ⟨part, hpart, hsplit⟩
    rw [front_iff.1 hpart, split_iff.1 hsplit]
  · rintro rfl
    exact ⟨_, front_iff.2 rfl, split_iff.2 rfl⟩

theorem reads_iff {path : String} {counted : List String} :
    Reads path counted ↔ pieces path = counted := by
  rw [pieces_eq]
  constructor
  · rintro ⟨all, hall, hcounted⟩
    rw [splits_iff.1 hall]
    cases hcounted with
    | behind => simp
    | all hplain => rw [if_neg hplain]
  · rintro rfl
    refine ⟨_, splits_iff.2 rfl, ?_⟩
    split
    · next hapi =>
      obtain ⟨rest, hrest⟩ := List.head?_eq_some_iff.1 hapi
      rw [hrest]
      exact .behind rest
    · next hplain => exact .all hplain

theorem exists_reads_iff {path : String} {P : List String → Prop} :
    (∃ counted, Reads path counted ∧ P counted) ↔ P (pieces path) := by
  simp only [reads_iff, exists_eq_left']

/-! ## What makes no difference -/

/-- A place in a path where a slash more makes no difference, since no piece reaches across it. -/
inductive Edge : List Char → List Char → Prop where
  | start (behind : List Char) : Edge [] behind
  | after (before behind : List Char) : Edge (before ++ ['/']) behind
  | before (before behind : List Char) {c : Char} (h : c = '/' ∨ c = '?' ∨ c = '#') :
      Edge before (c :: behind)
  | finish (before : List Char) : Edge before []

theorem front_append (before behind : List Char) :
    front (before ++ behind) =
      if (front before).length = before.length then before ++ front behind else front before :=
  List.takeWhile_append

theorem split_front_insert {before behind : List Char} (h : Edge before behind) :
    split (front (before ++ '/' :: behind)) = split (front (before ++ behind)) := by
  have hslash : front ('/' :: behind) = '/' :: front behind := rfl
  rw [front_append, front_append, hslash]
  split
  case isFalse => rfl
  case isTrue =>
    rw [split_append]
    cases h with
    | start => rfl
    | after before =>
        have hsame : before ++ ['/'] ++ front behind = before ++ '/' :: front behind :=
          List.append_assoc _ _ _
        rw [hsame, split_append, split_append, show split [] = [] from rfl, List.append_nil]
    | @before _ behind c hc =>
        rcases hc with rfl | rfl | rfl
        · rw [show front ('/' :: behind) = '/' :: front behind from rfl, split_slash, split_append]
        · rw [show front ('?' :: behind) = [] from rfl, List.append_nil]
          exact List.append_nil _
        · rw [show front ('#' :: behind) = [] from rfl, List.append_nil]
          exact List.append_nil _
    | finish =>
        rw [show front [] = [] from rfl, List.append_nil]
        exact List.append_nil _

theorem front_mark {mark : Char} (hmark : mark = '?' ∨ mark = '#') (before behind : List Char) :
    front (before ++ mark :: behind) = front before := by
  have hend : front (mark :: behind) = [] := by
    rcases hmark with rfl | rfl <;> rfl
  rw [front_append, hend, List.append_nil]
  split
  case isTrue hwhole =>
    exact ((List.takeWhile_prefix _).eq_of_length hwhole).symm
  case isFalse => rfl

/-- A path behind `/api/` has one piece more, in front of all others. -/
theorem split_front_api (path : List Char) :
    split (front ("/api/".toList ++ path)) = "api" :: split (front path) := by
  have hfront : front ("/api/".toList ++ path) = "/api".toList ++ '/' :: front path := rfl
  rw [hfront, split_append]
  rfl

theorem pieces_of_split_front {path other : String}
    (h : split (front path.toList) = split (front other.toList)) : pieces path = pieces other := by
  rw [pieces_eq, pieces_eq, h]

end Address

end MapCatalog
