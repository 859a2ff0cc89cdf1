import Mathlib.Data.List.Forall2
import MapCatalog.Console.Overview
import MapCatalog.Proofs.Console.Columns

/-! # Lines of a drawn table -/

namespace MapCatalog

namespace Grid

theorem width_intercalate {separator : Char} (hseparator : Text.charWidth separator = 1)
    {pieces : List (List Char)} (hpieces : pieces ≠ []) :
    Text.width (List.intercalate [separator] pieces) + 1 =
      (pieces.map Text.width).sum + pieces.length := by
  induction pieces with
  | nil => exact absurd rfl hpieces
  | cons piece pieces ih =>
      cases pieces with
      | nil => simp
      | cons next pieces =>
          have hrest := ih (List.cons_ne_nil next pieces)
          rw [List.intercalate_cons_cons]
          simp only [Text.width_append, Text.width_cons, Text.width_nil, List.map_cons, List.sum_cons,
            List.length_cons, hseparator] at hrest ⊢
          omega

theorem width_replicate {c : Char} (hc : Text.charWidth c = 1) (count : Nat) :
    Text.width (List.replicate count c) = count := by
  simp [Text.width_eq_sum, hc]

def breadth (widths : List Nat) : Nat :=
  (widths.map (· + margin)).sum + widths.length + 1

theorem breadth_eq (widths : List Nat) :
    breadth widths = widths.sum + (margin + 1) * widths.length + 1 := by
  unfold breadth
  induction widths with
  | nil => rfl
  | cons width widths ih =>
      simp only [List.map_cons, List.sum_cons, List.length_cons, margin] at ih ⊢
      omega

theorem width_rule {left bar cross right : Char} {widths : List Nat} (hwidths : widths ≠ [])
    (hleft : Text.charWidth left = 1) (hbar : Text.charWidth bar = 1)
    (hcross : Text.charWidth cross = 1) (hright : Text.charWidth right = 1) :
    Text.width (rule left bar cross right widths) = breadth widths := by
  have hbars : widths.map (fun width => List.replicate (width + margin) bar) ≠ [] := by
    simpa using hwidths
  have hinner := width_intercalate hcross hbars
  rw [List.map_map, List.length_map] at hinner
  have hwidth : Text.width ∘ (fun width => List.replicate (width + margin) bar) = (· + margin) :=
    funext fun width => width_replicate hbar _
  rw [hwidth] at hinner
  simp only [rule, breadth, List.cons_append, Text.width_append, Text.width_cons, Text.width_nil,
    hleft, hright]
  omega

theorem width_padded (toRight : Bool) {width : Nat} {line : List Char}
    (h : Text.width line ≤ width) : Text.width (padded toRight width line) = width + margin := by
  have hblank : Text.charWidth ' ' = 1 := rfl
  have hgap := width_replicate hblank (width - Text.width line)
  cases toRight <;>
    simp only [padded, margin, List.cons_append, Text.width_append, Text.width_cons, Text.width_nil,
      hblank, hgap, if_true, Bool.false_eq_true, if_false] <;>
    omega

def Fit (sized : List (Column × Nat)) (cells : List (List (List Char))) : Prop :=
  List.Forall₂ (fun entry cell => ∀ line ∈ cell, Text.width line ≤ entry.2) sized cells

theorem Fit.width_rowTexts {sized : List (Column × Nat)} {cells : List (List (List Char))}
    (h : Fit sized cells) (index : Nat) :
    (rowTexts sized cells index).map Text.width = sized.map fun entry => entry.2 + margin := by
  induction h with
  | nil => rfl
  | @cons entry cell sized cells hcell hcells ih =>
      have hline : Text.width (cell.getD index []) ≤ entry.2 := by
        rw [List.getD_eq_getElem?_getD]
        cases hline : cell[index]? with
        | none => exact Nat.zero_le _
        | some line => exact hcell line (List.mem_of_getElem? hline)
      exact List.cons_eq_cons.2 ⟨width_padded _ hline, ih⟩

theorem Fit.width_rowLine {sized : List (Column × Nat)} {cells : List (List (List Char))}
    (h : Fit sized cells) (hsized : sized ≠ []) (index : Nat) :
    Text.width (rowLine sized cells index) = breadth (sized.map Prod.snd) := by
  have hbar : Text.charWidth '│' = 1 := by decide
  have hwidths := h.width_rowTexts index
  have hlength := congrArg List.length hwidths
  rw [List.length_map, List.length_map] at hlength
  have htexts : rowTexts sized cells index ≠ [] := by
    rw [← List.length_pos_iff, hlength]
    exact List.length_pos_iff.2 hsized
  have hinner := width_intercalate hbar htexts
  rw [hwidths, hlength] at hinner
  rw [rowLine, breadth, List.map_map, List.length_map]
  simp only [List.cons_append, Text.width_append, Text.width_cons, Text.width_nil, hbar,
    Function.comp_def]
  omega

theorem fit_fittedLines {sized : List (Column × Nat)} {row : List String}
    (hlength : row.length = sized.length) (hwide : ∀ entry ∈ sized, 2 ≤ entry.2) :
    Fit sized (List.zipWith (fun (_, width) text => fittedLines width text) sized row) := by
  induction sized generalizing row with
  | nil => exact .nil
  | cons entry sized ih =>
      cases row with
      | nil => cases hlength
      | cons text row =>
          obtain ⟨hentry, hsized⟩ := List.forall_mem_cons.1 hwide
          exact .cons (fun line hline => width_le_of_mem_fittedLines hentry hline)
            (ih (Nat.succ.inj hlength) hsized)

theorem mem_intercalate {separator : List (List Char)} {parts : List (List (List Char))}
    {line : List Char} (h : line ∈ List.intercalate separator parts) :
    line ∈ separator ∨ ∃ part ∈ parts, line ∈ part := by
  induction parts with
  | nil => simp at h
  | cons part parts ih =>
      cases parts with
      | nil => exact .inr ⟨part, by simp, by simpa using h⟩
      | cons next parts =>
          rw [List.intercalate_cons_cons, List.append_assoc, List.mem_append, List.mem_append] at h
          rcases h with hpart | hseparator | hrest
          · exact .inr ⟨part, List.mem_cons_self, hpart⟩
          · exact .inl hseparator
          · rcases ih hrest with hseparator | ⟨other, hother, hline⟩
            · exact .inl hseparator
            · exact .inr ⟨other, List.mem_cons_of_mem _ hother, hline⟩

theorem width_of_mem_rowLines {sized : List (Column × Nat)} {row : List String}
    (hsized : sized ≠ []) (hlength : row.length = sized.length)
    (hwide : ∀ entry ∈ sized, 2 ≤ entry.2) {line : List Char} (h : line ∈ rowLines sized row) :
    Text.width line = breadth (sized.map Prod.snd) := by
  obtain ⟨index, -, rfl⟩ := List.mem_map.1 h
  exact (fit_fittedLines hlength hwide).width_rowLine hsized index

/-- Where rows have a cell for every column, all lines of a table are equally wide. -/
theorem width_of_mem_drawLines {total : Nat} {columns : List Column} {rows : List (List String)}
    (hcolumns : columns ≠ []) (hrows : ∀ row ∈ rows, row.length = columns.length)
    {found : List Nat} (hfound : widths total columns
      (columnTexts (columns.map Column.title :: rows) columns.length) = found)
    (hlength : found.length = columns.length) (hwide : ∀ width ∈ found, 2 ≤ width)
    {line : List Char} (h : line ∈ drawLines total columns rows) :
    Text.width line = breadth found := by
  have hsizedLength : (columns.zip found).length = columns.length := by
    rw [List.length_zip, hlength, Nat.min_self]
  have hsized : columns.zip found ≠ [] := by
    rw [← List.length_pos_iff, hsizedLength]
    exact List.length_pos_iff.2 hcolumns
  have hsnd : (columns.zip found).map Prod.snd = found := List.map_snd_zip (Nat.le_of_eq hlength)
  have hnonempty : found ≠ [] := by
    rw [← List.length_pos_iff, hlength]
    exact List.length_pos_iff.2 hcolumns
  have hrow : ∀ row : List String, row.length = columns.length →
      ∀ line ∈ rowLines (columns.zip found) row, Text.width line = breadth found := by
    intro row hrow line hline
    have hwidth := width_of_mem_rowLines hsized (hrow.trans hsizedLength.symm)
      (fun entry hentry => hwide _ (List.of_mem_zip hentry).2) hline
    rwa [hsnd] at hwidth
  simp only [drawLines, hfound, List.cons_append, List.append_assoc, List.mem_cons, List.mem_append,
    List.not_mem_nil, or_false] at h
  rcases h with rfl | hheading | rfl | hbody | rfl
  · exact width_rule hnonempty (by decide) (by decide) (by decide) (by decide)
  · exact hrow _ (List.length_map _) line hheading
  · exact width_rule hnonempty (by decide) (by decide) (by decide) (by decide)
  · rcases mem_intercalate hbody with hrule | ⟨part, hpart, hline⟩
    · rw [List.mem_singleton.1 hrule]
      exact width_rule hnonempty (by decide) (by decide) (by decide) (by decide)
    · obtain ⟨row, hmem, rfl⟩ := List.mem_map.1 hpart
      exact hrow row (hrows row hmem) line hline
  · exact width_rule hnonempty (by decide) (by decide) (by decide) (by decide)

end Grid

namespace Overview

theorem fair_columns : ∀ column ∈ columns, column.Fair 20 133 := by
  simp only [columns, List.forall_mem_cons, List.not_mem_nil, false_implies, implies_true, and_true]
  refine ⟨?_, ?_, ?_, ?_, ?_, ?_⟩
  all_goals exact ⟨by decide, by decide, by simp [Grid.Bound.Fair, Grid.margin]⟩

/-- The lines of the table are all equally wide, and no wider than the table may be. -/
theorem lines_alike (trees : List SectionTree) :
    ∃ breadth ≤ width, ∀ line ∈ Grid.drawLines width columns ((rows trees).map Row.cells),
      Text.width line = breadth := by
  have hshare : 20 * columns.length ≤
      width - (columns.length + 1) - Grid.margin * columns.length := by decide
  have hrows : ∀ row ∈ (rows trees).map Row.cells, row.length = columns.length := by
    intro row hrow
    obtain ⟨cells, -, rfl⟩ := List.mem_map.1 hrow
    rfl
  obtain ⟨hlength, hwide, hsum⟩ := Grid.widths_spec (by decide) (by simp [Grid.columnTexts]) hshare
    (Grid.fair_openSlots fair_columns ((rows trees).map Row.cells))
  refine ⟨_, ?_, fun line hline =>
    Grid.width_of_mem_drawLines (by decide) hrows rfl hlength hwide hline⟩
  have hcolumns : columns.length = 6 := rfl
  rw [Grid.breadth_eq, hlength]
  simp only [hcolumns, width, Grid.margin] at hsum ⊢
  omega

end Overview

end MapCatalog
