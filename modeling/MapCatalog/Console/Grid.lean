import MapCatalog.Text.Wrap

/-! # Drawn tables

A column is as wide as its widest text, as long as the table and the bound of the column allow it; where they do
not, texts are wrapped.
-/

namespace MapCatalog

namespace Grid

/-- What a column must or may take, with the blanks beside its texts. -/
inductive Bound where
  | atLeast (width : Nat)
  /-- A share of the room between the lines of the table. -/
  | atMost (percent : Nat)
deriving DecidableEq

structure Column where
  title : String
  /-- Whether the texts are moved to the right edge. -/
  toRight : Bool
  bound : Bound
deriving DecidableEq

def margin : Nat :=
  2

def lines (text : String) : List (List Char) :=
  Text.pieces (· == '\n') text.toList

/-- The lines of a text in a column of some width. -/
def fittedLines (width : Nat) (text : String) : List (List Char) :=
  (lines text).flatMap fun line =>
    if Text.width line ≤ width then [line] else Text.wrap width line

def widest (lines : List (List Char)) : Nat :=
  (lines.map Text.width).foldl max 0

/-! ## Widths of columns -/

/-- A column with its texts, and the width of these as soon as it is settled. -/
structure Slot where
  column : Column
  texts : List String
  width : Option Nat
deriving DecidableEq

/-- The room that is left for the texts of the columns whose width is not settled. -/
structure Space where
  room : Nat
  columns : Nat
deriving DecidableEq

def Space.average (space : Space) : Nat :=
  space.room / space.columns

def Space.without (space : Space) (width : Nat) : Space :=
  ⟨space.room - width, space.columns - 1⟩

/-- A way to settle the width of a column, or to leave it open. -/
abbrev Choice :=
  Space → Slot → Option Nat

/-- Go through the columns once.  What one takes is not left for those after it. -/
def settle (choose : Choice) : Space → List Slot → Space × List Slot
  | space, [] => (space, [])
  | space, slot :: slots =>
      match slot.width, choose space slot with
      | none, some width =>
          let after := settle choose (space.without width) slots
          (after.1, { slot with width := some width } :: after.2)
      | _, _ =>
          let after := settle choose space slots
          (after.1, slot :: after.2)

def settleAll (choose : Choice) : Nat → Space × List Slot → Space × List Slot
  | 0, state => state
  | rounds + 1, (space, slots) =>
      if space.average = 0 then (space, slots)
      else settleAll choose rounds (settle choose space slots)

def inner (width : Nat) : Nat :=
  max 1 (width - margin)

namespace Slot

def widest (slot : Slot) : Nat :=
  Grid.widest (slot.texts.flatMap lines)

/-- Where the texts need no more than a column has to take, it takes just that. -/
def needless : Choice := fun _ slot =>
  match slot.column.bound with
  | .atLeast least => if slot.widest + margin ≤ least then some (inner least) else none
  | .atMost _ => none

/-- A column takes no more than an even share of the room, because its bound or its texts are below that. -/
def modest (room : Nat) : Choice := fun space slot =>
  let whole := if slot.widest ≤ space.average then some (max 1 slot.widest) else none
  match slot.column.bound with
  | .atLeast _ => whole
  | .atMost percent =>
      let most := room * min percent 100 / 100
      if most ≤ space.average + margin ∧ most ≤ slot.widest + margin then some (inner most)
      else whole

/-- An even share of the room would be less than a column has to take. -/
def scarce : Choice := fun space slot =>
  match slot.column.bound with
  | .atLeast least => if space.average < least then some (inner least) else none
  | .atMost _ => none

/-- Once the texts are wrapped, they need clearly less than an even share of the room. -/
def wrapped : Choice := fun space slot =>
  let found := Grid.widest (slot.texts.flatMap (fittedLines space.average))
  if found + 3 ≤ space.average then some (max 1 found) else none

/-- An even share of the room; what does not divide evenly goes to the first columns. -/
def even : Choice := fun space _ =>
  some (max 1 ((space.room + space.columns - 1) / space.columns))

end Slot

def openSlots (columns : List Column) (texts : List (List String)) : List Slot :=
  List.zipWith (fun column texts => ⟨column, texts, none⟩) columns texts

/-- The widths of the texts in the columns of a table. -/
def widths (total : Nat) (columns : List Column) (texts : List (List String)) : List Nat :=
  let count := columns.length
  let room := total - (count + 1)
  let state := settle Slot.needless ⟨room - margin * count, count⟩ (openSlots columns texts)
  let state := settleAll (Slot.modest room) count state
  let state := settle Slot.scarce state.1 state.2
  let state := settleAll Slot.wrapped count state
  (settle Slot.even state.1 state.2).2.map fun slot => slot.width.getD 0

/-! ## Drawing -/

def columnTexts (rows : List (List String)) (count : Nat) : List (List String) :=
  (List.range count).map fun index => rows.map fun row => row.getD index ""

def padded (toRight : Bool) (width : Nat) (line : List Char) : List Char :=
  let gap := List.replicate (width - Text.width line) ' '
  ' ' :: (if toRight then gap ++ line else line ++ gap) ++ [' ']

def rule (left bar cross right : Char) (widths : List Nat) : List Char :=
  left :: List.intercalate [cross] (widths.map fun width => List.replicate (width + margin) bar) ++
    [right]

/-- What stands on one line of a row.  A cell with fewer lines is empty there. -/
def rowTexts (columns : List (Column × Nat)) (cells : List (List (List Char))) (index : Nat) :
    List (List Char) :=
  List.zipWith (fun (column, width) cell => padded column.toRight width (cell.getD index []))
    columns cells

def rowLine (columns : List (Column × Nat)) (cells : List (List (List Char))) (index : Nat) :
    List Char :=
  '│' :: List.intercalate ['│'] (rowTexts columns cells index) ++ ['│']

def rowLines (columns : List (Column × Nat)) (row : List String) : List (List Char) :=
  let cells := List.zipWith (fun (_, width) text => fittedLines width text) columns row
  let height := (cells.map List.length).foldl max 0
  (List.range height).map (rowLine columns cells)

/-- The lines of a table that may be so many columns of the screen wide. -/
def drawLines (total : Nat) (columns : List Column) (rows : List (List String)) :
    List (List Char) :=
  let heading := columns.map Column.title
  let widths := widths total columns (columnTexts (heading :: rows) columns.length)
  let sized := columns.zip widths
  let body := List.intercalate [rule '├' '─' '┼' '┤' widths] (rows.map (rowLines sized))
  rule '╭' '─' '┬' '╮' widths :: rowLines sized heading ++
    rule '╞' '═' '╪' '╡' widths :: body ++ [rule '╰' '─' '┴' '╯' widths]

def draw (total : Nat) (columns : List Column) (rows : List (List String)) : String :=
  String.ofList (List.intercalate ['\n'] (drawLines total columns rows))

end Grid

end MapCatalog
