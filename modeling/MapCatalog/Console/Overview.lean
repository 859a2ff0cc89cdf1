import MapCatalog.Catalog.Basic
import MapCatalog.Console.Grid

/-! # The overview of the catalogue

A group without layers and a section without groups have a row of their own, in which dashes stand for what is not
there.
-/

namespace MapCatalog

namespace Overview

structure Row where
  sectionName : String
  groupName : String
  layerName : String
  type : String
  order : String
  source : String
deriving DecidableEq

def dash : String :=
  "-"

namespace Row

def cells (row : Row) : List String :=
  [row.sectionName, row.groupName, row.layerName, row.type, row.order, row.source]

def ofSection (name : String) : Row :=
  ⟨name, dash, dash, dash, dash, dash⟩

def ofGroup (parent name : String) : Row :=
  ⟨parent, name, dash, dash, dash, dash⟩

end Row

def sourceText (source : Source) : String :=
  if source.kind.isEmpty && source.location.isEmpty then dash
  else source.kind ++ ": " ++ source.location

def layerRow (parent group : String) (layer : LayerRecord) : Row :=
  { sectionName := parent
    groupName := group
    layerName := layer.fields.name
    type := layer.fields.visualType.name
    order := toString layer.order.toNat
    source := sourceText layer.fields.source }

def groupRows (parent : String) (tree : GroupTree) : List Row :=
  if tree.layers.isEmpty then [Row.ofGroup parent tree.group.fields.name]
  else tree.layers.map (layerRow parent tree.group.fields.name)

def sectionRows (tree : SectionTree) : List Row :=
  if tree.groups.isEmpty then [Row.ofSection tree.head.fields.name]
  else tree.groups.flatMap (groupRows tree.head.fields.name)

def rows (trees : List SectionTree) : List Row :=
  trees.flatMap sectionRows

def columns : List Grid.Column :=
  [⟨"Section", false, .atMost 20⟩, ⟨"Group", false, .atMost 20⟩, ⟨"Layer", false, .atMost 25⟩,
   ⟨"Type", false, .atLeast 6⟩, ⟨"Order", true, .atLeast 5⟩, ⟨"Source", false, .atMost 35⟩]

def width : Nat :=
  140

def table (trees : List SectionTree) : String :=
  Grid.draw width columns ((rows trees).map Row.cells)

def totals (trees : List SectionTree) : Counts :=
  { sections := trees.length
    groups := (trees.flatMap SectionTree.groups).length
    layers := ((trees.flatMap SectionTree.groups).flatMap GroupTree.layers).length }

def totalsLine (counts : Counts) : String :=
  toString counts.sections ++ " section(s), " ++ toString counts.groups ++ " group(s), " ++
    toString counts.layers ++ " layer(s)"

def text (trees : List SectionTree) : String :=
  if trees.isEmpty then "No layer sections.\n"
  else table trees ++ "\n" ++ totalsLine (totals trees) ++ "\n"

end Overview

end MapCatalog
