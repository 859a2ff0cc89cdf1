import MapCatalog.Record.Tree
import MapCatalog.Sequence.Table

/-! # The catalogue

Records are held in one table per tier; order is held only in the lists of identifiers of each parent.  The place of a
layer is its position in the list of its group.
-/

namespace MapCatalog

structure SectionEntry where
  fields : SectionFields
  groups : List GroupId
deriving DecidableEq

structure GroupEntry where
  fields : GroupFields
  layers : List LayerId
  /-- How often the list of layers has changed. -/
  revision : Nat
deriving DecidableEq

structure LayerEntry where
  group : GroupId
  fields : LayerFields
deriving DecidableEq

/-- Sections, groups and layers, and the order of the sections. -/
structure Catalog where
  order : List SectionId
  sections : Table SectionId SectionEntry
  groups : Table GroupId GroupEntry
  layers : Table LayerId LayerEntry
deriving DecidableEq

structure Counts where
  sections : Nat
  groups : Nat
  layers : Nat
deriving DecidableEq

namespace Catalog

def empty : Catalog :=
  ⟨[], .empty, .empty, .empty⟩

instance : Inhabited Catalog :=
  ⟨empty⟩

def counts (c : Catalog) : Counts :=
  ⟨c.sections.size, c.groups.size, c.layers.size⟩

/-- The place of a position; positions beyond 32 bits share the last place. -/
def place (position : Nat) : UInt32 :=
  UInt32.ofNat (min position (2 ^ 32 - 1))

theorem toNat_place {position : Nat} (h : position < 2 ^ 32) :
    (place position).toNat = position := by
  have hmin : min position (2 ^ 32 - 1) = position := by omega
  unfold place
  rw [hmin]
  exact UInt32.toNat_ofNat_of_lt' h

/-! ## Reading -/

/-- A layer as it stands at a position of its group. -/
def layerAt (c : Catalog) (id : LayerId) (position : Nat) : Option LayerRecord :=
  (c.layers.get? id).map fun entry => ⟨id, entry.group, place position, entry.fields⟩

/-- The layers of a list of identifiers, the first of which stands at a position. -/
def layersFrom (c : Catalog) : Nat → List LayerId → List LayerRecord
  | _, [] => []
  | position, id :: rest =>
      match c.layerAt id position with
      | some layer => layer :: c.layersFrom (position + 1) rest
      | none => c.layersFrom (position + 1) rest

/-- The position of a layer in the list of its group. -/
def position? (id : LayerId) (ids : List LayerId) : Option Nat :=
  ids.findIdx? fun other => decide (other = id)

def layer? (c : Catalog) (id : LayerId) : Option LayerRecord :=
  match c.layers.get? id with
  | none => none
  | some entry =>
      match c.groups.get? entry.group with
      | none => none
      | some group =>
          match position? id group.layers with
          | none => none
          | some position => c.layerAt id position

/-- A group with its layers, or without them at depth 0. -/
def groupTree? (c : Catalog) (depth : Nat) (id : GroupId) : Option GroupTree :=
  (c.groups.get? id).map fun entry =>
    { group := ⟨id, entry.fields⟩
      layers := if depth = 0 then [] else c.layersFrom 0 entry.layers }

def sectionTree? (c : Catalog) (depth : Nat) (id : SectionId) : Option SectionTree :=
  (c.sections.get? id).map fun entry =>
    { head := ⟨id, entry.fields⟩
      groups := if depth = 0 then [] else entry.groups.filterMap (c.groupTree? (depth - 1)) }

def fullDepth : Nat :=
  2

def trees (c : Catalog) : List SectionTree :=
  c.order.filterMap (c.sectionTree? fullDepth)

/-- The number of changes of the list of layers of a group. -/
def revision? (c : Catalog) (id : GroupId) : Option Nat :=
  (c.groups.get? id).map GroupEntry.revision

def snapshot (c : Catalog) : Snapshot :=
  .current c.trees

end Catalog

end MapCatalog
