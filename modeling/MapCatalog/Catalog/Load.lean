import MapCatalog.Catalog.Basic
import MapCatalog.Catalog.Error
import MapCatalog.Sequence.StableSort

/-! # Loading the catalogue

The layers of a group are sorted by their stored places, and every record is taken to belong to the record it is
nested in, whatever parent it names.
-/

namespace MapCatalog

namespace Catalog

def loadLayer (group : GroupId) (c : Catalog) (layer : LayerRecord) :
    Except SnapshotFault Catalog :=
  if c.layers.contains layer.id then .error (.duplicate .layers layer.id)
  else .ok { c with layers := c.layers.insert layer.id ⟨group, layer.fields⟩ }

def sortedLayers (tree : GroupTree) : List LayerRecord :=
  Sequence.stableSort (fun layer => (layer.order.toNat : Int)) tree.layers

/-- Enter a group of a section, with its layers. -/
def loadGroup (parent : SectionId) (c : Catalog) (tree : GroupTree) :
    Except SnapshotFault Catalog :=
  if c.groups.contains tree.group.id then
    .error (.duplicate .groups tree.group.id)
  else
    match (sortedLayers tree).foldlM (loadLayer tree.group.id) c with
    | .error e => .error e
    | .ok c =>
        .ok
          { c with
            groups := c.groups.insert tree.group.id
              { fields := { tree.group.fields with sectionId := parent }
                layers := (sortedLayers tree).map LayerRecord.id
                revision := 0 } }

def loadSection (c : Catalog) (tree : SectionTree) : Except SnapshotFault Catalog :=
  if c.sections.contains tree.head.id then
    .error (.duplicate .sections tree.head.id)
  else
    match tree.groups.foldlM (loadGroup tree.head.id) c with
    | .error e => .error e
    | .ok c =>
        .ok
          { c with
            sections := c.sections.insert tree.head.id
              ⟨tree.head.fields, tree.groups.map fun group => group.group.id⟩
            order := c.order ++ [tree.head.id] }

def ofTrees (trees : List SectionTree) : Except SnapshotFault Catalog :=
  trees.foldlM loadSection empty

/-- The catalogue of a snapshot, whatever its version. -/
def ofSnapshot (snapshot : Snapshot) : Except SnapshotFault Catalog :=
  ofTrees snapshot.sections

end Catalog

end MapCatalog
