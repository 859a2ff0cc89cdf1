import MapCatalog.Catalog.Edit
import MapCatalog.Catalog.Move

/-! # Operations -/

namespace MapCatalog

/-- Something to do to a catalogue.  Creations name the new identifier. -/
inductive Operation where
  | createSection (id : SectionId) (fields : SectionFields)
  | createGroup (id : GroupId) (fields : GroupFields)
  | createLayer (id : LayerId) (group : GroupId) (fields : LayerFields)
  | replaceSection (id : SectionId) (fields : SectionFields)
  | replaceGroup (id : GroupId) (fields : GroupFields)
  | replaceLayer (id : LayerId) (fields : LayerFields)
  | deleteSection (id : SectionId)
  | deleteGroup (id : GroupId)
  | deleteLayer (id : LayerId)
  | moveLayer (id : LayerId) (direction : Direction) (expected : Option Nat)
deriving DecidableEq

inductive Answer where
  | aSection (record : SectionRecord)
  | aGroup (record : GroupRecord)
  | aLayer (record : LayerRecord)
  | removed (counts : Counts)
  | moved (outcome : Moved)
deriving DecidableEq

namespace Catalog

def Edit.as {α : Type} (edit : Edit α) (wrap : α → Answer) : Edit Answer :=
  match edit with
  | .error e => .error e
  | .ok (value, c) => .ok (wrap value, c)

def perform (c : Catalog) : Operation → Edit Answer
  | .createSection id fields => (c.createSection id fields).as .aSection
  | .createGroup id fields => (c.createGroup id fields).as .aGroup
  | .createLayer id group fields => (c.createLayer id group fields).as .aLayer
  | .replaceSection id fields => (c.replaceSection id fields).as .aSection
  | .replaceGroup id fields => (c.replaceGroup id fields).as .aGroup
  | .replaceLayer id fields => (c.replaceLayer id fields).as .aLayer
  | .deleteSection id => (c.deleteSection id).as .removed
  | .deleteGroup id => (c.deleteGroup id).as .removed
  | .deleteLayer id => (c.deleteLayer id).as .removed
  | .moveLayer id direction expected => (c.moveLayer id direction expected).as .moved

/-- The catalogue after an operation, which is the same one when the operation fails. -/
def after (c : Catalog) (operation : Operation) : Catalog :=
  match c.perform operation with
  | .error _ => c
  | .ok (_, c) => c

def run (c : Catalog) (history : List Operation) : Catalog :=
  history.foldl after c

end Catalog

end MapCatalog
