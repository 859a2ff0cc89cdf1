import MapCatalog.Catalog.Basic
import MapCatalog.Catalog.Error

/-! # Editing the catalogue

The identifier of a new record is chosen by the caller.  An operation that fails yields no catalogue.
-/

namespace MapCatalog

namespace Catalog

/-- The result of an operation and the catalogue after it. -/
abbrev Edit (α : Type) :=
  Except CatalogError (α × Catalog)

/-! ## Creation -/

def createSection (c : Catalog) (id : SectionId) (fields : SectionFields) : Edit SectionRecord :=
  match fields.validate with
  | .error e => .error (.invalid e)
  | .ok _ =>
      .ok (⟨id, fields⟩,
        { c with
          sections := c.sections.insert id ⟨fields, []⟩
          order := c.order ++ [id] })

def createGroup (c : Catalog) (id : GroupId) (fields : GroupFields) : Edit GroupRecord :=
  match fields.validate with
  | .error e => .error (.invalid e)
  | .ok _ =>
      match c.sections.get? fields.sectionId with
      | none => .error (.notFound .sections fields.sectionId)
      | some entry =>
          .ok (⟨id, fields⟩,
            { c with
              sections := c.sections.insert fields.sectionId
                { entry with groups := entry.groups ++ [id] }
              groups := c.groups.insert id ⟨fields, [], 0⟩ })

/-- A new layer, behind all others of its group. -/
def createLayer (c : Catalog) (id : LayerId) (group : GroupId) (fields : LayerFields) :
    Edit LayerRecord :=
  match fields.validate with
  | .error e => .error (.invalid e)
  | .ok _ =>
      match c.groups.get? group with
      | none => .error (.notFound .groups group)
      | some entry =>
          .ok (⟨id, group, place entry.layers.length, fields⟩,
            { c with
              groups := c.groups.insert group
                { entry with layers := entry.layers ++ [id], revision := entry.revision + 1 }
              layers := c.layers.insert id ⟨group, fields⟩ })

/-! ## Full replacement -/

def replaceSection (c : Catalog) (id : SectionId) (fields : SectionFields) : Edit SectionRecord :=
  match fields.validate with
  | .error e => .error (.invalid e)
  | .ok _ =>
      match c.sections.get? id with
      | none => .error (.notFound .sections id)
      | some entry =>
          .ok (⟨id, fields⟩,
            { c with sections := c.sections.insert id { entry with fields := fields } })

/-- Take a group out of the list of one section and put it behind the groups of another. -/
def moveGroup (sections : Table SectionId SectionEntry) (id : GroupId) (source target : SectionId) :
    Table SectionId SectionEntry :=
  if source = target then
    sections
  else
    let without := sections.modify source fun entry =>
      { entry with groups := entry.groups.filter fun group => decide (group ≠ id) }
    without.modify target fun entry => { entry with groups := entry.groups ++ [id] }

/-- Replace the fields of a group, which moves the group when they name another section. -/
def replaceGroup (c : Catalog) (id : GroupId) (fields : GroupFields) : Edit GroupRecord :=
  match fields.validate with
  | .error e => .error (.invalid e)
  | .ok _ =>
      match c.groups.get? id with
      | none => .error (.notFound .groups id)
      | some entry =>
          if c.sections.contains fields.sectionId then
            .ok (⟨id, fields⟩,
              { c with
                sections := moveGroup c.sections id entry.fields.sectionId fields.sectionId
                groups := c.groups.insert id { entry with fields := fields } })
          else
            .error (.notFound .sections fields.sectionId)

/-- Replace the fields of a layer, which keeps its group and its place. -/
def replaceLayer (c : Catalog) (id : LayerId) (fields : LayerFields) : Edit LayerRecord :=
  match fields.validate with
  | .error e => .error (.invalid e)
  | .ok _ =>
      match c.layers.get? id with
      | none => .error (.notFound .layers id)
      | some entry =>
          let c := { c with layers := c.layers.insert id { entry with fields := fields } }
          match c.layer? id with
          | none => .error (.notFound .layers id)
          | some layer => .ok (layer, c)

/-! ## Deletion -/

/-- Take a group and its layers out of their tables, and say how many layers those were. -/
def dropGroup (c : Catalog) (id : GroupId) : Nat × Catalog :=
  match c.groups.get? id with
  | none => (0, c)
  | some entry =>
      (entry.layers.length,
        { c with
          groups := c.groups.erase id
          layers := entry.layers.foldl (fun layers layer => layers.erase layer) c.layers })

/-- Drop groups one after the other, and say how many layers went with them. -/
def dropGroups : Catalog → List GroupId → Nat × Catalog
  | c, [] => (0, c)
  | c, id :: rest =>
      let (dropped, c) := c.dropGroup id
      let (more, c) := dropGroups c rest
      (dropped + more, c)

def deleteSection (c : Catalog) (id : SectionId) : Edit Counts :=
  match c.sections.get? id with
  | none => .error (.notFound .sections id)
  | some entry =>
      let (layers, c) := dropGroups
        { c with
          sections := c.sections.erase id
          order := c.order.filter fun other => decide (other ≠ id) } entry.groups
      .ok (⟨1, entry.groups.length, layers⟩, c)

def deleteGroup (c : Catalog) (id : GroupId) : Edit Counts :=
  match c.groups.get? id with
  | none => .error (.notFound .groups id)
  | some entry =>
      let (layers, c) := dropGroup
        { c with
          sections := c.sections.modify entry.fields.sectionId fun parent =>
            { parent with groups := parent.groups.filter fun group => decide (group ≠ id) } } id
      .ok (⟨0, 1, layers⟩, c)

def deleteLayer (c : Catalog) (id : LayerId) : Edit Counts :=
  match c.layers.get? id with
  | none => .error (.notFound .layers id)
  | some entry =>
      .ok (⟨0, 0, 1⟩,
        { c with
          layers := c.layers.erase id
          groups := c.groups.modify entry.group fun group =>
            { group with
              layers := group.layers.filter fun layer => decide (layer ≠ id)
              revision := group.revision + 1 } })

end Catalog

end MapCatalog
