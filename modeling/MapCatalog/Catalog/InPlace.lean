import MapCatalog.Catalog.Operation

/-! # Operations in place

What an operation has written when it fails stays written.  Faults are therefore looked for first; only a layer that is
replaced is read back after it was written.
-/

namespace MapCatalog

/-- Something done in place.  It answers or fails, and leaves a catalogue either way. -/
abbrev Work :=
  EStateM CatalogError Catalog

namespace Work

/-- Go on if fields are valid. -/
def check (verdict : Except RecordError Unit) : Work Unit :=
  match verdict with
  | .error e => throw (.invalid e)
  | .ok _ => pure ()

/-- Something that is in the catalogue, or else a failure. -/
def need {α : Type} (read : Catalog → Option α) (absent : CatalogError) : Work α := do
  match read (← get) with
  | none => throw absent
  | some found => pure found

def onSections (change : Table SectionId SectionEntry → Table SectionId SectionEntry) :
    Work Unit :=
  modify fun c => { c with sections := change c.sections }

def onGroups (change : Table GroupId GroupEntry → Table GroupId GroupEntry) : Work Unit :=
  modify fun c => { c with groups := change c.groups }

def onLayers (change : Table LayerId LayerEntry → Table LayerId LayerEntry) : Work Unit :=
  modify fun c => { c with layers := change c.layers }

def onOrder (change : List SectionId → List SectionId) : Work Unit :=
  modify fun c => { c with order := change c.order }

/-! ## Creation -/

def createSection (id : SectionId) (fields : SectionFields) : Work SectionRecord := do
  check fields.validate
  onSections fun sections => sections.insert id ⟨fields, []⟩
  onOrder fun order => order ++ [id]
  return ⟨id, fields⟩

def createGroup (id : GroupId) (fields : GroupFields) : Work GroupRecord := do
  check fields.validate
  let _ ← need (fun c => c.sections.get? fields.sectionId) (.notFound .sections fields.sectionId)
  onSections fun sections => sections.modify fields.sectionId fun entry =>
    { entry with groups := entry.groups ++ [id] }
  onGroups fun groups => groups.insert id ⟨fields, [], 0⟩
  return ⟨id, fields⟩

def createLayer (id : LayerId) (group : GroupId) (fields : LayerFields) : Work LayerRecord := do
  check fields.validate
  let found ← need (fun c => c.groups.get? group) (.notFound .groups group)
  onGroups fun groups => groups.modify group fun entry =>
    { entry with layers := entry.layers ++ [id], revision := entry.revision + 1 }
  onLayers fun layers => layers.insert id ⟨group, fields⟩
  return ⟨id, group, Catalog.place found.layers.length, fields⟩

/-! ## Full replacement -/

def replaceSection (id : SectionId) (fields : SectionFields) : Work SectionRecord := do
  check fields.validate
  let _ ← need (fun c => c.sections.get? id) (.notFound .sections id)
  onSections fun sections => sections.modify id fun entry => { entry with fields := fields }
  return ⟨id, fields⟩

def replaceGroup (id : GroupId) (fields : GroupFields) : Work GroupRecord := do
  check fields.validate
  let found ← need (fun c => c.groups.get? id) (.notFound .groups id)
  let _ ← need (fun c => c.sections.get? fields.sectionId) (.notFound .sections fields.sectionId)
  onSections fun sections =>
    Catalog.moveGroup sections id found.fields.sectionId fields.sectionId
  onGroups fun groups => groups.modify id fun entry => { entry with fields := fields }
  return ⟨id, fields⟩

/-- The new fields are written before the layer is read back. -/
def replaceLayer (id : LayerId) (fields : LayerFields) : Work LayerRecord := do
  check fields.validate
  let _ ← need (fun c => c.layers.get? id) (.notFound .layers id)
  onLayers fun layers => layers.modify id fun entry => { entry with fields := fields }
  need (fun c => c.layer? id) (.notFound .layers id)

/-! ## Deletion -/

def deleteSection (id : SectionId) : Work Counts := do
  let found ← need (fun c => c.sections.get? id) (.notFound .sections id)
  onSections fun sections => sections.erase id
  onOrder fun order => order.filter fun other => decide (other ≠ id)
  let layers ← modifyGet fun c => c.dropGroups found.groups
  return ⟨1, found.groups.length, layers⟩

def deleteGroup (id : GroupId) : Work Counts := do
  let found ← need (fun c => c.groups.get? id) (.notFound .groups id)
  onSections fun sections => sections.modify found.fields.sectionId fun parent =>
    { parent with groups := parent.groups.filter fun group => decide (group ≠ id) }
  let layers ← modifyGet fun c => c.dropGroup id
  return ⟨0, 1, layers⟩

def deleteLayer (id : LayerId) : Work Counts := do
  let found ← need (fun c => c.layers.get? id) (.notFound .layers id)
  onLayers fun layers => layers.erase id
  onGroups fun groups => groups.modify found.group fun group =>
    { group with
      layers := group.layers.filter fun layer => decide (layer ≠ id)
      revision := group.revision + 1 }
  return ⟨0, 0, 1⟩

/-! ## Moves -/

def moveLayer (id : LayerId) (direction : Direction) (expected : Option Nat) : Work Moved := do
  let found ← need (fun c => c.layers.get? id) (.notFound .layers id)
  let group ← need (fun c => c.groups.get? found.group) (.notFound .groups found.group)
  unless expected.getD group.revision = group.revision do
    throw (.conflict found.group (expected.getD group.revision) group.revision)
  let position ← need (fun _ => Catalog.position? id group.layers) (.notFound .layers id)
  match Catalog.neighbour? direction position group.layers.length with
  | none => return .unchanged (Catalog.place position) group.revision
  | some neighbour =>
      onGroups fun groups => groups.modify found.group fun group =>
        { group with
          layers := Catalog.exchange (min position neighbour) group.layers
          revision := group.revision + 1 }
      return .moved (Catalog.place position) (Catalog.place neighbour) (group.revision + 1)

end Work

namespace Operation

def work : Operation → Work Answer
  | .createSection id fields => .aSection <$> Work.createSection id fields
  | .createGroup id fields => .aGroup <$> Work.createGroup id fields
  | .createLayer id group fields => .aLayer <$> Work.createLayer id group fields
  | .replaceSection id fields => .aSection <$> Work.replaceSection id fields
  | .replaceGroup id fields => .aGroup <$> Work.replaceGroup id fields
  | .replaceLayer id fields => .aLayer <$> Work.replaceLayer id fields
  | .deleteSection id => .removed <$> Work.deleteSection id
  | .deleteGroup id => .removed <$> Work.deleteGroup id
  | .deleteLayer id => .removed <$> Work.deleteLayer id
  | .moveLayer id direction expected => .moved <$> Work.moveLayer id direction expected

end Operation

end MapCatalog
