import MapCatalog.Catalog.Operation

/-! # Plain forests

Here every operation is described on a list of section trees alone.  There are no tables, no identifiers to follow and
nothing that can fail.
-/

namespace MapCatalog

namespace Forest

/-! ## Records of a forest -/

def groups (forest : List SectionTree) : List GroupTree :=
  forest.flatMap SectionTree.groups

def layers (forest : List SectionTree) : List LayerRecord :=
  (groups forest).flatMap GroupTree.layers

def counts (forest : List SectionTree) : Counts :=
  ⟨forest.length, (groups forest).length, (layers forest).length⟩

structure DistinctIds (forest : List SectionTree) : Prop where
  sections : (forest.map fun tree => tree.head.id).Nodup
  groups : ((groups forest).map fun tree => tree.group.id).Nodup
  layers : ((layers forest).map LayerRecord.id).Nodup

/-! ## Changes in place -/

def mapSection (id : SectionId) (change : SectionTree → SectionTree)
    (forest : List SectionTree) : List SectionTree :=
  forest.map fun tree => if tree.head.id = id then change tree else tree

def mapGroups (change : GroupTree → GroupTree) (forest : List SectionTree) : List SectionTree :=
  forest.map fun tree => { tree with groups := tree.groups.map change }

def mapGroup (id : GroupId) (change : GroupTree → GroupTree) :
    List SectionTree → List SectionTree :=
  mapGroups fun tree => if tree.group.id = id then change tree else tree

def renumber (layers : List LayerRecord) : List LayerRecord :=
  layers.mapIdx fun index layer => { layer with order := UInt32.ofNat index }

/-- What does not look at the numbers of layers is the same after they are numbered. -/
theorem map_numbered {α : Type} (number : Nat → UInt32) {f : LayerRecord → α}
    (hf : ∀ layer order, f { layer with order := order } = f layer) (layers : List LayerRecord) :
    (layers.mapIdx fun index layer => { layer with order := number index }).map f =
      layers.map f := by
  apply List.ext_getElem?
  intro i
  simp only [List.getElem?_map, List.getElem?_mapIdx, Option.map_map, Function.comp_def, hf]

/-- Change the list of layers that holds a layer, and number that list anew. -/
def mapSiblings (id : LayerId) (change : List LayerRecord → List LayerRecord) :
    List SectionTree → List SectionTree :=
  mapGroups fun tree =>
    if id ∈ tree.layers.map LayerRecord.id then
      { tree with layers := renumber (change tree.layers) }
    else tree

def overwriteLayer (id : LayerId) (fields : LayerFields) :
    List SectionTree → List SectionTree :=
  mapGroups fun tree =>
    { tree with
      layers := tree.layers.map fun layer =>
        if layer.id = id then { layer with fields := fields } else layer }

/-! ## Exchanges -/

def swapUp {α : Type} (test : α → Bool) : List α → List α
  | a :: b :: rest => if test b then b :: a :: rest else a :: swapUp test (b :: rest)
  | other => other

def swapDown {α : Type} (test : α → Bool) : List α → List α
  | a :: b :: rest => if test a then b :: a :: rest else a :: swapDown test (b :: rest)
  | other => other

def swap {α : Type} : Direction → (α → Bool) → List α → List α
  | .up => swapUp
  | .down => swapDown

theorem swapUp_map {α β : Type} (f : α → β) (test : β → Bool) (xs : List α) :
    swapUp test (xs.map f) = (swapUp (fun x => test (f x)) xs).map f := by
  induction xs with
  | nil =>
      rfl
  | cons a rest ih =>
      cases rest with
      | nil =>
          rfl
      | cons b rest =>
          simp only [List.map_cons, swapUp] at ih ⊢
          split
          · rfl
          · rw [List.map_cons, ih]

theorem swapDown_map {α β : Type} (f : α → β) (test : β → Bool) (xs : List α) :
    swapDown test (xs.map f) = (swapDown (fun x => test (f x)) xs).map f := by
  induction xs with
  | nil =>
      rfl
  | cons a rest ih =>
      cases rest with
      | nil =>
          rfl
      | cons b rest =>
          simp only [List.map_cons, swapDown] at ih ⊢
          split
          · rfl
          · rw [List.map_cons, ih]

/-- An exchange that looks only at what a function keeps goes through the function. -/
theorem swap_map {α β : Type} (direction : Direction) (f : α → β) (test : β → Bool)
    (xs : List α) :
    swap direction test (xs.map f) = (swap direction (fun x => test (f x)) xs).map f := by
  cases direction with
  | up =>
      exact swapUp_map f test xs
  | down =>
      exact swapDown_map f test xs

/-! ## Groups that come and go -/

def appendGroup (parent : SectionId) (group : GroupTree) : List SectionTree → List SectionTree :=
  mapSection parent fun tree => { tree with groups := tree.groups ++ [group] }

def removeGroup (id : GroupId) (forest : List SectionTree) : List SectionTree :=
  forest.map fun tree =>
    { tree with groups := tree.groups.filter fun group => decide (group.group.id ≠ id) }

def nests (parent : SectionId) (id : GroupId) (forest : List SectionTree) : Bool :=
  forest.any fun tree =>
    decide (tree.head.id = parent) && tree.groups.any fun group => decide (group.group.id = id)

/-- Overwrite the fields of a group.  In the section that they name the group keeps its place; from any
other section it goes, with its layers in their order, behind the groups of the one they name. -/
def overwriteGroup (id : GroupId) (fields : GroupFields) (forest : List SectionTree) :
    List SectionTree :=
  if nests fields.sectionId id forest then
    mapGroup id (fun tree => { tree with group := ⟨id, fields⟩ }) forest
  else
    match (groups forest).find? fun tree => decide (tree.group.id = id) with
    | none => forest
    | some tree =>
        appendGroup fields.sectionId { tree with group := ⟨id, fields⟩ } (removeGroup id forest)

/-! ## Normal form -/

def sortLayers (layers : List LayerRecord) : List LayerRecord :=
  layers.mergeSort fun a b => decide (a.order ≤ b.order)

/-- A group as the section it stands in, with its own layers sorted and numbered anew. -/
def normaliseGroup (parent : SectionId) (tree : GroupTree) : GroupTree :=
  { group := ⟨tree.group.id, { tree.group.fields with sectionId := parent }⟩
    layers := renumber ((sortLayers tree.layers).map fun layer =>
      { layer with groupId := tree.group.id }) }

/-- A forest in which records name the records they stand in, and layers their positions. -/
def normalise (forest : List SectionTree) : List SectionTree :=
  forest.map fun tree => { tree with groups := tree.groups.map (normaliseGroup tree.head.id) }

/-! ## Operations -/

def perform (forest : List SectionTree) : Operation → List SectionTree
  | .createSection id fields => forest ++ [⟨⟨id, fields⟩, []⟩]
  | .createGroup id fields => appendGroup fields.sectionId ⟨⟨id, fields⟩, []⟩ forest
  | .createLayer id group fields =>
      mapGroup group (fun tree =>
        { tree with
          layers := tree.layers ++ [⟨id, group, UInt32.ofNat tree.layers.length, fields⟩] }) forest
  | .replaceSection id fields =>
      mapSection id (fun tree => { tree with head := ⟨id, fields⟩ }) forest
  | .replaceGroup id fields => overwriteGroup id fields forest
  | .replaceLayer id fields => overwriteLayer id fields forest
  | .deleteSection id => forest.filter fun tree => decide (tree.head.id ≠ id)
  | .deleteGroup id => removeGroup id forest
  | .deleteLayer id =>
      mapSiblings id (List.filter fun layer => decide (layer.id ≠ id)) forest
  | .moveLayer id direction _ =>
      mapSiblings id (swap direction fun layer => decide (layer.id = id)) forest

end Forest

end MapCatalog
