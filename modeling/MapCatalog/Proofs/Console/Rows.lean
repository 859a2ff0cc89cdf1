import Mathlib.Algebra.Ring.Nat
import Mathlib.Tactic.Choose
import MapCatalog.Console.Overview

/-! # The rows of the overview

A place is a list of positions: of a section, of a group in it and of a layer in that.  The rows follow the places in
lexicographic order, which is the order of the trees.
-/

namespace MapCatalog

namespace Overview

/-! ## What is shown -/

/-- What the overview says of a source: its kind and location, or a dash where there is neither. -/
inductive SourceText (source : Source) : String → Prop where
  | nothing (kind : source.kind = "") (location : source.location = "") : SourceText source "-"
  | named (h : source.kind ≠ "" ∨ source.location ≠ "") :
      SourceText source (source.kind ++ ": " ++ source.location)

/--
The cells that show a place of the trees.  Every layer is shown, a group if it has no layers and a section
if it has no groups.
-/
inductive Shows (trees : List SectionTree) : List Nat → List String → Prop where
  | layer {i j k : Nat} {tree : SectionTree} {group : GroupTree} {layer : LayerRecord} {source : String}
      (tree_at : trees[i]? = some tree) (group_at : tree.groups[j]? = some group)
      (layer_at : group.layers[k]? = some layer) (text : SourceText layer.fields.source source) :
      Shows trees [i, j, k]
        [tree.head.fields.name, group.group.fields.name, layer.fields.name,
          layer.fields.visualType.name, toString layer.order.toNat, source]
  | bareGroup {i j : Nat} {tree : SectionTree} {group : GroupTree} (tree_at : trees[i]? = some tree)
      (group_at : tree.groups[j]? = some group) (bare : group.layers = []) :
      Shows trees [i, j] [tree.head.fields.name, group.group.fields.name, "-", "-", "-", "-"]
  | bareSection {i : Nat} {tree : SectionTree} (tree_at : trees[i]? = some tree)
      (bare : tree.groups = []) :
      Shows trees [i] [tree.head.fields.name, "-", "-", "-", "-", "-"]

/-- The rows of a table, each with its place, are what is shown, in the order of the places. -/
def Arranges (shows : List Nat → List String → Prop) (table : List (List String)) : Prop :=
  ∃ placed : List (List Nat × List String), placed.map Prod.snd = table ∧
    (placed.Pairwise fun row later => row.1 < later.1) ∧
    ∀ place cells, (place, cells) ∈ placed ↔ shows place cells

/-! ## Tables from tables -/

/-- What is shown of an element of a list, at a place that begins with its position. -/
inductive Below {α : Type} (xs : List α) (shows : α → List Nat → List String → Prop) :
    List Nat → List String → Prop where
  | intro {position : Nat} {x : α} {place : List Nat} {cells : List String}
      (x_at : xs[position]? = some x) (shown : shows x place cells) :
      Below xs shows (position :: place) cells

theorem Arranges.congr {shows others : List Nat → List String → Prop} {table : List (List String)}
    (h : Arranges shows table) (hiff : ∀ place cells, shows place cells ↔ others place cells) :
    Arranges others table := by
  obtain ⟨placed, htable, horder, hmem⟩ := h
  exact ⟨placed, htable, horder, fun place cells => (hmem place cells).trans (hiff place cells)⟩

theorem arranges_single (cells : List String) :
    Arranges (fun place shown => place = [] ∧ shown = cells) [cells] :=
  ⟨[([], cells)], rfl, List.pairwise_singleton _ _, fun place shown => by simp⟩

theorem pairwise_zipIdx {α : Type} (xs : List α) :
    xs.zipIdx.Pairwise fun entry later => entry.2 < later.2 := by
  have hpositions : (xs.zipIdx.map Prod.snd).Pairwise (· < ·) := by
    rw [List.zipIdx_map_snd]
    exact List.pairwise_lt_range'
  exact List.pairwise_map.1 hpositions

/-- Tables of the elements, one below the other, arrange what is shown of all of them. -/
theorem arranges_flatMap {α : Type} (xs : List α) {shows : α → List Nat → List String → Prop}
    {rows : α → List (List String)} (h : ∀ x, Arranges (shows x) (rows x)) :
    Arranges (Below xs shows) (xs.flatMap rows) := by
  choose placed hrows horder hmem using h
  refine ⟨xs.zipIdx.flatMap fun entry =>
    (placed entry.1).map fun row => (entry.2 :: row.1, row.2), ?_, ?_, ?_⟩
  · calc (xs.zipIdx.flatMap fun entry =>
          (placed entry.1).map fun row => (entry.2 :: row.1, row.2)).map Prod.snd
        = xs.zipIdx.flatMap fun entry => rows entry.1 := by
          simp only [List.map_flatMap, List.map_map, ← hrows]
          rfl
      _ = (xs.zipIdx.map Prod.fst).flatMap rows := by rw [List.flatMap_map]
      _ = xs.flatMap rows := by rw [List.zipIdx_map_fst]
  · rw [List.pairwise_flatMap]
    refine ⟨fun entry _ => ?_, (pairwise_zipIdx xs).imp fun hlt => ?_⟩
    · rw [List.pairwise_map]
      exact (horder entry.1).imp fun hrow => List.cons_lt_cons_iff.2 (.inr ⟨rfl, hrow⟩)
    · intro row hrow later hlater
      obtain ⟨_, -, rfl⟩ := List.mem_map.1 hrow
      obtain ⟨_, -, rfl⟩ := List.mem_map.1 hlater
      exact List.cons_lt_cons_iff.2 (.inl hlt)
  · intro place cells
    simp only [List.mem_flatMap, List.mem_map, Prod.mk.injEq]
    constructor
    · rintro ⟨⟨x, position⟩, hx, ⟨inner, shown⟩, hrow, rfl, rfl⟩
      exact .intro (List.mem_zipIdx_iff_getElem?.1 hx) ((hmem x inner shown).1 hrow)
    · rintro ⟨hx, hshown⟩
      exact ⟨(_, _), List.mem_zipIdx_iff_getElem?.2 hx, (_, _), (hmem _ _ _).2 hshown, rfl, rfl⟩

/-- What is shown of a record with a list of others below it: the others, or itself if there are none. -/
inductive OwnOrBelow {α : Type} (own : List String) (xs : List α)
    (shows : α → List Nat → List String → Prop) : List Nat → List String → Prop where
  | own (bare : xs = []) : OwnOrBelow own xs shows [] own
  | below {place : List Nat} {cells : List String} (h : Below xs shows place cells) :
      OwnOrBelow own xs shows place cells

theorem arranges_ownOrBelow {α : Type} (own : List String) (xs : List α)
    {shows : α → List Nat → List String → Prop} {rows : α → List (List String)}
    (h : ∀ x, Arranges (shows x) (rows x)) :
    Arranges (OwnOrBelow own xs shows) (if xs.isEmpty then [own] else xs.flatMap rows) := by
  cases xs with
  | nil =>
      refine (arranges_single own).congr fun place cells => ⟨?_, ?_⟩
      · rintro ⟨rfl, rfl⟩
        exact .own rfl
      · rintro (- | ⟨hx, -⟩)
        · exact ⟨rfl, rfl⟩
        · cases hx
  | cons x xs =>
      refine (arranges_flatMap (x :: xs) h).congr fun place cells => ⟨.below, ?_⟩
      rintro (hbare | hbelow)
      · cases hbare
      · exact hbelow

/-! ## The tables of each tier -/

def layerShows (parent group : String) (layer : LayerRecord) (place : List Nat)
    (cells : List String) : Prop :=
  place = [] ∧ cells = (layerRow parent group layer).cells

def groupShows (parent : String) (tree : GroupTree) : List Nat → List String → Prop :=
  OwnOrBelow (Row.ofGroup parent tree.group.fields.name).cells tree.layers
    (layerShows parent tree.group.fields.name)

def sectionShows (tree : SectionTree) : List Nat → List String → Prop :=
  OwnOrBelow (Row.ofSection tree.head.fields.name).cells tree.groups
    (groupShows tree.head.fields.name)

theorem arranges_groupRows (parent : String) (tree : GroupTree) :
    Arranges (groupShows parent tree) ((groupRows parent tree).map Row.cells) := by
  rw [groupRows, apply_ite (List.map Row.cells), List.map_map, List.map_eq_flatMap (l := tree.layers)]
  exact arranges_ownOrBelow _ _ fun layer => arranges_single _

theorem arranges_sectionRows (tree : SectionTree) :
    Arranges (sectionShows tree) ((sectionRows tree).map Row.cells) := by
  rw [sectionRows, apply_ite (List.map Row.cells), List.map_flatMap]
  exact arranges_ownOrBelow _ _ fun group => arranges_groupRows _ group

theorem arranges_rows (trees : List SectionTree) :
    Arranges (Below trees sectionShows) ((rows trees).map Row.cells) := by
  rw [rows, List.map_flatMap]
  exact arranges_flatMap trees arranges_sectionRows

/-! ## Everything has its row -/

theorem sourceText_iff {source : Source} {text : String} :
    SourceText source text ↔ text = sourceText source := by
  have hnothing : (source.kind.isEmpty && source.location.isEmpty) = true ↔
      source.kind = "" ∧ source.location = "" := by simp
  unfold sourceText
  constructor
  · rintro (⟨hkind, hlocation⟩ | h)
    · rw [if_pos (hnothing.2 ⟨hkind, hlocation⟩), dash]
    · rw [if_neg fun hempty => ?_]
      exact h.elim (· (hnothing.1 hempty).1) (· (hnothing.1 hempty).2)
  · rintro rfl
    split
    next hempty => exact .nothing (hnothing.1 hempty).1 (hnothing.1 hempty).2
    next hempty => exact .named (not_and_or.1 (mt hnothing.2 hempty))

theorem shows_iff {trees : List SectionTree} {place : List Nat} {cells : List String} :
    Shows trees place cells ↔ Below trees sectionShows place cells := by
  constructor
  · intro h
    cases h with
    | layer htree hgroup hlayer htext =>
        rw [sourceText_iff.1 htext]
        exact .intro htree (.below (.intro hgroup (.below (.intro hlayer ⟨rfl, rfl⟩))))
    | bareGroup htree hgroup hbare => exact .intro htree (.below (.intro hgroup (.own hbare)))
    | bareSection htree hbare => exact .intro htree (.own hbare)
  · rintro ⟨htree, hsection⟩
    rcases hsection with hbare | ⟨hgroup, hgroupShows⟩
    · exact .bareSection htree hbare
    · rcases hgroupShows with hbare | ⟨hlayer, rfl, rfl⟩
      · exact .bareGroup htree hgroup hbare
      · exact .layer htree hgroup hlayer (sourceText_iff.2 rfl)

/-! ## Counting -/

theorem length_groupRows (parent : String) (tree : GroupTree) :
    (groupRows parent tree).length = tree.layers.length + if tree.layers.isEmpty then 1 else 0 := by
  rw [groupRows]
  cases tree.layers <;> simp

theorem length_flatMap_groupRows (parent : String) (groups : List GroupTree) :
    (groups.flatMap (groupRows parent)).length =
      (groups.map fun group => group.layers.length).sum +
        groups.countP fun group => group.layers.isEmpty := by
  induction groups with
  | nil =>
      rfl
  | cons group groups ih =>
      simp only [List.flatMap_cons, List.length_append, length_groupRows, ih, List.map_cons,
        List.sum_cons, List.countP_cons]
      omega

theorem length_sectionRows (tree : SectionTree) :
    (sectionRows tree).length =
      (tree.groups.map fun group => group.layers.length).sum +
        (tree.groups.countP fun group => group.layers.isEmpty) +
        if tree.groups.isEmpty then 1 else 0 := by
  rw [sectionRows, ← length_flatMap_groupRows tree.head.fields.name]
  cases tree.groups <;> simp

theorem length_rows (trees : List SectionTree) :
    (rows trees).length =
      (trees.map fun tree => (tree.groups.map fun group => group.layers.length).sum).sum +
        (trees.map fun tree => tree.groups.countP fun group => group.layers.isEmpty).sum +
        trees.countP fun tree => tree.groups.isEmpty := by
  induction trees with
  | nil =>
      rfl
  | cons tree trees ih =>
      rw [rows] at ih ⊢
      simp only [List.flatMap_cons, List.length_append, length_sectionRows, ih, List.map_cons,
        List.sum_cons, List.countP_cons]
      omega

/-- The groups are counted section by section, and the layers group by group. -/
theorem totals_eq (trees : List SectionTree) :
    totals trees =
      { sections := trees.length
        groups := (trees.map fun tree => tree.groups.length).sum
        layers := (trees.map fun tree =>
          (tree.groups.map fun group => group.layers.length).sum).sum } := by
  simp only [totals, List.flatMap_assoc, List.length_flatMap]

/--
The overview has a row for every layer, every group without layers and every section without groups, in the
order of the trees, and no others; and what it prints below the rows are the numbers of sections, groups and
layers.
-/
theorem rows_show_everything (trees : List SectionTree) :
    let cells := (rows trees).map Row.cells
    let groups := (trees.map fun tree => tree.groups.length).sum
    let layers := (trees.map fun tree => (tree.groups.map fun group => group.layers.length).sum).sum
    Arranges (Shows trees) cells ∧
    cells.length = layers +
      (trees.map fun tree => tree.groups.countP fun group => group.layers.isEmpty).sum +
      (trees.countP fun tree => tree.groups.isEmpty) ∧
    text trees =
      if trees = [] then "No layer sections.\n"
      else Grid.draw width columns cells ++ "\n" ++
        (toString trees.length ++ " section(s), " ++ toString groups ++ " group(s), " ++
          toString layers ++ " layer(s)") ++ "\n" := by
  intro cells groups layers
  refine ⟨?_, ?_, ?_⟩
  · exact (arranges_rows trees).congr fun place cells => shows_iff.symm
  · rw [List.length_map, length_rows]
  · simp only [text, List.isEmpty_iff, totals_eq, totalsLine, table, cells, groups, layers]

def sampleMixed : List SectionTree :=
  let group (name : String) (layers : List LayerRecord) : GroupTree :=
    ⟨⟨default, { (default : GroupFields) with name := name }⟩, layers⟩
  let layer (name : String) (order : UInt32) : LayerRecord :=
    ⟨default, default, order, .named name .line (.remote "vector" "roads")⟩
  [⟨⟨default, ⟨"Base"⟩⟩, [group "Water" [], group "Roads" [layer "Streets" 0, layer "Paths" 1]]⟩,
   ⟨⟨default, ⟨"Plans"⟩⟩, []⟩]

example : (rows sampleMixed).map Row.cells =
    [["Base", "Water", "-", "-", "-", "-"],
     ["Base", "Roads", "Streets", "line", "0", "vector: roads"],
     ["Base", "Roads", "Paths", "line", "1", "vector: roads"],
     ["Plans", "-", "-", "-", "-", "-"]] := by
  decide

end Overview

end MapCatalog
