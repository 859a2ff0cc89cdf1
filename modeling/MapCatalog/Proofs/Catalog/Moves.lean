import MapCatalog.Proofs.Catalog.InPlace
import MapCatalog.Proofs.Catalog.Listing

/-! # Moves -/

namespace MapCatalog

def Direction.opposite : Direction → Direction
  | .up => .down
  | .down => .up

namespace Catalog

/-! ## Exchanges in a list -/

section Lists

variable {α : Type}

theorem exchange_append (before : List α) (a b : α) (after : List α) :
    exchange before.length (before ++ a :: b :: after) = before ++ b :: a :: after := by
  induction before with
  | nil =>
      rfl
  | cons first before ih =>
      rw [List.length_cons, List.cons_append, exchange, ih, List.cons_append]

/-- Exchanging the same positions again restores a list. -/
theorem exchange_exchange (position : Nat) (xs : List α) :
    exchange position (exchange position xs) = xs := by
  induction xs generalizing position with
  | nil =>
      cases position <;> rfl
  | cons a rest ih =>
      cases position with
      | zero =>
          cases rest <;> rfl
      | succ position =>
          rw [exchange, exchange, ih]

theorem exists_split (xs : List α) {position : Nat} (h : position + 1 < xs.length) :
    ∃ before a b after, xs = before ++ a :: b :: after ∧ before.length = position := by
  refine ⟨xs.take position, xs[position], xs[position + 1], xs.drop (position + 2), ?_, ?_⟩
  · rw [← List.drop_eq_getElem_cons h, ← List.drop_eq_getElem_cons (by omega),
      List.take_append_drop]
  · rw [List.length_take]
    omega

/-- Two elements that are no neighbours of each other, or neighbours in the other order, stay in order
when neighbours are exchanged. -/
theorem pair_sublist_exchange {before after : List α} {a b first second : α}
    (hpair : ¬ (first = a ∧ second = b))
    (h : [first, second].Sublist (before ++ a :: b :: after)) :
    [first, second].Sublist (before ++ b :: a :: after) := by
  obtain ⟨front, back, hsplit, hfront, hback⟩ := List.sublist_append_iff.1 h
  rw [hsplit]
  refine hfront.append ?_
  -- The part behind does not take both neighbours, so it is found again without one of them.
  cases hback with
  | cons _ hback =>
      exact hback.trans ((List.sublist_cons_self a after).cons_cons b)
  | cons_cons _ hback =>
      cases hback with
      | cons _ hback =>
          exact (hback.cons_cons a).cons b
      | cons_cons _ hback =>
          cases front with
          | nil =>
              simp only [List.nil_append, List.cons.injEq] at hsplit
              exact absurd ⟨hsplit.1, hsplit.2.1⟩ hpair
          | cons x front =>
              have hlength := congrArg List.length hsplit
              simp only [List.length_cons, List.length_append, List.length_nil] at hlength
              omega

end Lists

/-! ## Exchanges with a neighbour -/

/-- A layer and its neighbour in a direction change places, and the others stay where they are. -/
inductive Exchanged (id neighbour : LayerId) : Direction → List LayerId → List LayerId → Prop where
  | up (before after : List LayerId) :
      Exchanged id neighbour .up (before ++ neighbour :: id :: after)
        (before ++ id :: neighbour :: after)
  | down (before after : List LayerId) :
      Exchanged id neighbour .down (before ++ id :: neighbour :: after)
        (before ++ neighbour :: id :: after)

variable {id : LayerId} {ids : List LayerId} {direction : Direction} {position neighbour : Nat}

theorem Exchanged.sublist_iff {beside : LayerId} {next : List LayerId}
    (h : Exchanged id beside direction ids next) {first second : LayerId}
    (hpair : ¬ (first = id ∧ second = beside)) (hrepair : ¬ (first = beside ∧ second = id)) :
    [first, second].Sublist ids ↔ [first, second].Sublist next := by
  cases h with
  | up before after => exact ⟨pair_sublist_exchange hrepair, pair_sublist_exchange hpair⟩
  | down before after => exact ⟨pair_sublist_exchange hpair, pair_sublist_exchange hrepair⟩

/-- Where a layer has a neighbour, exchanging their positions exchanges the two and puts the layer at
the position of its neighbour. -/
theorem exchanged_of_neighbour (hat : ids[position]? = some id)
    (hneighbour : neighbour? direction position ids.length = some neighbour) :
    (∃ beside, Exchanged id beside direction ids (exchange (min position neighbour) ids)) ∧
      (exchange (min position neighbour) ids)[neighbour]? = some id := by
  obtain ⟨hlt, -⟩ := List.getElem?_eq_some_iff.1 hat
  cases direction with
  | up =>
      obtain ⟨hpos, rfl⟩ : 0 < position ∧ position - 1 = neighbour := by
        simpa [neighbour?] using hneighbour
      obtain ⟨before, a, b, after, rfl, hlength⟩ :=
        exists_split ids (show position - 1 + 1 < ids.length by omega)
      obtain rfl : position = before.length + 1 := by omega
      obtain rfl : b = id := by simpa using hat
      have hmin : min (before.length + 1) (before.length + 1 - 1) = before.length := by omega
      rw [hmin, exchange_append]
      exact ⟨⟨a, .up before after⟩, by simp⟩
  | down =>
      obtain ⟨hroom, rfl⟩ : position + 1 < ids.length ∧ position + 1 = neighbour := by
        simpa [neighbour?] using hneighbour
      obtain ⟨before, a, b, after, rfl, rfl⟩ := exists_split _ hroom
      obtain rfl : a = id := by simpa using hat
      have hmin : min before.length (before.length + 1) = before.length := by omega
      rw [hmin, exchange_append]
      exact ⟨⟨b, .down before after⟩, by simp⟩

/-- The neighbour of the neighbour on the way back is where the layer came from. -/
theorem neighbour?_opposite {length : Nat} (hlt : position < length)
    (h : neighbour? direction position length = some neighbour) :
    neighbour? direction.opposite neighbour length = some position := by
  cases direction with
  | up =>
      obtain ⟨hpos, rfl⟩ : 0 < position ∧ position - 1 = neighbour := by
        simpa [neighbour?] using h
      have hback : position - 1 + 1 = position := by omega
      simp [neighbour?, Direction.opposite, hback, hlt]
  | down =>
      obtain ⟨hroom, rfl⟩ : position + 1 < length ∧ position + 1 = neighbour := by
        simpa [neighbour?] using h
      simp [neighbour?, Direction.opposite]

def HasNeighbour : Direction → (position length : Nat) → Prop
  | .up, position, _ => 0 < position
  | .down, position, length => position + 1 < length

theorem neighbour?_eq_none_iff {length : Nat} :
    neighbour? direction position length = none ↔ ¬ HasNeighbour direction position length := by
  cases direction <;> simp [neighbour?, HasNeighbour]

def Beside : Direction → (source target : UInt32) → Prop
  | .up, source, target => target.toNat + 1 = source.toNat
  | .down, source, target => source.toNat + 1 = target.toNat

theorem beside_place {length : Nat} (hsize : length ≤ 2 ^ 32) (hlt : position < length)
    (h : neighbour? direction position length = some neighbour) :
    Beside direction (place position) (place neighbour) := by
  cases direction with
  | up =>
      obtain ⟨hpos, rfl⟩ : 0 < position ∧ position - 1 = neighbour := by
        simpa [neighbour?] using h
      rw [Beside, toNat_place (by omega), toNat_place (by omega)]
      omega
  | down =>
      obtain ⟨hroom, rfl⟩ : position + 1 < length ∧ position + 1 = neighbour := by
        simpa [neighbour?] using h
      rw [Beside, toNat_place (by omega), toNat_place (by omega)]

/-! ## Moves in a catalogue -/

variable {c : Catalog} {group : GroupId} {entry : GroupEntry}

def withOrder (c : Catalog) (group : GroupId) (entry : GroupEntry) (layers : List LayerId) : Catalog :=
  { c with
    groups := c.groups.insert group { entry with layers := layers, revision := entry.revision + 1 } }

theorem get?_withOrder (c : Catalog) (group : GroupId) (entry : GroupEntry) (layers : List LayerId) :
    (c.withOrder group entry layers).groups.get? group =
      some { entry with layers := layers, revision := entry.revision + 1 } :=
  Table.get?_insert_self _ _ _

theorem layerIds_withOrder (c : Catalog) (group : GroupId) (entry : GroupEntry)
    (layers : List LayerId) : (c.withOrder group entry layers).layerIds group = layers :=
  layerIds_of_get? (get?_withOrder c group entry layers)

namespace WellFormed

/-- The outcome of a move from a position, for a caller who expects the current revision or none. -/
theorem moveLayer_from (h : WellFormed c) (hentry : c.groups.get? group = some entry)
    (hat : entry.layers[position]? = some id) (direction : Direction) (expected : Option Nat)
    (hexpected : expected.getD entry.revision = entry.revision) :
    c.moveLayer id direction expected =
      match neighbour? direction position entry.layers.length with
      | none => .ok (.unchanged (place position) entry.revision, c)
      | some neighbour =>
          .ok (.moved (place position) (place neighbour) (entry.revision + 1),
            c.withOrder group entry (exchange (min position neighbour) entry.layers)) := by
  have hlist := layerIds_of_get? hentry
  have hposition := position?_of_getElem? (hlist ▸ h.layers.nodup group) hat
  obtain ⟨layer, hlayer, rfl⟩ := h.layer_of_mem (hlist ▸ List.mem_of_getElem? hat)
  simp only [Catalog.moveLayer, hlayer, hentry, hexpected, ne_eq, not_true_eq_false, if_false,
    hposition]
  rfl

theorem work_moveLayer (h : WellFormed c) {expected : Option Nat} {outcome : Moved} {next : Catalog}
    (hok : c.moveLayer id direction expected = .ok (outcome, next)) :
    (Operation.moveLayer id direction expected).work.run c = .ok (.moved outcome) next := by
  rw [h.run_work, Catalog.perform, hok]
  rfl

theorem order_read (h : WellFormed c) (hat : (c.layerIds group)[position]? = some id) :
    (c.layer? id).map LayerRecord.order = some (place position) := by
  rw [h.layer?_of_getElem? hat, Option.map_some]

end WellFormed

/-- What a move of the layer at a position of a group does, and what it reports. -/
structure MovesAsTold (c : Catalog) (group : GroupId) (id : LayerId) (position : Nat)
    (direction : Direction) (outcome : Moved) (next : Catalog) : Prop where
  changed_iff : outcome.changed = true ↔
    HasNeighbour direction position (c.layerIds group).length
  /-- A layer that moves changes places with its neighbour; every other pair keeps its order. -/
  exchanged : outcome.changed = true → ∃ beside,
    Exchanged id beside direction (c.layerIds group) (next.layerIds group) ∧
      ∀ first second, ¬ (first = id ∧ second = beside) → ¬ (first = beside ∧ second = id) →
        ([first, second].Sublist (c.layerIds group) ↔ [first, second].Sublist (next.layerIds group))
  /-- The move back changes the list back. -/
  undone : outcome.changed = true → ∃ back last,
    (Operation.moveLayer id direction.opposite none).work.run next = .ok (.moved back) last ∧
      back.changed = true ∧ last.layerIds group = c.layerIds group
  unchanged : outcome.changed = false → next = c
  /-- Nothing but the list and the revision of the group ever changes. -/
  rest : next.order = c.order ∧ next.sections = c.sections ∧ next.layers = c.layers ∧
    (next.groups.get? group).map GroupEntry.fields = (c.groups.get? group).map GroupEntry.fields ∧
    ∀ other, other ≠ group → next.groups.get? other = c.groups.get? other
  source_read : (c.layer? id).map LayerRecord.order = some outcome.source
  target_read : (next.layer? id).map LayerRecord.order = some outcome.target
  beside : outcome.changed = true → Beside direction outcome.source outcome.target
  revision_read : next.revision? group = some outcome.revision
  /-- A caller who expects the current revision gets what a caller gets who expects none. -/
  expected : ∀ revision, c.revision? group = some revision →
    (Operation.moveLayer id direction (some revision)).work.run c =
      (Operation.moveLayer id direction none).work.run c

namespace WellFormed

theorem work_expected (h : WellFormed c) (hentry : c.groups.get? group = some entry)
    (hat : entry.layers[position]? = some id) (direction : Direction) {revision : Nat}
    (hrevision : c.revision? group = some revision) :
    (Operation.moveLayer id direction (some revision)).work.run c =
      (Operation.moveLayer id direction none).work.run c := by
  have hsame : revision = entry.revision := by
    rw [revision?, hentry] at hrevision
    exact (Option.some.inj hrevision).symm
  have htold := h.moveLayer_from hentry hat direction (some revision) hsame
  have huntold := h.moveLayer_from hentry hat direction none rfl
  rw [h.run_work, h.run_work, Catalog.perform, Catalog.perform, htold, huntold]

theorem movesAsTold_of_edge (h : WellFormed c) (hentry : c.groups.get? group = some entry)
    (hat : entry.layers[position]? = some id)
    (hedge : neighbour? direction position entry.layers.length = none) :
    MovesAsTold c group id position direction (.unchanged (place position) entry.revision) c := by
  have hlist := layerIds_of_get? hentry
  have hread := h.order_read (hlist ▸ hat)
  have hnot := neighbour?_eq_none_iff.1 hedge
  rw [← hlist] at hnot
  exact
    { changed_iff := iff_of_false Bool.false_ne_true hnot
      exchanged := nofun
      undone := nofun
      unchanged := fun _ => rfl
      rest := ⟨rfl, rfl, rfl, rfl, fun _ _ => rfl⟩
      source_read := hread
      target_read := hread
      beside := nofun
      revision_read := by rw [revision?, hentry]; rfl
      expected := fun _ hrevision => h.work_expected hentry hat direction hrevision }

theorem movesAsTold_of_neighbour (h : WellFormed c) (hentry : c.groups.get? group = some entry)
    (hsize : entry.layers.length ≤ 2 ^ 32) (hat : entry.layers[position]? = some id)
    (hneighbour : neighbour? direction position entry.layers.length = some neighbour) :
    MovesAsTold c group id position direction
      (.moved (place position) (place neighbour) (entry.revision + 1))
      (c.withOrder group entry (exchange (min position neighbour) entry.layers)) := by
  have hlist := layerIds_of_get? hentry
  have hmove := h.moveLayer_from hentry hat direction none rfl
  rw [hneighbour] at hmove
  have hnext := h.moveLayer hmove
  obtain ⟨⟨beside, hexchanged⟩, hplaced⟩ := exchanged_of_neighbour hat hneighbour
  obtain ⟨hlt, -⟩ := List.getElem?_eq_some_iff.1 hat
  have hafter := c.get?_withOrder group entry (exchange (min position neighbour) entry.layers)
  have hnow := c.layerIds_withOrder group entry (exchange (min position neighbour) entry.layers)
  have hlength : (exchange (min position neighbour) entry.layers).length = entry.layers.length :=
    (exchange_perm _ _).length_eq
  -- The way back starts at the neighbour's position and exchanges the same two positions again.
  have hback := hnext.moveLayer_from hafter hplaced direction.opposite none rfl
  dsimp only at hback
  rw [hlength, neighbour?_opposite hlt hneighbour] at hback
  dsimp only at hback
  rw [Nat.min_comm neighbour, exchange_exchange] at hback
  have hneighbours : HasNeighbour direction position entry.layers.length := by
    by_contra hnone
    rw [neighbour?_eq_none_iff.2 hnone] at hneighbour
    cases hneighbour
  exact
    { changed_iff := iff_of_true rfl (hlist ▸ hneighbours)
      exchanged := by
        rw [hlist, hnow]
        exact fun _ => ⟨beside, hexchanged, fun _ _ => hexchanged.sublist_iff⟩
      undone := by
        refine fun _ => ⟨_, _, hnext.work_moveLayer hback, rfl, ?_⟩
        rw [hlist, layerIds_withOrder]
      unchanged := nofun
      rest := by
        refine ⟨rfl, rfl, rfl, by rw [hafter, hentry]; rfl, fun other hother => ?_⟩
        rw [withOrder, Table.get?_insert, if_neg (Ne.symm hother)]
      source_read := h.order_read (hlist ▸ hat)
      target_read := by
        rw [← hnow] at hplaced
        exact hnext.order_read hplaced
      beside := fun _ => beside_place hsize hlt hneighbour
      revision_read := by rw [revision?, hafter]; rfl
      expected := fun _ hrevision => h.work_expected hentry hat direction hrevision }

end WellFormed

/-- Every move of a layer of a group answers, and does what it reports: wherever a run of a store
arrives, for every position and both directions.  The places of the group suffice. -/
theorem moves_as_told (h : Reachable c) (hat : (c.layerIds group)[position]? = some id)
    (hsize : (c.layerIds group).length ≤ 2 ^ 32) (direction : Direction) :
    ∃ outcome next,
      (Operation.moveLayer id direction none).work.run c = .ok (.moved outcome) next ∧
        MovesAsTold c group id position direction outcome next := by
  have hwell := h.wellFormed
  obtain ⟨entry, hentry, -⟩ := mem_layerIds_iff.1 (List.mem_of_getElem? hat)
  rw [layerIds_of_get? hentry] at hat hsize
  have hmove := hwell.moveLayer_from hentry hat direction none rfl
  cases hneighbour : neighbour? direction position entry.layers.length with
  | none =>
      rw [hneighbour] at hmove
      exact ⟨_, _, hwell.work_moveLayer hmove, hwell.movesAsTold_of_edge hentry hat hneighbour⟩
  | some neighbour =>
      rw [hneighbour] at hmove
      exact ⟨_, _, hwell.work_moveLayer hmove,
        hwell.movesAsTold_of_neighbour hentry hsize hat hneighbour⟩

theorem sample_moves_as_told :
    Reachable (empty.run sample) ∧
      ((empty.run sample).layerIds ⟨3⟩)[1]? = some ⟨4⟩ ∧
      ((empty.run sample).layerIds ⟨3⟩).length ≤ 2 ^ 32 ∧
      ∃ outcome next,
        (Operation.moveLayer ⟨4⟩ .up none).work.run (empty.run sample) = .ok (.moved outcome) next ∧
          MovesAsTold (empty.run sample) ⟨3⟩ ⟨4⟩ 1 .up outcome next := by
  have hat : ((empty.run sample).layerIds ⟨3⟩)[1]? = some ⟨4⟩ := by decide
  have hsize : ((empty.run sample).layerIds ⟨3⟩).length ≤ 2 ^ 32 := by decide
  exact ⟨reachable_sample, hat, hsize, moves_as_told reachable_sample hat hsize .up⟩

end Catalog

end MapCatalog
