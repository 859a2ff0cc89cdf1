import MapCatalog.Catalog.InPlace
import MapCatalog.Proofs.Catalog.Revision

/-! # Failing operations

What is wrong with an operation is looked for before anything is written.  The failures that lie behind a write or a
look-up are never reached, because the records that they look for are linked.
-/

namespace MapCatalog

/-! ## What work comes to -/

namespace Catalog

/-- The outcome of an edit, when the catalogue stays as it is in case of failure. -/
def Edit.settle {α : Type} (edit : Edit α) (c : Catalog) : EStateM.Result CatalogError Catalog α :=
  match edit with
  | .error e => .error e c
  | .ok (value, next) => .ok value next

def withFields (c : Catalog) (id : LayerId) (fields : LayerFields) : Catalog :=
  { c with layers := c.layers.modify id fun entry => { entry with fields := fields } }

/-- A stored layer is found again after its fields were written. -/
theorem WellFormed.reread {c : Catalog} (h : WellFormed c) {id : LayerId} {entry : LayerEntry}
    (hentry : c.layers.get? id = some entry) (fields : LayerFields) :
    ∃ layer, (c.withFields id fields).layer? id = some layer := by
  obtain ⟨group, position, hgroup, hposition⟩ := h.position_of_layer hentry
  refine ⟨⟨id, entry.group, place position, fields⟩, ?_⟩
  simp [withFields, Table.modify_of_get? hentry, layer?, layerAt, hgroup, hposition]

end Catalog

namespace Work

variable {α β : Type} (c : Catalog)

theorem run_bind (first : Work α) (next : α → Work β) :
    (first >>= next).run c =
      match first.run c with
      | .ok value c => (next value).run c
      | .error e c => .error e c := by
  change EStateM.bind first next c = _
  unfold EStateM.bind EStateM.run
  cases first c <;> rfl

theorem run_pure (value : α) : (pure value : Work α).run c = .ok value c :=
  rfl

theorem run_check (verdict : Except RecordError Unit) :
    (check verdict).run c =
      match verdict with
      | .error e => .error (.invalid e) c
      | .ok _ => .ok () c := by
  cases verdict <;> rfl

theorem run_need (read : Catalog → Option α) (absent : CatalogError) :
    (need read absent).run c =
      match read c with
      | none => .error absent c
      | some found => .ok found c := by
  have hget : (get : Work Catalog).run c = .ok c c := rfl
  simp only [need, run_bind, hget]
  cases read c <;> rfl

theorem run_onSections (change : Table SectionId SectionEntry → Table SectionId SectionEntry) :
    (onSections change).run c = .ok () { c with sections := change c.sections } :=
  rfl

theorem run_onGroups (change : Table GroupId GroupEntry → Table GroupId GroupEntry) :
    (onGroups change).run c = .ok () { c with groups := change c.groups } :=
  rfl

theorem run_onLayers (change : Table LayerId LayerEntry → Table LayerId LayerEntry) :
    (onLayers change).run c = .ok () { c with layers := change c.layers } :=
  rfl

theorem run_onOrder (change : List SectionId → List SectionId) :
    (onOrder change).run c = .ok () { c with order := change c.order } :=
  rfl

theorem run_modifyGet (change : Catalog → α × Catalog) :
    (modifyGet change : Work α).run c = .ok (change c).1 (change c).2 :=
  rfl

theorem run_map (f : α → β) (work : Work α) :
    (f <$> work).run c =
      match work.run c with
      | .ok value c => .ok (f value) c
      | .error e c => .error e c := by
  change EStateM.map f work c = _
  unfold EStateM.map EStateM.run
  cases work c <;> rfl

/-! ### Creation -/

theorem run_createSection (id : SectionId) (fields : SectionFields) :
    (createSection id fields).run c = (c.createSection id fields).settle c := by
  simp only [createSection, run_bind, run_check, run_onSections, run_onOrder, run_pure,
    Catalog.createSection]
  cases fields.validate <;> rfl

theorem run_createGroup (id : GroupId) (fields : GroupFields) :
    (createGroup id fields).run c = (c.createGroup id fields).settle c := by
  simp only [createGroup, run_bind, run_check, run_need, run_onSections, run_onGroups, run_pure,
    Catalog.createGroup]
  cases fields.validate with
  | error e =>
      rfl
  | ok _ =>
      dsimp only
      cases hparent : c.sections.get? fields.sectionId with
      | none =>
          rfl
      | some parent =>
          simp only [Catalog.Edit.settle, Table.modify_of_get? hparent]

theorem run_createLayer (id : LayerId) (group : GroupId) (fields : LayerFields) :
    (createLayer id group fields).run c = (c.createLayer id group fields).settle c := by
  simp only [createLayer, run_bind, run_check, run_need, run_onGroups, run_onLayers, run_pure,
    Catalog.createLayer]
  cases fields.validate with
  | error e =>
      rfl
  | ok _ =>
      dsimp only
      cases hparent : c.groups.get? group with
      | none =>
          rfl
      | some parent =>
          simp only [Catalog.Edit.settle, Table.modify_of_get? hparent]

/-! ### Full replacement -/

theorem run_replaceSection (id : SectionId) (fields : SectionFields) :
    (replaceSection id fields).run c = (c.replaceSection id fields).settle c := by
  simp only [replaceSection, run_bind, run_check, run_need, run_onSections, run_pure,
    Catalog.replaceSection]
  cases fields.validate with
  | error e =>
      rfl
  | ok _ =>
      dsimp only
      cases hentry : c.sections.get? id with
      | none =>
          rfl
      | some entry =>
          simp only [Catalog.Edit.settle, Table.modify_of_get? hentry]

theorem run_replaceGroup (id : GroupId) (fields : GroupFields) :
    (replaceGroup id fields).run c = (c.replaceGroup id fields).settle c := by
  simp only [replaceGroup, run_bind, run_check, run_need, run_onSections, run_onGroups, run_pure,
    Catalog.replaceGroup]
  cases fields.validate with
  | error e =>
      rfl
  | ok _ =>
      dsimp only
      cases hentry : c.groups.get? id with
      | none =>
          rfl
      | some entry =>
          dsimp only
          cases htarget : c.sections.get? fields.sectionId with
          | none =>
              have habsent : c.sections.contains fields.sectionId = false :=
                c.sections.contains_eq_false_iff.2 htarget
              rw [habsent]
              rfl
          | some target =>
              have hpresent : c.sections.contains fields.sectionId = true :=
                c.sections.contains_iff.2 ⟨target, htarget⟩
              rw [if_pos hpresent, Catalog.Edit.settle]
              simp only [Table.modify_of_get? hentry]

/-- The layer is read back after the write, so this needs that its group lists it. -/
theorem run_replaceLayer (h : Catalog.WellFormed c) (id : LayerId) (fields : LayerFields) :
    (replaceLayer id fields).run c = (c.replaceLayer id fields).settle c := by
  simp only [replaceLayer, run_bind, run_check, run_need, run_onLayers, Catalog.replaceLayer]
  cases fields.validate with
  | error e =>
      rfl
  | ok _ =>
      dsimp only
      cases hentry : c.layers.get? id with
      | none =>
          rfl
      | some entry =>
          obtain ⟨layer, hlayer⟩ := h.reread hentry fields
          rw [Catalog.withFields, Table.modify_of_get? hentry] at hlayer
          simp only [Table.modify_of_get? hentry, hlayer]
          rfl

/-! ### Deletion -/

theorem run_deleteSection (id : SectionId) :
    (deleteSection id).run c = (c.deleteSection id).settle c := by
  simp only [deleteSection, run_bind, run_need, run_onSections, run_onOrder, run_modifyGet, run_pure,
    Catalog.deleteSection]
  cases c.sections.get? id <;> rfl

theorem run_deleteGroup (id : GroupId) :
    (deleteGroup id).run c = (c.deleteGroup id).settle c := by
  simp only [deleteGroup, run_bind, run_need, run_onSections, run_modifyGet, run_pure,
    Catalog.deleteGroup]
  cases c.groups.get? id <;> rfl

theorem run_deleteLayer (id : LayerId) :
    (deleteLayer id).run c = (c.deleteLayer id).settle c := by
  simp only [deleteLayer, run_bind, run_need, run_onGroups, run_onLayers, run_pure,
    Catalog.deleteLayer]
  cases c.layers.get? id <;> rfl

/-! ### Moves -/

theorem run_moveLayer (id : LayerId) (direction : Direction) (expected : Option Nat) :
    (moveLayer id direction expected).run c = (c.moveLayer id direction expected).settle c := by
  simp only [moveLayer, run_bind, run_need, Catalog.moveLayer]
  cases c.layers.get? id with
  | none =>
      rfl
  | some entry =>
      dsimp only
      cases hgroup : c.groups.get? entry.group with
      | none =>
          rfl
      | some group =>
          dsimp only
          by_cases hexpected : expected.getD group.revision = group.revision
          · rw [if_pos hexpected, if_neg (not_not_intro hexpected), run_bind, run_need]
            cases Catalog.position? id group.layers with
            | none =>
                rfl
            | some position =>
                dsimp only
                cases Catalog.neighbour? direction position group.layers.length with
                | none =>
                    rfl
                | some neighbour =>
                    simp only [run_bind, run_onGroups, run_pure, Table.modify_of_get? hgroup,
                      Catalog.Edit.settle]
          · rw [if_neg hexpected, if_pos hexpected]
            rfl

/-! ### Operations -/

theorem run_map_settle {work : Work α} {edit : Catalog.Edit α} (h : work.run c = edit.settle c)
    (wrap : α → Answer) : (wrap <$> work).run c = (edit.as wrap).settle c := by
  rw [run_map, h]
  cases edit <;> rfl

end Work

namespace Catalog

/-- An operation in place comes to what the operation yields, and leaves the catalogue as it is when it
fails, as long as a layer that it replaces is found again. -/
theorem run_work_of_replaces {c : Catalog} {operation : Operation}
    (hreplaces : ∀ id fields, operation = .replaceLayer id fields →
      (Work.replaceLayer id fields).run c = (c.replaceLayer id fields).settle c) :
    operation.work.run c = (c.perform operation).settle c := by
  cases operation with
  | createSection id fields =>
      exact Work.run_map_settle c (Work.run_createSection c id fields) _
  | createGroup id fields =>
      exact Work.run_map_settle c (Work.run_createGroup c id fields) _
  | createLayer id group fields =>
      exact Work.run_map_settle c (Work.run_createLayer c id group fields) _
  | replaceSection id fields =>
      exact Work.run_map_settle c (Work.run_replaceSection c id fields) _
  | replaceGroup id fields =>
      exact Work.run_map_settle c (Work.run_replaceGroup c id fields) _
  | replaceLayer id fields =>
      exact Work.run_map_settle c (hreplaces id fields rfl) _
  | deleteSection id =>
      exact Work.run_map_settle c (Work.run_deleteSection c id) _
  | deleteGroup id =>
      exact Work.run_map_settle c (Work.run_deleteGroup c id) _
  | deleteLayer id =>
      exact Work.run_map_settle c (Work.run_deleteLayer c id) _
  | moveLayer id direction expected =>
      exact Work.run_map_settle c (Work.run_moveLayer c id direction expected) _

theorem WellFormed.run_work {c : Catalog} (h : WellFormed c) (operation : Operation) :
    operation.work.run c = (c.perform operation).settle c :=
  run_work_of_replaces fun id fields _ => Work.run_replaceLayer c h id fields

end Catalog

/-! ## Faults -/

namespace Catalog

def blank? (tier : Tier) (name : String) : Option CatalogError :=
  if Text.allBlank name then some (.invalid (.missing tier "name")) else none

def absent? (c : Catalog) (tier : Tier) (id : Id tier) : Option CatalogError :=
  match c.holds ⟨tier, id⟩ with
  | true => none
  | false => some (.notFound tier id)

def stale? (c : Catalog) (id : LayerId) : Option Nat → Option CatalogError
  | none => none
  | some expected => do
      let group ← c.groupOf? id
      let actual ← c.revision? group
      if expected = actual then none else some (.conflict group expected actual)

/-- What is wrong with an operation: its name, or else the record it is about, or else the parent that
it names, or else the revision that it expects. -/
def fault? (c : Catalog) : Operation → Option CatalogError
  | .createSection _ fields => blank? .sections fields.name
  | .createGroup _ fields =>
      (blank? .groups fields.name).or (c.absent? .sections fields.sectionId)
  | .createLayer _ group fields => (blank? .layers fields.name).or (c.absent? .groups group)
  | .replaceSection id fields => (blank? .sections fields.name).or (c.absent? .sections id)
  | .replaceGroup id fields =>
      (blank? .groups fields.name).or
        ((c.absent? .groups id).or (c.absent? .sections fields.sectionId))
  | .replaceLayer id fields => (blank? .layers fields.name).or (c.absent? .layers id)
  | .deleteSection id => c.absent? .sections id
  | .deleteGroup id => c.absent? .groups id
  | .deleteLayer id => c.absent? .layers id
  | .moveLayer id _ expected => (c.absent? .layers id).or (c.stale? id expected)

/-- Whether an edit fails with a fault, or succeeds where there is none. -/
def Edit.Decided {α : Type} (edit : Edit α) : Option CatalogError → Prop
  | some e => edit = .error e
  | none => ∃ result, edit = .ok result

theorem Edit.Decided.as {α : Type} {edit : Edit α} {fault : Option CatalogError}
    (h : edit.Decided fault) (wrap : α → Answer) : (edit.as wrap).Decided fault := by
  cases fault with
  | some e =>
      have hedit : edit = .error e := h
      rw [hedit]
      rfl
  | none =>
      obtain ⟨⟨value, next⟩, rfl⟩ := h
      exact ⟨_, rfl⟩

section Decided

variable (c : Catalog)

theorem decided_createSection (id : SectionId) (fields : SectionFields) :
    (c.createSection id fields).Decided (c.fault? (.createSection id fields)) := by
  simp only [createSection, SectionFields.validate, fault?, blank?]
  cases Text.allBlank fields.name with
  | true =>
      rfl
  | false =>
      exact ⟨_, rfl⟩

theorem decided_createGroup (id : GroupId) (fields : GroupFields) :
    (c.createGroup id fields).Decided (c.fault? (.createGroup id fields)) := by
  simp only [createGroup, GroupFields.validate, fault?, blank?, absent?, holds, Table.contains]
  cases Text.allBlank fields.name with
  | true =>
      rfl
  | false =>
      cases c.sections.get? fields.sectionId with
      | none =>
          rfl
      | some parent =>
          exact ⟨_, rfl⟩

theorem decided_createLayer (id : LayerId) (group : GroupId) (fields : LayerFields) :
    (c.createLayer id group fields).Decided (c.fault? (.createLayer id group fields)) := by
  simp only [createLayer, LayerFields.validate, fault?, blank?, absent?, holds, Table.contains]
  cases Text.allBlank fields.name with
  | true =>
      rfl
  | false =>
      cases c.groups.get? group with
      | none =>
          rfl
      | some parent =>
          exact ⟨_, rfl⟩

theorem decided_replaceSection (id : SectionId) (fields : SectionFields) :
    (c.replaceSection id fields).Decided (c.fault? (.replaceSection id fields)) := by
  simp only [replaceSection, SectionFields.validate, fault?, blank?, absent?, holds,
    Table.contains]
  cases Text.allBlank fields.name with
  | true =>
      rfl
  | false =>
      cases c.sections.get? id with
      | none =>
          rfl
      | some entry =>
          exact ⟨_, rfl⟩

theorem decided_replaceGroup (id : GroupId) (fields : GroupFields) :
    (c.replaceGroup id fields).Decided (c.fault? (.replaceGroup id fields)) := by
  simp only [replaceGroup, GroupFields.validate, fault?, blank?, absent?, holds]
  cases Text.allBlank fields.name with
  | true =>
      rfl
  | false =>
      have hcontains : c.groups.contains id = (c.groups.get? id).isSome := rfl
      rw [hcontains]
      cases c.groups.get? id with
      | none =>
          rfl
      | some entry =>
          cases c.sections.contains fields.sectionId with
          | false =>
              rfl
          | true =>
              exact ⟨_, rfl⟩

theorem WellFormed.decided_replaceLayer {c : Catalog} (h : WellFormed c) (id : LayerId)
    (fields : LayerFields) :
    (c.replaceLayer id fields).Decided (c.fault? (.replaceLayer id fields)) := by
  simp only [Catalog.replaceLayer, LayerFields.validate, fault?, blank?, absent?, holds,
    Table.contains]
  cases Text.allBlank fields.name with
  | true =>
      rfl
  | false =>
      cases hentry : c.layers.get? id with
      | none =>
          rfl
      | some entry =>
          obtain ⟨layer, hlayer⟩ := h.reread hentry fields
          rw [withFields, Table.modify_of_get? hentry] at hlayer
          simp only [hlayer]
          exact ⟨_, rfl⟩

theorem decided_deleteSection (id : SectionId) :
    (c.deleteSection id).Decided (c.fault? (.deleteSection id)) := by
  simp only [deleteSection, fault?, absent?, holds, Table.contains]
  cases c.sections.get? id with
  | none =>
      rfl
  | some entry =>
      exact ⟨_, rfl⟩

theorem decided_deleteGroup (id : GroupId) :
    (c.deleteGroup id).Decided (c.fault? (.deleteGroup id)) := by
  simp only [deleteGroup, fault?, absent?, holds, Table.contains]
  cases c.groups.get? id with
  | none =>
      rfl
  | some entry =>
      exact ⟨_, rfl⟩

theorem decided_deleteLayer (id : LayerId) :
    (c.deleteLayer id).Decided (c.fault? (.deleteLayer id)) := by
  simp only [deleteLayer, fault?, absent?, holds, Table.contains]
  cases c.layers.get? id with
  | none =>
      rfl
  | some entry =>
      exact ⟨_, rfl⟩

/-- The group of a stored layer is there and lists it, so that a move fails for its layer or for its
revision alone. -/
theorem WellFormed.decided_moveLayer {c : Catalog} (h : WellFormed c) (id : LayerId)
    (direction : Direction) (expected : Option Nat) :
    (c.moveLayer id direction expected).Decided
      (c.fault? (.moveLayer id direction expected)) := by
  simp only [Catalog.moveLayer, fault?, absent?, holds, Table.contains]
  cases hentry : c.layers.get? id with
  | none =>
      rfl
  | some entry =>
      obtain ⟨group, position, hgroup, hposition⟩ := h.position_of_layer hentry
      have hrevision : c.revision? entry.group = some group.revision := by
        rw [revision?, hgroup, Option.map_some]
      have hstale : c.stale? id expected =
          if expected.getD group.revision = group.revision then none
          else some (.conflict entry.group (expected.getD group.revision) group.revision) := by
        cases expected with
        | none =>
            simp [stale?]
        | some expected =>
            simp [stale?, groupOf?_of_get? hentry, hrevision]
      simp only [hgroup, hposition, Option.isSome_some, Option.none_or, hstale, ne_eq, ite_not]
      by_cases hexpected : expected.getD group.revision = group.revision
      · rw [if_pos hexpected, if_pos hexpected]
        cases neighbour? direction position group.layers.length with
        | none =>
            exact ⟨_, rfl⟩
        | some neighbour =>
            exact ⟨_, rfl⟩
      · rw [if_neg hexpected, if_neg hexpected]
        rfl

end Decided

/-- In a well-formed catalogue an operation fails with its fault, and only with that. -/
theorem WellFormed.decided_perform {c : Catalog} (h : WellFormed c) (operation : Operation) :
    (c.perform operation).Decided (c.fault? operation) := by
  cases operation with
  | createSection id fields =>
      exact (c.decided_createSection id fields).as _
  | createGroup id fields =>
      exact (c.decided_createGroup id fields).as _
  | createLayer id group fields =>
      exact (c.decided_createLayer id group fields).as _
  | replaceSection id fields =>
      exact (c.decided_replaceSection id fields).as _
  | replaceGroup id fields =>
      exact (c.decided_replaceGroup id fields).as _
  | replaceLayer id fields =>
      exact (h.decided_replaceLayer id fields).as _
  | deleteSection id =>
      exact (c.decided_deleteSection id).as _
  | deleteGroup id =>
      exact (c.decided_deleteGroup id).as _
  | deleteLayer id =>
      exact (c.decided_deleteLayer id).as _
  | moveLayer id direction expected =>
      exact (h.decided_moveLayer id direction expected).as _

/-! ## Runs in place -/

def left {α : Type} : EStateM.Result CatalogError Catalog α → Catalog
  | .ok _ c => c
  | .error _ c => c

def runInPlace (c : Catalog) (history : List Operation) : Catalog :=
  history.foldl (fun c operation => left (operation.work.run c)) c

theorem WellFormed.left_work {c : Catalog} (h : WellFormed c) (operation : Operation) :
    left (operation.work.run c) = c.after operation := by
  rw [h.run_work, after]
  cases c.perform operation <;> rfl

theorem WellFormed.runInPlace_eq {c : Catalog} (h : WellFormed c) {history : List Operation}
    (hids : NeverRepeats c history) : c.runInPlace history = c.run history := by
  induction history generalizing c with
  | nil =>
      rfl
  | cons operation rest ih =>
      have hsplit : NeverRepeats c ([operation] ++ rest) := hids
      have hnext : WellFormed (c.after operation) := h.run hsplit.left
      rw [runInPlace, List.foldl_cons, h.left_work, ← runInPlace, ih hnext hsplit.right]
      rfl

/-! ## Clean failures -/

/-- Operations in place fail exactly with what is wrong with them, and leave the catalogue as it is. -/
structure FailsCleanly (c : Catalog) : Prop where
  error_iff : ∀ (operation : Operation) e left,
    operation.work.run c = .error e left ↔ c.fault? operation = some e ∧ left = c
  succeeds : ∀ operation, c.fault? operation = none →
    ∃ answer next, operation.work.run c = .ok answer next ∧
      c.perform operation = .ok (answer, next)
  /-- A layer that was written is read back. -/
  reread : ∀ id entry fields, c.layers.get? id = some entry →
    ∃ layer, (c.withFields id fields).layer? id = some layer
  /-- The group of a layer is there, and the layer has a position in it. -/
  located : ∀ id entry, c.layers.get? id = some entry →
    ∃ group position, c.groups.get? entry.group = some group ∧
      position? id group.layers = some position

theorem WellFormed.failsCleanly {c : Catalog} (h : WellFormed c) : FailsCleanly c := by
  refine ⟨?_, ?_, ?_, ?_⟩
  · intro operation e left
    have hdecided := h.decided_perform operation
    rw [h.run_work]
    cases hfault : c.fault? operation with
    | none =>
        rw [hfault] at hdecided
        obtain ⟨result, hok⟩ := hdecided
        rw [hok]
        simp [Edit.settle]
    | some fault =>
        rw [hfault] at hdecided
        have herror : c.perform operation = .error fault := hdecided
        rw [herror]
        simp [Edit.settle, eq_comm]
  · intro operation hfault
    have hdecided := h.decided_perform operation
    rw [hfault] at hdecided
    obtain ⟨⟨answer, next⟩, hok⟩ := hdecided
    refine ⟨answer, next, ?_, hok⟩
    rw [h.run_work, hok]
    rfl
  · intro id entry fields hentry
    exact h.reread hentry fields
  · intro id entry hentry
    exact h.position_of_layer hentry

/-- Wherever a run of a store arrives, operations in place do what operations do, and those that fail do
so with the first thing that is wrong and change nothing. -/
theorem run_failsCleanly {start : Catalog} {history : List Operation} (hstart : Initial start)
    (hids : NeverRepeats start history) :
    start.runInPlace history = start.run history ∧ FailsCleanly (start.run history) := by
  have hwell := hstart.wellFormed
  exact ⟨hwell.runInPlace_eq hids, (hwell.run hids).failsCleanly⟩

theorem sample_failsCleanly :
    Initial empty ∧ NeverRepeats empty sample ∧
      (empty.runInPlace sample = empty.run sample ∧ FailsCleanly (empty.run sample)) ∧
      (Operation.moveLayer ⟨4⟩ .up (some 2)).work.run (empty.run sample) =
        .error (.conflict ⟨3⟩ 2 3) (empty.run sample) := by
  have hclean := run_failsCleanly (.inl rfl) neverRepeats_sample
  exact ⟨.inl rfl, neverRepeats_sample, hclean, (hclean.2.error_iff _ _ _).2 ⟨rfl, rfl⟩⟩

end Catalog

end MapCatalog
