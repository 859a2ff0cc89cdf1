import MapCatalog.Proofs.Catalog.Deletion

/-! # What is wrong with an operation -/

namespace MapCatalog

def Operation.needed : Operation → List RecordId
  | .createSection _ _ => []
  | .createGroup _ fields => [⟨.sections, fields.sectionId⟩]
  | .createLayer _ group _ => [⟨.groups, group⟩]
  | .replaceSection id _ | .deleteSection id => [⟨.sections, id⟩]
  | .replaceGroup id fields => [⟨.groups, id⟩, ⟨.sections, fields.sectionId⟩]
  | .deleteGroup id => [⟨.groups, id⟩]
  | .replaceLayer id _ | .deleteLayer id | .moveLayer id _ _ => [⟨.layers, id⟩]

/-- An operation expects another revision than the group of its layer has. -/
def Catalog.Outdates (c : Catalog) (operation : Operation) : Prop :=
  ∃ id direction expected group actual, operation = .moveLayer id direction (some expected) ∧
    c.groupOf? id = some group ∧ c.revision? group = some actual ∧ expected ≠ actual

namespace Catalog

/-- What is wrong with an operation, if anything: its name, or a record, or its revision, in this order. -/
inductive Faulted (c : Catalog) (operation : Operation) : Option CatalogError → Prop where
  | unnamed {cause : RecordError} (h : ¬ operation.IsNamed) :
      Faulted c operation (some (.invalid cause))
  | absent {id missing : RecordId} (hnamed : operation.IsNamed) (hneeded : id ∈ operation.needed)
      (h : c.holds id = false) : Faulted c operation (some (.notFound missing.1 missing.2))
  | outdated {group : GroupId} {expected actual : Nat} (hnamed : operation.IsNamed)
      (hheld : ∀ id ∈ operation.needed, c.holds id = true) (h : c.Outdates operation) :
      Faulted c operation (some (.conflict group expected actual))
  | faultless (hnamed : operation.IsNamed) (hheld : ∀ id ∈ operation.needed, c.holds id = true)
      (h : ¬ c.Outdates operation) : Faulted c operation none

variable {c : Catalog} {operation : Operation}

/-- Behind the check of the name, the records and the revision decide. -/
theorem Faulted.of_blank {tier : Tier} {name : String} {rest : Option CatalogError}
    (hnamed : operation.IsNamed ↔ Text.allBlank name = false)
    (hrest : operation.IsNamed → Faulted c operation rest) :
    Faulted c operation ((blank? tier name).or rest) := by
  unfold blank?
  cases hname : Text.allBlank name with
  | true =>
      refine .unnamed fun h => ?_
      rw [hnamed.1 h] at hname
      cases hname
  | false =>
      exact hrest (hnamed.2 hname)

/-- Behind the check of a record, the other records and the revision decide. -/
theorem Faulted.of_absent {id : RecordId} {rest : Option CatalogError}
    (hnamed : operation.IsNamed) (hneeded : id ∈ operation.needed)
    (hrest : c.holds id = true → Faulted c operation rest) :
    Faulted c operation ((c.absent? id.1 id.2).or rest) := by
  unfold absent?
  cases hheld : c.holds id with
  | true =>
      exact hrest hheld
  | false =>
      exact .absent hnamed hneeded hheld

/-- Where one record has to be there, the check of it is the last one. -/
theorem Faulted.of_last {id : RecordId} (hnamed : operation.IsNamed)
    (hneeded : operation.needed = [id]) (hcurrent : ¬ c.Outdates operation) :
    Faulted c operation (c.absent? id.1 id.2) := by
  rw [← Option.or_none (o := c.absent? id.1 id.2)]
  refine .of_absent hnamed (by simp [hneeded]) fun hheld => ?_
  exact .faultless hnamed (by simpa [hneeded] using hheld) hcurrent

theorem not_outdates (h : ∀ id direction expected, operation ≠ .moveLayer id direction expected) :
    ¬ c.Outdates operation := by
  rintro ⟨id, direction, expected, -, -, hmove, -⟩
  exact h id direction (some expected) hmove

theorem stale?_eq_some_iff {id : LayerId} {expected : Option Nat} {e : CatalogError} :
    c.stale? id expected = some e ↔
      ∃ given group actual, expected = some given ∧ c.groupOf? id = some group ∧
        c.revision? group = some actual ∧ given ≠ actual ∧ e = .conflict group given actual := by
  cases expected with
  | none =>
      simp [stale?]
  | some given =>
      cases hgroup : c.groupOf? id with
      | none =>
          simp [stale?, hgroup]
      | some group =>
          cases hrevision : c.revision? group with
          | none =>
              simp [stale?, hgroup, hrevision]
          | some actual =>
              simp [stale?, hgroup, hrevision, eq_comm]

theorem faulted_moveLayer (c : Catalog) (id : LayerId) (direction : Direction)
    (expected : Option Nat) :
    Faulted c (.moveLayer id direction expected) (c.fault? (.moveLayer id direction expected)) := by
  have hnamed : (Operation.moveLayer id direction expected).IsNamed := trivial
  have hneeded : (⟨.layers, id⟩ : RecordId) ∈ (Operation.moveLayer id direction expected).needed :=
    List.mem_cons_self
  refine .of_absent hnamed hneeded fun hlayer => ?_
  have hheld : ∀ other ∈ (Operation.moveLayer id direction expected).needed,
      c.holds other = true := by
    simpa [Operation.needed] using hlayer
  cases hstale : c.stale? id expected with
  | none =>
      refine .faultless hnamed hheld ?_
      rintro ⟨_, _, given, group, actual, hmove, hgroup, hrevision, hne⟩
      cases hmove
      rw [stale?_eq_some_iff.2 ⟨given, group, actual, rfl, hgroup, hrevision, hne, rfl⟩] at hstale
      cases hstale
  | some e =>
      obtain ⟨given, group, actual, rfl, hgroup, hrevision, hne, rfl⟩ := stale?_eq_some_iff.1 hstale
      exact .outdated hnamed hheld
        ⟨id, direction, given, group, actual, rfl, hgroup, hrevision, hne⟩

theorem faulted_replaceGroup (c : Catalog) (id : GroupId) (fields : GroupFields) :
    Faulted c (.replaceGroup id fields) (c.fault? (.replaceGroup id fields)) := by
  refine .of_blank Iff.rfl fun hnamed => ?_
  have hneeded : (⟨.groups, id⟩ : RecordId) ∈ (Operation.replaceGroup id fields).needed :=
    List.mem_cons_self
  refine .of_absent hnamed hneeded fun hgroup => ?_
  have htarget : (⟨.sections, fields.sectionId⟩ : RecordId) ∈
      (Operation.replaceGroup id fields).needed :=
    List.mem_cons_of_mem _ List.mem_cons_self
  rw [← Option.or_none (o := c.absent? _ _)]
  refine .of_absent hnamed htarget fun hsection => ?_
  refine .faultless hnamed ?_ (not_outdates (by simp))
  simp [Operation.needed, hgroup, hsection]

/-- The fault of an operation is the first thing that is wrong with it. -/
theorem faulted (c : Catalog) (operation : Operation) : Faulted c operation (c.fault? operation) := by
  cases operation with
  | createSection id fields =>
      rw [fault?, ← Option.or_none (o := blank? _ _)]
      exact .of_blank Iff.rfl fun hnamed =>
        .faultless hnamed (by simp [Operation.needed]) (not_outdates (by simp))
  | createGroup id fields | createLayer id group fields | replaceSection id fields
  | replaceLayer id fields =>
      exact .of_blank Iff.rfl fun hnamed => .of_last hnamed rfl (not_outdates (by simp))
  | replaceGroup id fields =>
      exact c.faulted_replaceGroup id fields
  | deleteSection id =>
      have hnamed : (Operation.deleteSection id).IsNamed := trivial
      exact .of_last hnamed rfl (not_outdates (by simp))
  | deleteGroup id =>
      have hnamed : (Operation.deleteGroup id).IsNamed := trivial
      exact .of_last hnamed rfl (not_outdates (by simp))
  | deleteLayer id =>
      have hnamed : (Operation.deleteLayer id).IsNamed := trivial
      exact .of_last hnamed rfl (not_outdates (by simp))
  | moveLayer id direction expected =>
      exact c.faulted_moveLayer id direction expected

end Catalog

end MapCatalog
