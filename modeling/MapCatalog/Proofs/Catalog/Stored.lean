import MapCatalog.Proofs.Catalog.History

/-!
# What holds of everything stored

A property of the fields of all stored records, tier by tier, goes on to hold as long as it holds of the
fields that operations bring along.  Whatever is brought along by an operation that succeeds is valid.
-/

namespace MapCatalog

/-- Every value of a table passes a test. -/
def Table.All {κ α : Type} [DecidableEq κ] (p : α → Prop) (table : Table κ α) : Prop :=
  ∀ key value, table.get? key = some value → p value

namespace Table.All

variable {κ α : Type} [DecidableEq κ] {p : α → Prop} {table other : Table κ α}

theorem empty : Table.All p (.empty : Table κ α) := by
  intro key value h
  cases h

theorem insert (h : table.All p) {value : α} (hvalue : p value) (key : κ) :
    (table.insert key value).All p := by
  intro other found hfound
  rw [Table.get?_insert] at hfound
  split at hfound
  · cases hfound
    exact hvalue
  · exact h other found hfound

theorem modify (h : table.All p) {change : α → α} (hchange : ∀ value, p value → p (change value))
    (key : κ) : (table.modify key change).All p := by
  intro other found hfound
  rw [Table.get?_modify] at hfound
  split at hfound
  · obtain ⟨value, hvalue, rfl⟩ := Option.map_eq_some_iff.1 hfound
    exact hchange value (h key value hvalue)
  · exact h other found hfound

/-- Fewer entries pass as well. -/
theorem mono (h : table.All p)
    (hsub : ∀ key value, other.get? key = some value → table.get? key = some value) :
    other.All p :=
  fun key value hvalue => h key value (hsub key value hvalue)

theorem erase (h : table.All p) (key : κ) : (table.erase key).All p := by
  apply h.mono
  intro other value hvalue
  rw [Table.get?_erase] at hvalue
  split at hvalue
  · cases hvalue
  · exact hvalue

end Table.All

/-! ## Operations -/

section

variable {S S' : SectionFields → Prop} {G G' : GroupFields → Prop} {L L' : LayerFields → Prop}

/-- The fields that an operation brings along have the property of their tier. -/
def Operation.Brings (S : SectionFields → Prop) (G : GroupFields → Prop) (L : LayerFields → Prop) :
    Operation → Prop
  | .createSection _ fields | .replaceSection _ fields => S fields
  | .createGroup _ fields | .replaceGroup _ fields => G fields
  | .createLayer _ _ fields | .replaceLayer _ fields => L fields
  | .deleteSection _ | .deleteGroup _ | .deleteLayer _ | .moveLayer _ _ _ => True

theorem Operation.Brings.mono {operation : Operation} (h : operation.Brings S G L)
    (hS : ∀ fields, S fields → S' fields) (hG : ∀ fields, G fields → G' fields)
    (hL : ∀ fields, L fields → L' fields) : operation.Brings S' G' L' := by
  cases operation with
  | createSection _ fields | replaceSection _ fields => exact hS fields h
  | createGroup _ fields | replaceGroup _ fields => exact hG fields h
  | createLayer _ _ fields | replaceLayer _ fields => exact hL fields h
  | deleteSection | deleteGroup | deleteLayer | moveLayer => trivial

end

namespace Catalog

variable {S : SectionFields → Prop} {G : GroupFields → Prop} {L : LayerFields → Prop}
  {c next : Catalog} {operation : Operation} {answer : Answer}

/-- An operation that succeeds brings along valid fields. -/
theorem brings_of_perform (hok : c.perform operation = .ok (answer, next)) :
    operation.Brings (fun fields => fields.validate = .ok ())
      (fun fields => fields.validate = .ok ()) fun fields => fields.validate = .ok () := by
  cases operation with
  | createSection id fields =>
      rcases Edit.as_eq_ok hok with ⟨_, hok, -⟩
      exact (createSection_eq_ok hok).1
  | createGroup id fields =>
      rcases Edit.as_eq_ok hok with ⟨_, hok, -⟩
      exact (createGroup_eq_ok hok).1
  | createLayer id group fields =>
      rcases Edit.as_eq_ok hok with ⟨_, hok, -⟩
      exact (createLayer_eq_ok hok).1
  | replaceSection id fields =>
      rcases Edit.as_eq_ok hok with ⟨_, hok, -⟩
      exact (replaceSection_eq_ok hok).1
  | replaceGroup id fields =>
      rcases Edit.as_eq_ok hok with ⟨_, hok, -⟩
      exact (replaceGroup_eq_ok hok).1
  | replaceLayer id fields =>
      rcases Edit.as_eq_ok hok with ⟨_, hok, -⟩
      exact (replaceLayer_eq_ok hok).1
  | deleteSection | deleteGroup | deleteLayer | moveLayer => trivial

/-- The fields of every stored record have the property of their tier. -/
structure Stores (S : SectionFields → Prop) (G : GroupFields → Prop) (L : LayerFields → Prop)
    (c : Catalog) : Prop where
  sections : c.sections.All fun entry => S entry.fields
  groups : c.groups.All fun entry => G entry.fields
  layers : c.layers.All fun entry => L entry.fields

namespace Stores

theorem of_empty : Stores S G L empty :=
  ⟨Table.All.empty, Table.All.empty, Table.All.empty⟩

theorem dropGroups (h : Stores S G L c) (ids : List GroupId) :
    Stores S G L (c.dropGroups ids).2 := by
  refine ⟨?_, h.groups.mono ?_, h.layers.mono ?_⟩
  · rw [(c.dropGroups_sections ids).1]
    exact h.sections
  · intro id entry hentry
    rw [dropGroups_groups] at hentry
    split at hentry
    · cases hentry
    · exact hentry
  · intro id entry hentry
    rw [dropGroups_layers] at hentry
    split at hentry
    · cases hentry
    · exact hentry

/-- An operation stores no fields but those that it brings along. -/
theorem perform (h : Stores S G L c) (hok : c.perform operation = .ok (answer, next))
    (hbrings : operation.Brings S G L) : Stores S G L next := by
  cases operation with
  | createSection id fields =>
      rcases Edit.as_eq_ok hok with ⟨_, hok, -⟩
      obtain ⟨-, -, rfl⟩ := createSection_eq_ok hok
      refine ⟨?_, h.groups, h.layers⟩
      apply h.sections.insert
      exact hbrings
  | createGroup id fields =>
      rcases Edit.as_eq_ok hok with ⟨_, hok, -⟩
      obtain ⟨-, -, entry, hentry, rfl⟩ := createGroup_eq_ok hok
      refine ⟨?_, ?_, h.layers⟩
      · apply h.sections.insert
        exact h.sections _ entry hentry
      · apply h.groups.insert
        exact hbrings
  | createLayer id group fields =>
      rcases Edit.as_eq_ok hok with ⟨_, hok, -⟩
      obtain ⟨-, entry, hentry, -, rfl⟩ := createLayer_eq_ok hok
      refine ⟨h.sections, ?_, ?_⟩
      · apply h.groups.insert
        exact h.groups _ entry hentry
      · apply h.layers.insert
        exact hbrings
  | replaceSection id fields =>
      rcases Edit.as_eq_ok hok with ⟨_, hok, -⟩
      obtain ⟨-, -, entry, -, rfl⟩ := replaceSection_eq_ok hok
      refine ⟨?_, h.groups, h.layers⟩
      apply h.sections.insert
      exact hbrings
  | replaceGroup id fields =>
      rcases Edit.as_eq_ok hok with ⟨_, hok, -⟩
      obtain ⟨-, -, -, entry, -, rfl⟩ := replaceGroup_eq_ok hok
      refine ⟨?_, ?_, h.layers⟩
      · unfold moveGroup
        split
        · exact h.sections
        · refine (h.sections.modify ?_ _).modify ?_ _
          · exact fun _ hkept => hkept
          · exact fun _ hkept => hkept
      · apply h.groups.insert
        exact hbrings
  | replaceLayer id fields =>
      rcases Edit.as_eq_ok hok with ⟨_, hok, -⟩
      obtain ⟨-, -, entry, -, rfl⟩ := replaceLayer_eq_ok hok
      refine ⟨h.sections, h.groups, ?_⟩
      apply h.layers.insert
      exact hbrings
  | deleteSection id =>
      rcases Edit.as_eq_ok hok with ⟨_, hok, -⟩
      obtain ⟨entry, -, -, rfl⟩ := deleteSection_eq_ok hok
      have hdetached : Stores S G L (c.detachSection id) :=
        ⟨h.sections.erase id, h.groups, h.layers⟩
      exact hdetached.dropGroups entry.groups
  | deleteGroup id =>
      rcases Edit.as_eq_ok hok with ⟨_, hok, -⟩
      obtain ⟨entry, -, -, rfl⟩ := deleteGroup_eq_ok hok
      have hdetached : Stores S G L (c.detachGroup entry.fields.sectionId id) := by
        refine ⟨h.sections.modify ?_ _, h.groups, h.layers⟩
        exact fun _ hkept => hkept
      exact hdetached.dropGroups [id]
  | deleteLayer id =>
      rcases Edit.as_eq_ok hok with ⟨_, hok, -⟩
      obtain ⟨-, entry, -, rfl⟩ := deleteLayer_eq_ok hok
      refine ⟨h.sections, h.groups.modify ?_ _, h.layers.erase id⟩
      exact fun _ hkept => hkept
  | moveLayer id direction expected =>
      rcases Edit.as_eq_ok hok with ⟨_, hok, -⟩
      obtain ⟨entry, group, position, -, hgroup, -, -, hmove⟩ := moveLayer_eq_ok hok
      obtain ⟨-, -, rfl⟩ | ⟨neighbour, -, -, rfl⟩ := hmove
      · exact h
      · refine ⟨h.sections, h.groups.insert ?_ _, h.layers⟩
        exact h.groups _ group hgroup

theorem after (h : Stores S G L c) (hbrings : operation.Brings S G L) :
    Stores S G L (c.after operation) := by
  rw [Catalog.after]
  cases hperform : c.perform operation with
  | error e => exact h
  | ok result => exact h.perform hperform hbrings

theorem run (h : Stores S G L c) {history : List Operation}
    (hbrings : ∀ operation ∈ history, operation.Brings S G L) : Stores S G L (c.run history) := by
  induction history generalizing c with
  | nil =>
      exact h
  | cons operation rest ih =>
      obtain ⟨hfirst, hrest⟩ := List.forall_mem_cons.1 hbrings
      exact ih (h.after hfirst) hrest

end Stores

end Catalog

end MapCatalog
