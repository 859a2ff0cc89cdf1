import MapCatalog.Proofs.Catalog.Exchange
import MapCatalog.Proofs.Catalog.History

/-! # Revisions

An operation either changes the list of one group and adds one to its revision, or leaves all lists and revisions as
they are.
-/

namespace MapCatalog

namespace Catalog

/-- The list of layers of a group and its revision. -/
def versioned? (c : Catalog) (id : GroupId) : Option (List LayerId × Nat) :=
  (c.groups.get? id).map fun entry => (entry.layers, entry.revision)

/-- The group whose list of layers an operation changes: that of a new layer, of a layer that goes, or
of one that has moved. -/
def changedGroup? (c : Catalog) (operation : Operation) : Option GroupId :=
  match operation, c.perform operation with
  | .createLayer _ group _, .ok _ => some group
  | .deleteLayer id, .ok _ => c.groupOf? id
  | .moveLayer id _ _, .ok (.moved (.moved _ _ _), _) => c.groupOf? id
  | _, _ => none

def orderChanges (c : Catalog) : List Operation → Nat
  | [] => 0
  | operation :: rest =>
      (if (c.changedGroup? operation).isSome then 1 else 0) + (c.after operation).orderChanges rest

theorem versioned?_of_get? {c : Catalog} {id : GroupId} {entry : GroupEntry}
    (h : c.groups.get? id = some entry) :
    c.versioned? id = some (entry.layers, entry.revision) := by
  simp [versioned?, h]

theorem versioned?_insert {c after : Catalog} {id : GroupId} {entry : GroupEntry}
    (h : after.groups = c.groups.insert id entry) (other : GroupId) :
    after.versioned? other =
      if id = other then some (entry.layers, entry.revision) else c.versioned? other := by
  unfold versioned?
  rw [h, Table.get?_insert]
  by_cases ho : id = other <;> simp [ho]

theorem isSome_versioned? (c : Catalog) (id : GroupId) :
    (c.versioned? id).isSome = c.holds ⟨.groups, id⟩ := by
  simp [versioned?, holds, Table.contains]

/-! ## Single steps -/

def KeepsLists (c next : Catalog) : Prop :=
  ∀ group now, next.versioned? group = some now →
    c.versioned? group = some now ∨ c.versioned? group = none ∧ now = ([], 0)

/-- The list of one group changes, its revision grows by one, and nothing else changes. -/
def ChangesList (c next : Catalog) (group : GroupId) : Prop :=
  ∃ before after revision, c.versioned? group = some (before, revision) ∧ after ≠ before ∧
    ∀ other, next.versioned? other =
      if group = other then some (after, revision + 1) else c.versioned? other

namespace KeepsLists

variable {c next : Catalog}

theorem refl (c : Catalog) : KeepsLists c c :=
  fun _ _ hnow => .inl hnow

theorem of_groups (h : next.groups = c.groups) : KeepsLists c next := by
  intro group now hnow
  rw [versioned?, h] at hnow
  exact .inl hnow

theorem of_create {id : GroupId} {fields : GroupFields} (hnew : c.groups.get? id = none)
    (h : next.groups = c.groups.insert id ⟨fields, [], 0⟩) : KeepsLists c next := by
  intro group now hnow
  rw [versioned?_insert h] at hnow
  split at hnow
  · next hgroup =>
    subst hgroup
    refine .inr ⟨?_, (Option.some.inj hnow).symm⟩
    rw [versioned?, hnew, Option.map_none]
  · exact .inl hnow

theorem of_fields {id : GroupId} {fields : GroupFields} {entry : GroupEntry}
    (hentry : c.groups.get? id = some entry)
    (h : next.groups = c.groups.insert id { entry with fields := fields }) :
    KeepsLists c next := by
  intro group now hnow
  rw [versioned?_insert h] at hnow
  split at hnow
  · next hgroup =>
    subst hgroup
    rw [versioned?_of_get? hentry]
    exact .inl hnow
  · exact .inl hnow

theorem of_dropGroups (c : Catalog) (ids : List GroupId) : KeepsLists c (c.dropGroups ids).2 := by
  intro group now hnow
  rw [versioned?, dropGroups_groups] at hnow
  split at hnow
  · cases hnow
  · exact .inl hnow

end KeepsLists

theorem changesList_createLayer {c next : Catalog} {id : LayerId} {group : GroupId} {fields : LayerFields}
    {record : LayerRecord} (hok : c.createLayer id group fields = .ok (record, next)) :
    ChangesList c next group := by
  rcases createLayer_eq_ok hok with ⟨-, entry, hentry, -, rfl⟩
  refine ⟨entry.layers, entry.layers ++ [id], entry.revision, versioned?_of_get? hentry, ?_, ?_⟩
  · simp
  · intro other
    rw [versioned?_insert rfl]

/-- A caller that expects another revision is told of the conflict. -/
theorem moveLayer_conflict {c : Catalog} {id : LayerId} {direction : Direction} {expected : Nat}
    {group : GroupId} {now : List LayerId × Nat} (hgroup : c.groupOf? id = some group)
    (hnow : c.versioned? group = some now) (hne : expected ≠ now.2) :
    c.moveLayer id direction (some expected) = .error (.conflict group expected now.2) := by
  obtain ⟨entry, hentry, rfl⟩ := groupOf?_eq_some_iff.1 hgroup
  obtain ⟨found, hfound, rfl⟩ := Option.map_eq_some_iff.1 hnow
  simp only [moveLayer, hentry, hfound, Option.getD_some]
  exact if_pos hne

/-- A layer that has moved for a caller was in a group at the revision that the caller expected. -/
theorem versioned?_of_moved {c next : Catalog} {id : LayerId} {direction : Direction}
    {expected : Nat} {group : GroupId} {source target : UInt32} {revision : Nat}
    (hgroup : c.groupOf? id = some group)
    (hok : c.perform (.moveLayer id direction (some expected)) =
      .ok (.moved (.moved source target revision), next)) :
    c.changedGroup? (.moveLayer id direction (some expected)) = some group ∧
      ∃ list, c.versioned? group = some (list, expected) := by
  constructor
  · unfold changedGroup?
    rw [hok]
    exact hgroup
  · rcases Edit.as_eq_ok hok with ⟨_, hmove, -⟩
    rcases moveLayer_eq_ok hmove with ⟨entry, found, _, hentry, hfound, hexpected, -⟩
    rw [groupOf?_of_get? hentry] at hgroup
    cases hgroup
    refine ⟨found.layers, ?_⟩
    rw [versioned?_of_get? hfound, ← hexpected, Option.getD_some]

namespace WellFormed

variable {c next : Catalog}

theorem changesList_deleteLayer (h : WellFormed c) {id : LayerId} {counts : Counts}
    (hok : c.deleteLayer id = .ok (counts, next)) :
    ∃ group, c.groupOf? id = some group ∧ ChangesList c next group := by
  rcases deleteLayer_eq_ok hok with ⟨-, entry, hentry, heq⟩
  obtain ⟨group, hgroup, hlisted⟩ := h.group_of_layer hentry
  have hgroups : next.groups = c.groups.insert entry.group
      { group with
        layers := group.layers.filter fun layer => decide (layer ≠ id)
        revision := group.revision + 1 } := by
    rw [heq]
    exact Table.modify_of_get? hgroup _
  refine ⟨entry.group, groupOf?_of_get? hentry, group.layers,
    group.layers.filter fun layer => decide (layer ≠ id), group.revision,
    versioned?_of_get? hgroup, ?_, ?_⟩
  · intro hsame
    rw [← hsame] at hlisted
    simp at hlisted
  · exact versioned?_insert hgroups

theorem changesList_moveLayer (h : WellFormed c) {id : LayerId} {direction : Direction}
    {expected : Option Nat} {moved : Moved}
    (hok : c.moveLayer id direction expected = .ok (moved, next)) :
    (∃ place revision, moved = .unchanged place revision ∧ next = c) ∨
      ∃ source target revision group, moved = .moved source target revision ∧
        c.groupOf? id = some group ∧ ChangesList c next group := by
  rcases moveLayer_eq_ok hok with ⟨entry, group, position, hentry, hgroup, -, hposition, hmove⟩
  obtain ⟨-, rfl, rfl⟩ | ⟨neighbour, hneighbour, rfl, rfl⟩ := hmove
  · exact .inl ⟨_, _, rfl, rfl⟩
  · have hnodup := h.layers.nodup entry.group
    rw [layerIds_of_get? hgroup] at hnodup
    have hlt : position < group.layers.length := by
      obtain ⟨hlt, -⟩ := List.findIdx?_eq_some_iff_getElem.1 hposition
      exact hlt
    refine .inr ⟨_, _, _, entry.group, rfl, groupOf?_of_get? hentry, group.layers,
      exchange (min position neighbour) group.layers, group.revision,
      versioned?_of_get? hgroup, ?_, ?_⟩
    · exact exchange_ne_self hnodup (min_neighbour_lt hlt hneighbour)
    · intro other
      rw [versioned?_insert rfl]

/-- A successful operation changes the list of at most one group, the one it says. -/
theorem changes_perform (h : WellFormed c) {operation : Operation} {answer : Answer}
    (hfresh : Fresh c operation) (hok : c.perform operation = .ok (answer, next)) :
    (c.changedGroup? operation = none ∧ KeepsLists c next) ∨
      ∃ group, c.changedGroup? operation = some group ∧ ChangesList c next group := by
  unfold changedGroup?
  rw [hok]
  cases operation with
  | createSection id fields =>
      rcases Edit.as_eq_ok hok with ⟨_, hok, -⟩
      rcases createSection_eq_ok hok with ⟨-, -, rfl⟩
      exact .inl ⟨rfl, .of_groups rfl⟩
  | createGroup id fields =>
      rcases Edit.as_eq_ok hok with ⟨_, hok, -⟩
      rcases createGroup_eq_ok hok with ⟨-, -, entry, -, rfl⟩
      have hnew := c.groups.contains_eq_false_iff.1 (hfresh _ rfl)
      exact .inl ⟨rfl, .of_create hnew rfl⟩
  | createLayer id group fields =>
      rcases Edit.as_eq_ok hok with ⟨_, hok, -⟩
      exact .inr ⟨group, rfl, changesList_createLayer hok⟩
  | replaceSection id fields =>
      rcases Edit.as_eq_ok hok with ⟨_, hok, -⟩
      rcases replaceSection_eq_ok hok with ⟨-, -, entry, -, rfl⟩
      exact .inl ⟨rfl, .of_groups rfl⟩
  | replaceGroup id fields =>
      rcases Edit.as_eq_ok hok with ⟨_, hok, -⟩
      rcases replaceGroup_eq_ok hok with ⟨-, -, -, entry, hentry, rfl⟩
      exact .inl ⟨rfl, .of_fields hentry rfl⟩
  | replaceLayer id fields =>
      rcases Edit.as_eq_ok hok with ⟨_, hok, -⟩
      rcases replaceLayer_eq_ok hok with ⟨-, -, entry, -, rfl⟩
      exact .inl ⟨rfl, .of_groups rfl⟩
  | deleteSection id =>
      rcases Edit.as_eq_ok hok with ⟨_, hok, -⟩
      rcases deleteSection_eq_ok hok with ⟨entry, -, -, rfl⟩
      exact .inl ⟨rfl, .of_dropGroups (c.detachSection id) entry.groups⟩
  | deleteGroup id =>
      rcases Edit.as_eq_ok hok with ⟨_, hok, -⟩
      rcases deleteGroup_eq_ok hok with ⟨entry, -, -, rfl⟩
      exact .inl ⟨rfl, .of_dropGroups (c.detachGroup entry.fields.sectionId id) [id]⟩
  | deleteLayer id =>
      rcases Edit.as_eq_ok hok with ⟨_, hok, -⟩
      exact .inr (h.changesList_deleteLayer hok)
  | moveLayer id direction expected =>
      rcases Edit.as_eq_ok hok with ⟨moved, hmove, rfl⟩
      rcases h.changesList_moveLayer hmove with
        ⟨_, _, rfl, rfl⟩ | ⟨_, _, _, group, rfl, hgroup, hchanges⟩
      · exact .inl ⟨rfl, .refl _⟩
      · exact .inr ⟨group, hgroup, hchanges⟩

theorem changes_after (h : WellFormed c) {operation : Operation}
    (hids : NeverRepeats c [operation]) :
    (c.changedGroup? operation = none ∧ KeepsLists c (c.after operation)) ∨
      ∃ group, c.changedGroup? operation = some group ∧
        ChangesList c (c.after operation) group := by
  cases hok : c.perform operation with
  | error error =>
      rw [after_of_error hok]
      refine .inl ⟨?_, .refl c⟩
      unfold changedGroup?
      rw [hok]
      cases operation <;> rfl
  | ok result =>
      rw [after_of_ok hok]
      exact h.changes_perform (hids.fresh hok) hok

/-- An operation counts its change of a list, and changes no list without counting. -/
theorem versioned?_after (h : WellFormed c) {operation : Operation}
    (hids : NeverRepeats c [operation]) {group : GroupId} {before now : List LayerId × Nat}
    (hbefore : c.versioned? group = some before)
    (hnow : (c.after operation).versioned? group = some now) :
    (c.changedGroup? operation = some group ∧ now.2 = before.2 + 1 ∧ now.1 ≠ before.1) ∨
      (c.changedGroup? operation ≠ some group ∧ now = before) := by
  rcases h.changes_after hids with ⟨hnone, hkeeps⟩ | ⟨changed, hsome, hchanges⟩
  · refine .inr ⟨by simp [hnone], ?_⟩
    rcases hkeeps group now hnow with hold | ⟨habsent, -⟩
    · exact Option.some.inj (hold.symm.trans hbefore)
    · rw [habsent] at hbefore
      cases hbefore
  · obtain ⟨list, after, revision, hlist, hne, hafter⟩ := hchanges
    rw [hafter] at hnow
    by_cases hgroup : changed = group
    · subst hgroup
      rw [if_pos rfl] at hnow
      rw [hlist] at hbefore
      cases hnow
      cases hbefore
      exact .inl ⟨hsome, rfl, hne⟩
    · rw [if_neg hgroup, hbefore] at hnow
      refine .inr ⟨?_, (Option.some.inj hnow).symm⟩
      rw [hsome]
      exact fun heq => hgroup (Option.some.inj heq)

/-- The group whose list an operation changes is there before and after it. -/
theorem counted_after (h : WellFormed c) {operation : Operation}
    (hids : NeverRepeats c [operation]) {group : GroupId}
    (hchanged : c.changedGroup? operation = some group) :
    ∃ before after revision, c.versioned? group = some (before, revision) ∧
      (c.after operation).versioned? group = some (after, revision + 1) ∧ after ≠ before := by
  rcases h.changes_after hids with ⟨hnone, -⟩ | ⟨found, hsome, hchanges⟩
  · rw [hnone] at hchanged
    cases hchanged
  · rw [hsome] at hchanged
    cases hchanged
    obtain ⟨before, after, revision, hbefore, hne, hafter⟩ := hchanges
    exact ⟨before, after, revision, hbefore, (hafter group).trans (if_pos rfl), hne⟩

theorem kept_after (h : WellFormed c) {operation : Operation}
    (hids : NeverRepeats c [operation]) {group : GroupId} {before now : List LayerId × Nat}
    (hother : c.changedGroup? operation ≠ some group)
    (hbefore : c.versioned? group = some before)
    (hnow : (c.after operation).versioned? group = some now) : now = before := by
  rcases h.versioned?_after hids hbefore hnow with ⟨hchanged, -⟩ | ⟨-, heq⟩
  · exact absurd hchanged hother
  · exact heq

/-! ## Runs -/

/-- Over a run the revision of a group does not fall, and as long as it stays the list stays. -/
theorem versioned?_run (h : WellFormed c) {history : List Operation}
    (hids : NeverRepeats c history) {group : GroupId} {before now : List LayerId × Nat}
    (hbefore : c.versioned? group = some before)
    (hnow : (c.run history).versioned? group = some now) :
    before.2 ≤ now.2 ∧ (before.2 = now.2 → now = before) := by
  induction history generalizing c before with
  | nil =>
      have heq : now = before := Option.some.inj (hnow.symm.trans hbefore)
      exact ⟨Nat.le_of_eq (by rw [heq]), fun _ => heq⟩
  | cons operation rest ih =>
      have hsplit : NeverRepeats c ([operation] ++ rest) := hids
      -- a group that is there at the end has been there all the time
      have hheld : (c.after operation).holds ⟨.groups, group⟩ = true := by
        apply hsplit.holds_between
        · rw [← isSome_versioned?, hbefore]
          rfl
        · rw [← isSome_versioned?]
          exact Option.isSome_of_eq_some hnow
      rw [← isSome_versioned?] at hheld
      obtain ⟨mid, hmid⟩ := Option.isSome_iff_exists.1 hheld
      have hstep := h.versioned?_after hsplit.left hbefore hmid
      have hrest := ih (h.run hsplit.left) hsplit.right hmid hnow
      rcases hstep with ⟨-, hcount, -⟩ | ⟨-, rfl⟩
      · refine ⟨by omega, fun heq => ?_⟩
        omega
      · exact hrest

/-- No revision exceeds the one that a group may start with by more than the changes of the run. -/
theorem revision_le (h : WellFormed c) {history : List Operation} (hids : NeverRepeats c history)
    {bound : Nat} (hbound : ∀ group now, c.versioned? group = some now → now.2 ≤ bound)
    {group : GroupId} {now : List LayerId × Nat}
    (hnow : (c.run history).versioned? group = some now) :
    now.2 ≤ bound + c.orderChanges history := by
  induction history generalizing c bound with
  | nil =>
      exact hbound group now hnow
  | cons operation rest ih =>
      have hsplit : NeverRepeats c ([operation] ++ rest) := hids
      have hnext : ∀ group now, (c.after operation).versioned? group = some now →
          now.2 ≤ bound + if (c.changedGroup? operation).isSome then 1 else 0 := by
        intro group now hnow
        rcases h.changes_after hsplit.left with ⟨-, hkeeps⟩ | ⟨changed, hsome, hchanges⟩
        · rcases hkeeps group now hnow with hold | ⟨-, rfl⟩
          · exact Nat.le_trans (hbound group now hold) (Nat.le_add_right _ _)
          · exact Nat.zero_le _
        · obtain ⟨list, after, revision, hlist, -, hafter⟩ := hchanges
          have hrevision : revision ≤ bound := hbound changed _ hlist
          rw [hsome, Option.isSome_some, if_pos rfl]
          rw [hafter] at hnow
          split at hnow
          · cases hnow
            exact Nat.add_le_add_right hrevision 1
          · exact Nat.le_trans (hbound group now hnow) (Nat.le_add_right _ _)
      rw [orderChanges, ← Nat.add_assoc]
      exact ih (h.run hsplit.left) hsplit.right hnext hnow

theorem exists_versioned? (h : WellFormed c) {id : LayerId} {group : GroupId}
    (hgroup : c.groupOf? id = some group) :
    ∃ now, c.versioned? group = some now ∧ id ∈ now.1 := by
  obtain ⟨entry, hentry, rfl⟩ := groupOf?_eq_some_iff.1 hgroup
  obtain ⟨found, hfound, hlisted⟩ := h.group_of_layer hentry
  exact ⟨_, versioned?_of_get? hfound, hlisted⟩

/-! ## Expected revisions -/

variable {id : LayerId} {direction : Direction} {expected : Nat} {group : GroupId}
  {now : List LayerId × Nat}

/-- A caller that expects the current revision is not refused. -/
theorem exists_moveLayer_eq_ok (h : WellFormed c) (hgroup : c.groupOf? id = some group)
    (hnow : c.versioned? group = some now) :
    ∃ result, c.moveLayer id direction (some now.2) = .ok result := by
  obtain ⟨entry, hentry, rfl⟩ := groupOf?_eq_some_iff.1 hgroup
  obtain ⟨found, position, hfound, hposition⟩ := h.position_of_layer hentry
  rw [versioned?_of_get? hfound] at hnow
  cases hnow
  simp only [Catalog.moveLayer, hentry, hfound, hposition, Option.getD_some, ne_eq, not_true_eq_false,
    if_false]
  split
  · exact ⟨_, rfl⟩
  · exact ⟨_, rfl⟩

theorem moveLayer_ok_iff (h : WellFormed c) (hgroup : c.groupOf? id = some group)
    (hnow : c.versioned? group = some now) :
    (∃ result, c.moveLayer id direction (some expected) = .ok result) ↔ expected = now.2 := by
  constructor
  · rintro ⟨result, hok⟩
    by_contra hne
    rw [moveLayer_conflict hgroup hnow hne] at hok
    cases hok
  · rintro rfl
    exact h.exists_moveLayer_eq_ok hgroup hnow

end WellFormed

/-! ## Moments of a run -/

section Moments

variable {start : Catalog} {history : List Operation} {group : GroupId}
  {before now : List LayerId × Nat}

theorem versioned?_of_le (hwell : WellFormed start) (hids : NeverRepeats start history)
    {i j : Nat} (hij : i ≤ j) (hbefore : (start.moment history i).versioned? group = some before)
    (hnow : (start.moment history j).versioned? group = some now) :
    before.2 ≤ now.2 ∧ (before.2 = now.2 → now = before) := by
  rw [moment_of_le _ _ hij] at hnow
  have hmoment : WellFormed (start.moment history i) := hwell.run (hids.take i)
  exact hmoment.versioned?_run (hids.between hij) hbefore hnow

/-- Between two moments with one revision the list of a group stays. -/
theorem versioned?_between (hwell : WellFormed start) (hids : NeverRepeats start history)
    {i k j : Nat} (hik : i ≤ k) (hkj : k ≤ j)
    (hbefore : (start.moment history i).versioned? group = some before)
    (hnow : (start.moment history j).versioned? group = some now) (hsame : now.2 = before.2) :
    now = before ∧ (start.moment history k).versioned? group = some before := by
  -- the group is there at both ends, so it is there at `k`, at a revision between the two
  have hheld : (start.moment history k).holds ⟨.groups, group⟩ = true := by
    apply hids.holds_at hik hkj
    · rw [← isSome_versioned?]
      exact Option.isSome_of_eq_some hbefore
    · rw [← isSome_versioned?]
      exact Option.isSome_of_eq_some hnow
  rw [← isSome_versioned?] at hheld
  rcases Option.isSome_iff_exists.1 hheld with ⟨mid, hmid⟩
  have hfirst := versioned?_of_le hwell hids hik hbefore hmid
  have hsecond := versioned?_of_le hwell hids hkj hmid hnow
  have hmidSame : before.2 = mid.2 := by omega
  have hmidEq : mid = before := hfirst.2 hmidSame
  have hnowSame : mid.2 = now.2 := by omega
  have hnowEq : now = mid := hsecond.2 hnowSame
  constructor
  · rw [hnowEq, hmidEq]
  · rw [hmid, hmidEq]

/-- After a layer has moved, a caller that expects the revision from before is refused. -/
theorem moveLayer_refused (hwell : WellFormed start) (hids : NeverRepeats start history)
    {i j : Nat} {first second : LayerId} {direction another : Direction} {expected : Nat}
    {source target : UInt32} {revision : Nat} {next : Catalog}
    (hi : history[i]? = some (.moveLayer first direction (some expected)))
    (hok : (start.moment history i).perform (.moveLayer first direction (some expected)) =
      .ok (.moved (.moved source target revision), next))
    (hfirst : (start.moment history i).groupOf? first = some group) (hij : i < j)
    (hsecond : (start.moment history j).groupOf? second = some group) :
    ∃ actual, (start.moment history j).perform (.moveLayer second another (some expected)) =
      .error (.conflict group expected actual) := by
  have hmoment : ∀ i, WellFormed (start.moment history i) := fun i => hwell.run (hids.take i)
  rcases versioned?_of_moved hfirst hok with ⟨hchanged, list, hexpected⟩
  rcases (hmoment i).counted_after (hids.at_moment hi) hchanged with
    ⟨before, after, counted, hbefore, hafter, -⟩
  rw [hexpected] at hbefore
  cases hbefore
  rw [← moment_succ hi] at hafter
  rcases (hmoment j).exists_versioned? hsecond with ⟨now, hnow, -⟩
  have hmore : expected + 1 ≤ now.2 := (versioned?_of_le hwell hids hij hafter hnow).1
  have hne : expected ≠ now.2 := by omega
  refine ⟨now.2, ?_⟩
  rw [perform, moveLayer_conflict hsecond hnow hne]
  rfl

end Moments

/-! ## What revisions tell -/

theorem Initial.revision_eq_zero {c : Catalog} (h : Initial c) {group : GroupId}
    {now : List LayerId × Nat} (hnow : c.versioned? group = some now) : now.2 = 0 := by
  obtain ⟨entry, hentry, rfl⟩ := Option.map_eq_some_iff.1 hnow
  rcases h with rfl | ⟨snapshot, hload⟩
  · cases hentry
  · have hcontents := ofTrees_eq_ok_iff.1 hload
    obtain ⟨tree, -, found, -, heq⟩ := (get?_groups_of_contents hcontents).1 hentry
    cases heq
    rfl

/-- What the revisions of a run tell, whoever the callers are whose operations it is made of. -/
structure RevisionsTell (start : Catalog) (history : List Operation) : Prop where
  /-- An operation that changes a list adds one to its revision. -/
  counted : ∀ i operation group, history[i]? = some operation →
    (start.moment history i).changedGroup? operation = some group →
    ∃ before after revision,
      (start.moment history i).versioned? group = some (before, revision) ∧
      (start.moment history (i + 1)).versioned? group = some (after, revision + 1) ∧
      after ≠ before
  /-- No other list and no other revision changes. -/
  kept : ∀ i operation group before now, history[i]? = some operation →
    (start.moment history i).changedGroup? operation ≠ some group →
    (start.moment history i).versioned? group = some before →
    (start.moment history (i + 1)).versioned? group = some now → now = before
  /-- Between two moments with the same revision there is one list. -/
  between : ∀ i k j group before now, i ≤ k → k ≤ j →
    (start.moment history i).versioned? group = some before →
    (start.moment history j).versioned? group = some now → now.2 = before.2 →
    now = before ∧ (start.moment history k).versioned? group = some before
  /-- A move passes the check exactly when it expects the current revision. -/
  checked : ∀ i id direction expected group now,
    (start.moment history i).groupOf? id = some group →
    (start.moment history i).versioned? group = some now →
    ((∃ result, (start.moment history i).moveLayer id direction (some expected) = .ok result) ↔
      expected = now.2) ∧
    (expected ≠ now.2 → (start.moment history i).moveLayer id direction (some expected) =
      .error (.conflict group expected now.2))
  /-- Once a layer has moved, another move in its group that expects the same is refused. -/
  refused : ∀ i j first second direction another expected group source target revision next,
    history[i]? = some (.moveLayer first direction (some expected)) →
    (start.moment history i).perform (.moveLayer first direction (some expected)) =
      .ok (.moved (.moved source target revision), next) →
    (start.moment history i).groupOf? first = some group → i < j →
    (start.moment history j).groupOf? second = some group →
    (∃ actual, (start.moment history j).perform (.moveLayer second another (some expected)) =
      .error (.conflict group expected actual)) ∧
    (start.moment history j).after (.moveLayer second another (some expected)) =
      start.moment history j
  /-- With fewer than 2⁶⁴ changes no revision needs more than 64 bits. -/
  bounded : ∀ i group now, (start.moment history i).versioned? group = some now →
    now.2 ≤ start.orderChanges (history.take i)

/-- In every run the revision of a group counts the changes of its list, so that no caller reorders a
list that it has not seen. -/
theorem run_revisionsTell {start : Catalog} {history : List Operation} (hstart : Initial start)
    (hids : NeverRepeats start history) : RevisionsTell start history := by
  have hwell := hstart.wellFormed
  have hmoment : ∀ i, WellFormed (start.moment history i) := fun i => hwell.run (hids.take i)
  refine ⟨?_, ?_, ?_, ?_, ?_, ?_⟩
  · intro i operation group hi hchanged
    rw [moment_succ hi]
    exact (hmoment i).counted_after (hids.at_moment hi) hchanged
  · intro i operation group before now hi hother hbefore hnow
    rw [moment_succ hi] at hnow
    exact (hmoment i).kept_after (hids.at_moment hi) hother hbefore hnow
  · intro i k j group before now hik hkj hbefore hnow hsame
    exact versioned?_between hwell hids hik hkj hbefore hnow hsame
  · intro i id direction expected group now hgroup hnow
    exact ⟨(hmoment i).moveLayer_ok_iff hgroup hnow, moveLayer_conflict hgroup hnow⟩
  · intro i j first second direction another expected group source target revision next hi hok
      hfirst hij hsecond
    rcases moveLayer_refused hwell hids hi hok hfirst hij hsecond with ⟨actual, herror⟩
    exact ⟨⟨actual, herror⟩, after_of_error herror⟩
  · intro i group now hnow
    have hzero : ∀ group now, start.versioned? group = some now → now.2 ≤ 0 :=
      fun _ _ h => Nat.le_of_eq (hstart.revision_eq_zero h)
    have hle := hwell.revision_le (hids.take i) hzero hnow
    omega

theorem sample_revisionsTell :
    Initial empty ∧ NeverRepeats empty sample ∧ RevisionsTell empty sample ∧
      (empty.moment sample 8).perform (.moveLayer ⟨4⟩ .up (some 2)) =
        .error (.conflict ⟨3⟩ 2 3) :=
  ⟨.inl rfl, neverRepeats_sample, run_revisionsTell (.inl rfl) neverRepeats_sample, rfl⟩

end Catalog

end MapCatalog
