import MapCatalog.Proofs.Catalog.Loading

/-! # Histories

Callers that work at the same time are callers whose operations come in some order.  No identifier that a run gives
out was in the store at its start or has been given out before.
-/

namespace MapCatalog

abbrev RecordId :=
  (tier : Tier) × Id tier

def Operation.newId? : Operation → Option RecordId
  | .createSection id _ => some ⟨.sections, id⟩
  | .createGroup id _ => some ⟨.groups, id⟩
  | .createLayer id _ _ => some ⟨.layers, id⟩
  | _ => none

namespace Catalog

def holds (c : Catalog) : RecordId → Bool
  | ⟨.sections, id⟩ => c.sections.contains id
  | ⟨.groups, id⟩ => c.groups.contains id
  | ⟨.layers, id⟩ => c.layers.contains id

def generated (c : Catalog) : List Operation → List RecordId
  | [] => []
  | operation :: rest =>
      match c.perform operation with
      | .error _ => c.generated rest
      | .ok (_, c) => operation.newId?.toList ++ c.generated rest

/-- No identifier is given out twice, and none that is in use at the start. -/
structure NeverRepeats (c : Catalog) (history : List Operation) : Prop where
  nodup : (c.generated history).Nodup
  unused : ∀ id ∈ c.generated history, c.holds id = false

/-- The identifier of a new record is not in use. -/
def Fresh (c : Catalog) (operation : Operation) : Prop :=
  ∀ id, operation.newId? = some id → c.holds id = false

/-- A catalogue with which a store starts. -/
def Initial (c : Catalog) : Prop :=
  c = empty ∨ ∃ snapshot, ofSnapshot snapshot = .ok c

/-- A catalogue at which some run of a store arrives. -/
def Reachable (c : Catalog) : Prop :=
  ∃ start history, Initial start ∧ NeverRepeats start history ∧ c = start.run history

/-! ## Single steps -/

theorem Edit.as_eq_ok {α : Type} {edit : Edit α} {wrap : α → Answer} {answer : Answer}
    {after : Catalog} (h : edit.as wrap = .ok (answer, after)) :
    ∃ value, edit = .ok (value, after) ∧ answer = wrap value := by
  unfold Edit.as at h
  split at h
  · cases h
  · cases h
    exact ⟨_, rfl, rfl⟩

theorem after_of_error {c : Catalog} {operation : Operation} {error : CatalogError}
    (h : c.perform operation = .error error) : c.after operation = c := by
  simp [after, h]

theorem after_of_ok {c next : Catalog} {operation : Operation} {answer : Answer}
    (h : c.perform operation = .ok (answer, next)) : c.after operation = next := by
  simp [after, h]

/-- An operation whose new identifier is not in use keeps a catalogue well formed. -/
theorem WellFormed.perform {c next : Catalog} (h : WellFormed c) {operation : Operation}
    {answer : Answer} (hfresh : Fresh c operation)
    (hok : c.perform operation = .ok (answer, next)) : WellFormed next := by
  cases operation with
  | createSection id fields =>
      rcases Edit.as_eq_ok hok with ⟨_, hok, -⟩
      exact h.createSection (c.sections.contains_eq_false_iff.1 (hfresh _ rfl)) hok
  | createGroup id fields =>
      rcases Edit.as_eq_ok hok with ⟨_, hok, -⟩
      exact h.createGroup (c.groups.contains_eq_false_iff.1 (hfresh _ rfl)) hok
  | createLayer id group fields =>
      rcases Edit.as_eq_ok hok with ⟨_, hok, -⟩
      exact h.createLayer (c.layers.contains_eq_false_iff.1 (hfresh _ rfl)) hok
  | replaceSection id fields =>
      rcases Edit.as_eq_ok hok with ⟨_, hok, -⟩
      exact h.replaceSection hok
  | replaceGroup id fields =>
      rcases Edit.as_eq_ok hok with ⟨_, hok, -⟩
      exact h.replaceGroup hok
  | replaceLayer id fields =>
      rcases Edit.as_eq_ok hok with ⟨_, hok, -⟩
      exact h.replaceLayer hok
  | deleteSection id =>
      rcases Edit.as_eq_ok hok with ⟨_, hok, -⟩
      exact h.deleteSection hok
  | deleteGroup id =>
      rcases Edit.as_eq_ok hok with ⟨_, hok, -⟩
      exact h.deleteGroup hok
  | deleteLayer id =>
      rcases Edit.as_eq_ok hok with ⟨_, hok, -⟩
      exact h.deleteLayer hok
  | moveLayer id direction expected =>
      rcases Edit.as_eq_ok hok with ⟨_, hok, -⟩
      exact h.moveLayer hok

/-- An operation brings in no record but the one that it creates. -/
theorem holds_of_perform {c next : Catalog} {operation : Operation} {answer : Answer}
    (hok : c.perform operation = .ok (answer, next)) {id : RecordId} (hid : next.holds id = true) :
    c.holds id = true ∨ operation.newId? = some id := by
  cases operation with
  | createSection new fields =>
      rcases Edit.as_eq_ok hok with ⟨_, hok, -⟩
      rcases createSection_eq_ok hok with ⟨-, -, rfl⟩
      rcases id with ⟨_ | _ | _, id⟩ <;>
        simp_all [holds, Operation.newId?, Table.contains_insert, or_comm]
  | createGroup new fields =>
      rcases Edit.as_eq_ok hok with ⟨_, hok, -⟩
      rcases createGroup_eq_ok hok with ⟨-, -, entry, hentry, rfl⟩
      rcases id with ⟨_ | _ | _, id⟩ <;>
        simp_all [holds, Operation.newId?, Table.contains_insert,
          Table.contains_insert_of_get? hentry, or_comm]
  | createLayer new group fields =>
      rcases Edit.as_eq_ok hok with ⟨_, hok, -⟩
      rcases createLayer_eq_ok hok with ⟨-, entry, hentry, -, rfl⟩
      rcases id with ⟨_ | _ | _, id⟩ <;>
        simp_all [holds, Operation.newId?, Table.contains_insert,
          Table.contains_insert_of_get? hentry, or_comm]
  | replaceSection target fields =>
      rcases Edit.as_eq_ok hok with ⟨_, hok, -⟩
      rcases replaceSection_eq_ok hok with ⟨-, -, entry, hentry, rfl⟩
      rcases id with ⟨_ | _ | _, id⟩ <;>
        simp_all [holds, Table.contains_insert_of_get? hentry]
  | replaceGroup target fields =>
      rcases Edit.as_eq_ok hok with ⟨_, hok, -⟩
      rcases replaceGroup_eq_ok hok with ⟨-, -, -, entry, hentry, rfl⟩
      rcases id with ⟨_ | _ | _, id⟩ <;>
        simp_all [holds, contains_moveGroup, Table.contains_insert_of_get? hentry]
  | replaceLayer target fields =>
      rcases Edit.as_eq_ok hok with ⟨_, hok, -⟩
      rcases replaceLayer_eq_ok hok with ⟨-, -, entry, hentry, rfl⟩
      rcases id with ⟨_ | _ | _, id⟩ <;>
        simp_all [holds, Table.contains_insert_of_get? hentry]
  | deleteSection target =>
      rcases Edit.as_eq_ok hok with ⟨_, hok, -⟩
      rcases deleteSection_eq_ok hok with ⟨entry, hentry, -, rfl⟩
      rcases id with ⟨_ | _ | _, id⟩ <;>
        simp_all [holds, contains_dropGroups_groups, contains_dropGroups_layers,
          dropGroups_sections, detachSection, Table.contains_erase]
  | deleteGroup target =>
      rcases Edit.as_eq_ok hok with ⟨_, hok, -⟩
      rcases deleteGroup_eq_ok hok with ⟨entry, hentry, -, rfl⟩
      rcases id with ⟨_ | _ | _, id⟩ <;>
        simp_all [holds, contains_dropGroups_groups, contains_dropGroups_layers,
          dropGroups_sections, detachGroup, Table.contains_modify]
  | deleteLayer target =>
      rcases Edit.as_eq_ok hok with ⟨_, hok, -⟩
      rcases deleteLayer_eq_ok hok with ⟨-, entry, hentry, rfl⟩
      rcases id with ⟨_ | _ | _, id⟩ <;>
        simp_all [holds, Table.contains_modify, Table.contains_erase]
  | moveLayer target direction expected =>
      rcases Edit.as_eq_ok hok with ⟨_, hok, -⟩
      rcases moveLayer_eq_ok hok with ⟨entry, group, position, -, hgroup, -, -, hmove⟩
      obtain ⟨-, -, rfl⟩ | ⟨neighbour, -, -, rfl⟩ := hmove
      · exact .inl hid
      · rcases id with ⟨_ | _ | _, id⟩ <;>
          simp_all [holds, Table.contains_insert_of_get? hgroup]

/-! ## Runs -/

def moment (c : Catalog) (history : List Operation) (i : Nat) : Catalog :=
  c.run (history.take i)

theorem run_append (c : Catalog) (first second : List Operation) :
    c.run (first ++ second) = (c.run first).run second :=
  List.foldl_append

theorem moment_succ {c : Catalog} {history : List Operation} {i : Nat} {operation : Operation}
    (h : history[i]? = some operation) :
    c.moment history (i + 1) = (c.moment history i).after operation := by
  rw [moment, List.take_add_one, h, run_append]
  rfl

theorem take_eq_append_drop {α : Type} (xs : List α) {i j : Nat} (h : i ≤ j) :
    xs.take j = xs.take i ++ (xs.take j).drop i := by
  conv_lhs => rw [← List.take_append_drop i (xs.take j), List.take_take, Nat.min_eq_left h]

/-- A later moment is arrived at from an earlier one. -/
theorem moment_of_le (c : Catalog) (history : List Operation) {i j : Nat} (h : i ≤ j) :
    c.moment history j = (c.moment history i).run ((history.take j).drop i) := by
  have hsplit := congrArg c.run (take_eq_append_drop history h)
  exact hsplit.trans (c.run_append _ _)

theorem generated_cons_of_ok {c next : Catalog} {operation : Operation} {answer : Answer}
    (h : c.perform operation = .ok (answer, next)) (rest : List Operation) :
    c.generated (operation :: rest) = operation.newId?.toList ++ next.generated rest := by
  simp [generated, h]

theorem generated_cons_of_error {c : Catalog} {operation : Operation} {error : CatalogError}
    (h : c.perform operation = .error error) (rest : List Operation) :
    c.generated (operation :: rest) = c.generated rest := by
  simp [generated, h]

theorem generated_append (c : Catalog) (first second : List Operation) :
    c.generated (first ++ second) = c.generated first ++ (c.run first).generated second := by
  induction first generalizing c with
  | nil =>
      rfl
  | cons operation rest ih =>
      rw [List.cons_append, run, List.foldl_cons, ← run]
      cases h : c.perform operation with
      | error error =>
          rw [generated_cons_of_error h, generated_cons_of_error h, after_of_error h, ih]
      | ok result =>
          rw [generated_cons_of_ok h, generated_cons_of_ok h, after_of_ok h, ih,
            List.append_assoc]

theorem holds_of_run {c : Catalog} {history : List Operation} {id : RecordId}
    (h : (c.run history).holds id = true) : c.holds id = true ∨ id ∈ c.generated history := by
  induction history generalizing c with
  | nil =>
      exact .inl h
  | cons operation rest ih =>
      rw [run, List.foldl_cons, ← run] at h
      cases hperform : c.perform operation with
      | error error =>
          rw [after_of_error hperform] at h
          rw [generated_cons_of_error hperform]
          exact ih h
      | ok result =>
          rw [after_of_ok hperform] at h
          rw [generated_cons_of_ok hperform, List.mem_append, Option.mem_toList]
          rcases ih h with hnext | hrest
          · rcases holds_of_perform hperform hnext with hold | hnew
            · exact .inl hold
            · exact .inr (.inl hnew)
          · exact .inr (.inr hrest)

namespace NeverRepeats

variable {c : Catalog} {first second : List Operation}

theorem left (h : NeverRepeats c (first ++ second)) : NeverRepeats c first := by
  have hnodup := h.nodup
  have hunused := h.unused
  rw [generated_append] at hnodup hunused
  exact ⟨(List.nodup_append.1 hnodup).1, fun id hid => hunused id (List.mem_append_left _ hid)⟩

theorem right (h : NeverRepeats c (first ++ second)) : NeverRepeats (c.run first) second := by
  have hnodup := h.nodup
  have hunused := h.unused
  rw [generated_append] at hnodup hunused
  obtain ⟨-, hsecond, hdisjoint⟩ := List.nodup_append.1 hnodup
  refine ⟨hsecond, ?_⟩
  intro id hid
  apply Bool.eq_false_iff.2
  intro hheld
  rcases holds_of_run hheld with hstart | hfirst
  · rw [hunused id (List.mem_append_right _ hid)] at hstart
    cases hstart
  · exact hdisjoint id hfirst id hid rfl

/-- An operation that succeeds gives its new record an identifier that is not in use. -/
theorem fresh {operation : Operation} {rest : List Operation} {answer : Answer} {next : Catalog}
    (h : NeverRepeats c (operation :: rest)) (hok : c.perform operation = .ok (answer, next)) :
    Fresh c operation := by
  intro id hid
  refine h.unused id ?_
  rw [generated_cons_of_ok hok, hid]
  exact List.mem_append_left _ List.mem_cons_self

theorem take (h : NeverRepeats c first) (i : Nat) : NeverRepeats c (first.take i) :=
  left ((List.take_append_drop i first).symm ▸ h)

theorem between (h : NeverRepeats c first) {i j : Nat} (hij : i ≤ j) :
    NeverRepeats (c.moment first i) ((first.take j).drop i) :=
  right (take_eq_append_drop first hij ▸ h.take j)

theorem at_moment (h : NeverRepeats c first) {i : Nat} {operation : Operation}
    (hi : first[i]? = some operation) : NeverRepeats (c.moment first i) [operation] := by
  have hnext := h.take (i + 1)
  rw [List.take_add_one, hi] at hnext
  exact hnext.right

/-- A record that is gone does not come back. -/
theorem holds_between (h : NeverRepeats c (first ++ second)) {id : RecordId}
    (hstart : c.holds id = true) (hend : (c.run (first ++ second)).holds id = true) :
    (c.run first).holds id = true := by
  rw [run_append] at hend
  rcases holds_of_run hend with hmid | hnew
  · exact hmid
  · have hgenerated : id ∈ c.generated (first ++ second) := by
      rw [generated_append]
      exact List.mem_append_right _ hnew
    rw [h.unused id hgenerated] at hstart
    cases hstart

/-- A record that is there at two moments is there at every moment between. -/
theorem holds_at (h : NeverRepeats c first) {i k j : Nat} (hik : i ≤ k) (hkj : k ≤ j)
    {id : RecordId} (hi : (c.moment first i).holds id = true)
    (hj : (c.moment first j).holds id = true) : (c.moment first k).holds id = true := by
  have hsplit : first.take j =
      first.take i ++ ((first.take k).drop i ++ (first.take j).drop k) := by
    rw [← List.append_assoc, ← take_eq_append_drop first hik, ← take_eq_append_drop first hkj]
  have hids : NeverRepeats (c.moment first i) ((first.take k).drop i ++ (first.take j).drop k) :=
    right (hsplit ▸ h.take j)
  have hend : c.moment first j =
      (c.moment first i).run ((first.take k).drop i ++ (first.take j).drop k) :=
    (congrArg c.run hsplit).trans (c.run_append _ _)
  rw [hend] at hj
  rw [moment_of_le c first hik]
  exact hids.holds_between hi hj

/-- What every successful operation with a new identifier keeps, a run keeps. -/
theorem run_induction {motive : Catalog → Prop} {history : List Operation}
    (h : NeverRepeats c history) (hstart : motive c)
    (hstep : ∀ c operation answer next, motive c → Fresh c operation →
      c.perform operation = .ok (answer, next) → motive next) : motive (c.run history) := by
  induction history generalizing c with
  | nil =>
      exact hstart
  | cons operation rest ih =>
      have hsplit : NeverRepeats c ([operation] ++ rest) := h
      have hrest : NeverRepeats (c.after operation) rest := hsplit.right
      rw [run, List.foldl_cons, ← run]
      refine ih hrest ?_
      cases hok : c.perform operation with
      | error error =>
          rw [after_of_error hok]
          exact hstart
      | ok result =>
          rw [after_of_ok hok]
          exact hstep c operation result.1 result.2 hstart (h.fresh hok) hok

end NeverRepeats

theorem WellFormed.run {c : Catalog} {history : List Operation} (h : WellFormed c)
    (hids : NeverRepeats c history) : WellFormed (c.run history) :=
  hids.run_induction h fun _ _ _ _ hc hfresh hok => hc.perform hfresh hok

theorem Initial.wellFormed {c : Catalog} (h : Initial c) : WellFormed c := by
  rcases h with rfl | ⟨snapshot, hload⟩
  · exact wellFormed_empty
  · exact wellFormed_ofTrees hload

theorem Reachable.wellFormed {c : Catalog} (h : Reachable c) : WellFormed c := by
  obtain ⟨start, history, hstart, hids, rfl⟩ := h
  exact hstart.wellFormed.run hids

/-! ## A sample -/

/-- A group with two layers changes its section, its first section goes, and its layers change places;
the last caller has missed that and is refused. -/
def sample : List Operation :=
  [.createSection ⟨1⟩ ⟨"Base"⟩,
   .createSection ⟨2⟩ ⟨"Overlays"⟩,
   .createGroup ⟨3⟩ (.named "Roads" ⟨1⟩),
   .createLayer ⟨4⟩ ⟨3⟩ (.named "Lines" default default),
   .createLayer ⟨5⟩ ⟨3⟩ (.named "Labels" default default),
   .replaceGroup ⟨3⟩ (.named "Streets" ⟨2⟩),
   .deleteSection ⟨1⟩,
   .moveLayer ⟨5⟩ .up (some 2),
   .moveLayer ⟨4⟩ .up (some 2)]

theorem neverRepeats_sample : NeverRepeats empty sample :=
  ⟨by decide, by decide⟩

theorem reachable_sample : Reachable (empty.run sample) :=
  ⟨empty, sample, .inl rfl, neverRepeats_sample, rfl⟩

end Catalog

end MapCatalog
