import MapCatalog.Proofs.Catalog.InPlace

/-! # Work in different groups

An operation on the layers of a group reads and changes the part of that group only: its entry and the layers in it.
The tables of two catalogues need not list their entries in one order, so they are compared by what a look-up finds.
-/

namespace MapCatalog

namespace Catalog

/-! ## Parts -/

def layerIn? (c : Catalog) (group : GroupId) (id : LayerId) : Option LayerEntry :=
  (c.layers.get? id).filter fun entry => decide (entry.group = group)

theorem layerIn?_eq_some_iff {c : Catalog} {group : GroupId} {id : LayerId} {entry : LayerEntry} :
    c.layerIn? group id = some entry ↔ c.layers.get? id = some entry ∧ entry.group = group := by
  simp [layerIn?, Option.filter_eq_some_iff]

theorem layerIn?_eq_none_iff {c : Catalog} {group : GroupId} {id : LayerId} :
    c.layerIn? group id = none ↔ c.groupOf? id ≠ some group := by
  simp [layerIn?, groupOf?, Option.filter_eq_none_iff]

theorem group_eq_of_get? {c : Catalog} {group : GroupId} {id : LayerId} {entry : LayerEntry}
    (hentry : c.layers.get? id = some entry) (hid : c.groupOf? id = some group) :
    entry.group = group :=
  Option.some.inj ((groupOf?_of_get? hentry).symm.trans hid)

/-- Two catalogues agree on a group, its list and its revision, and on the layers that are in it. -/
structure SamePart (group : GroupId) (left right : Catalog) : Prop where
  head : left.groups.get? group = right.groups.get? group
  layers : ∀ id, left.layerIn? group id = right.layerIn? group id

/-- Two catalogues agree on everything but the part of a group. -/
structure SameBeside (group : GroupId) (left right : Catalog) : Prop where
  order : left.order = right.order
  sections : ∀ id, left.sections.get? id = right.sections.get? id
  parts : ∀ other, other ≠ group → SamePart other left right

/-- Two catalogues agree on every record, on every list and on every revision. -/
structure Same (left right : Catalog) : Prop where
  order : left.order = right.order
  sections : ∀ id, left.sections.get? id = right.sections.get? id
  groups : ∀ id, left.groups.get? id = right.groups.get? id
  layers : ∀ id, left.layers.get? id = right.layers.get? id

namespace SamePart

variable {group : GroupId} {left middle right : Catalog}

theorem refl (group : GroupId) (c : Catalog) : SamePart group c c :=
  ⟨rfl, fun _ => rfl⟩

theorem symm (h : SamePart group left right) : SamePart group right left :=
  ⟨h.head.symm, fun id => (h.layers id).symm⟩

theorem trans (h : SamePart group left middle) (h' : SamePart group middle right) :
    SamePart group left right :=
  ⟨h.head.trans h'.head, fun id => (h.layers id).trans (h'.layers id)⟩

theorem write (h : SamePart group left right) {left' right' : Catalog} {id : LayerId}
    {found : Option LayerEntry}
    (hleft : ∀ other, left'.layers.get? other = if id = other then found else left.layers.get? other)
    (hright : ∀ other,
      right'.layers.get? other = if id = other then found else right.layers.get? other)
    (other : LayerId) : left'.layerIn? group other = right'.layerIn? group other := by
  have hother := h.layers other
  unfold layerIn? at hother ⊢
  rw [hleft, hright]
  split
  · rfl
  · exact hother

theorem insert (h : SamePart group left right) {left' right' : Catalog} {id : LayerId}
    {entry : LayerEntry} (hleft : left'.layers = left.layers.insert id entry)
    (hright : right'.layers = right.layers.insert id entry) (other : LayerId) :
    left'.layerIn? group other = right'.layerIn? group other :=
  h.write (fun _ => by rw [hleft, Table.get?_insert]) (fun _ => by rw [hright, Table.get?_insert])
    other

theorem erase (h : SamePart group left right) {left' right' : Catalog} {id : LayerId}
    (hleft : left'.layers = left.layers.erase id)
    (hright : right'.layers = right.layers.erase id) (other : LayerId) :
    left'.layerIn? group other = right'.layerIn? group other :=
  h.write (fun _ => by rw [hleft, Table.get?_erase]) (fun _ => by rw [hright, Table.get?_erase])
    other

theorem layer (h : SamePart group left right) {id : LayerId}
    (hid : left.groupOf? id = some group) :
    ∃ entry, left.layers.get? id = some entry ∧ right.layers.get? id = some entry ∧
      entry.group = group := by
  obtain ⟨entry, hleft, hgroup⟩ := groupOf?_eq_some_iff.1 hid
  have hright := (h.layers id).symm.trans (layerIn?_eq_some_iff.2 ⟨hleft, hgroup⟩)
  exact ⟨entry, hleft, (layerIn?_eq_some_iff.1 hright).1, hgroup⟩

end SamePart

namespace SameBeside

variable {group : GroupId} {left right : Catalog}

theorem refl (group : GroupId) (c : Catalog) : SameBeside group c c :=
  ⟨rfl, fun _ => rfl, fun other _ => .refl other c⟩

end SameBeside

/-- Catalogues that agree on every part agree on every layer, since each layer is in some group. -/
theorem same_of_parts {left right : Catalog} (horder : left.order = right.order)
    (hsections : ∀ id, left.sections.get? id = right.sections.get? id)
    (hparts : ∀ group, SamePart group left right) : Same left right := by
  refine ⟨horder, hsections, fun id => (hparts id).head, ?_⟩
  intro id
  apply Option.ext
  intro entry
  have hlayer := (hparts entry.group).layers id
  have hleft : left.layerIn? entry.group id = some entry ↔ left.layers.get? id = some entry := by
    simp [layerIn?_eq_some_iff]
  have hright : right.layerIn? entry.group id = some entry ↔
      right.layers.get? id = some entry := by
    simp [layerIn?_eq_some_iff]
  rw [← hleft, ← hright, hlayer]

/-! ## Reading one part only -/

/-- Operations on the layers of a group: one that puts a new layer there, or one on a layer that is
there. -/
inductive WorksIn (c : Catalog) (group : GroupId) : Operation → Prop where
  | create (id : LayerId) (fields : LayerFields) : WorksIn c group (.createLayer id group fields)
  | replace {id : LayerId} (h : c.groupOf? id = some group) (fields : LayerFields) :
      WorksIn c group (.replaceLayer id fields)
  | delete {id : LayerId} (h : c.groupOf? id = some group) : WorksIn c group (.deleteLayer id)
  | move {id : LayerId} (h : c.groupOf? id = some group) (direction : Direction)
      (expected : Option Nat) : WorksIn c group (.moveLayer id direction expected)

inductive EditsAgree {α : Type} (group : GroupId) : Edit α → Edit α → Prop where
  | failed (e : CatalogError) : EditsAgree group (.error e) (.error e)
  | done (value : α) {left right : Catalog} (h : SamePart group left right) :
      EditsAgree group (.ok (value, left)) (.ok (value, right))

theorem EditsAgree.as {α : Type} {group : GroupId} {left right : Edit α}
    (h : EditsAgree group left right) (wrap : α → Answer) :
    EditsAgree group (left.as wrap) (right.as wrap) := by
  cases h with
  | failed e =>
      exact .failed e
  | done value h =>
      exact .done (wrap value) h

namespace SamePart

variable {group : GroupId} {left right : Catalog}

theorem createLayer (h : SamePart group left right) (id : LayerId) (fields : LayerFields) :
    EditsAgree group (left.createLayer id group fields) (right.createLayer id group fields) := by
  unfold Catalog.createLayer
  rw [h.head]
  cases fields.validate with
  | error e =>
      exact .failed _
  | ok _ =>
      cases right.groups.get? group with
      | none =>
          exact .failed _
      | some entry =>
          exact .done _ ⟨by simp only [Table.get?_insert_self], h.insert rfl rfl⟩

theorem replaceLayer (h : SamePart group left right) {id : LayerId}
    (hid : left.groupOf? id = some group) (fields : LayerFields) :
    EditsAgree group (left.replaceLayer id fields) (right.replaceLayer id fields) := by
  obtain ⟨entry, hleft, hright, rfl⟩ := h.layer hid
  unfold Catalog.replaceLayer
  rw [hleft, hright]
  cases fields.validate with
  | error e =>
      exact .failed _
  | ok _ =>
      -- the layer is read back through its entry and its group, which are the same on both sides
      simp only [layer?, layerAt, Table.get?_insert_self, h.head]
      cases right.groups.get? entry.group with
      | none =>
          exact .failed _
      | some found =>
          dsimp only
          cases position? id found.layers with
          | none =>
              exact .failed _
          | some position =>
              exact .done _ ⟨h.head, h.insert rfl rfl⟩

theorem deleteLayer (h : SamePart group left right) {id : LayerId}
    (hid : left.groupOf? id = some group) :
    EditsAgree group (left.deleteLayer id) (right.deleteLayer id) := by
  obtain ⟨entry, hleft, hright, rfl⟩ := h.layer hid
  unfold Catalog.deleteLayer
  rw [hleft, hright]
  exact .done _ ⟨by simp only [Table.get?_modify, h.head], h.erase rfl rfl⟩

theorem moveLayer (h : SamePart group left right) {id : LayerId}
    (hid : left.groupOf? id = some group) (direction : Direction) (expected : Option Nat) :
    EditsAgree group (left.moveLayer id direction expected)
      (right.moveLayer id direction expected) := by
  obtain ⟨entry, hleft, hright, rfl⟩ := h.layer hid
  unfold Catalog.moveLayer
  simp only [hleft, hright, h.head]
  cases right.groups.get? entry.group with
  | none =>
      exact .failed _
  | some found =>
      dsimp only
      split
      · exact .failed _
      · cases position? id found.layers with
        | none =>
            exact .failed _
        | some position =>
            dsimp only
            cases neighbour? direction position found.layers.length with
            | none =>
                exact .done _ h
            | some neighbour =>
                exact .done _ ⟨by simp only [Table.get?_insert_self], h.layers⟩

/-- An operation on the layers of a group does the same in catalogues that agree on the group. -/
theorem perform (h : SamePart group left right) {operation : Operation}
    (hworks : WorksIn left group operation) :
    EditsAgree group (left.perform operation) (right.perform operation) := by
  cases hworks with
  | create id fields =>
      exact (h.createLayer id fields).as _
  | replace hid fields =>
      exact (h.replaceLayer hid fields).as _
  | delete hid =>
      exact (h.deleteLayer hid).as _
  | move hid direction expected =>
      exact (h.moveLayer hid direction expected).as _

theorem after (h : SamePart group left right) {operation : Operation}
    (hworks : WorksIn left group operation) :
    SamePart group (left.after operation) (right.after operation) := by
  have hagree := h.perform hworks
  unfold Catalog.after
  generalize left.perform operation = l, right.perform operation = r at hagree
  cases hagree with
  | failed e =>
      exact h
  | done value hnext =>
      exact hnext

/-- Where an operation does the same, it gives out the same identifiers. -/
theorem generated (h : SamePart group left right) {operation : Operation}
    (hworks : WorksIn left group operation) :
    left.generated [operation] = right.generated [operation] := by
  have hagree := h.perform hworks
  unfold Catalog.generated
  generalize left.perform operation = l, right.perform operation = r at hagree
  cases hagree with
  | failed e =>
      rfl
  | done value hnext =>
      rfl

end SamePart

/-! ## Changing one part only -/

/-- A change of one group and one layer is a change of the part of that group, if the layer was and is in
no other. -/
theorem sameBeside_of_writes {c next : Catalog} {group : GroupId} (id : LayerId)
    (horder : next.order = c.order) (hsections : next.sections = c.sections)
    (hgroups : ∀ other, other ≠ group → next.groups.get? other = c.groups.get? other)
    (hlayers : ∀ other, other ≠ id → next.layers.get? other = c.layers.get? other)
    (hbefore : ∀ other, c.groupOf? id = some other → other = group)
    (hafter : ∀ other, next.groupOf? id = some other → other = group) :
    SameBeside group c next := by
  refine ⟨horder.symm, fun _ => by rw [hsections], ?_⟩
  intro other hother
  refine ⟨(hgroups other hother).symm, ?_⟩
  intro layer
  by_cases hlayer : layer = id
  · have hout : c.layerIn? other layer = none :=
      layerIn?_eq_none_iff.2 fun h => hother (hbefore other (hlayer ▸ h))
    have hout' : next.layerIn? other layer = none :=
      layerIn?_eq_none_iff.2 fun h => hother (hafter other (hlayer ▸ h))
    rw [hout, hout']
  · rw [layerIn?, layerIn?, hlayers layer hlayer]

/-- An operation on the layers of a group changes nothing beside the part of that group. -/
theorem WorksIn.sameBeside {c : Catalog} {group : GroupId} {operation : Operation}
    (hworks : WorksIn c group operation) (hids : NeverRepeats c [operation]) :
    SameBeside group c (c.after operation) := by
  cases hok : c.perform operation with
  | error e =>
      rw [after_of_error hok]
      exact .refl group c
  | ok result =>
      obtain ⟨answer, next⟩ := result
      have hfresh := hids.fresh hok
      rw [after_of_ok hok]
      cases hworks with
      | create id fields =>
          obtain ⟨_, hok, -⟩ := Edit.as_eq_ok hok
          obtain ⟨-, entry, -, -, rfl⟩ := createLayer_eq_ok hok
          have hnew := c.layers.contains_eq_false_iff.1 (hfresh _ rfl)
          refine sameBeside_of_writes id rfl rfl ?_ ?_ ?_ ?_
          · intro other hother
            simp [Table.get?_insert, Ne.symm hother]
          · intro other hother
            simp [Table.get?_insert, Ne.symm hother]
          · simp [groupOf?, hnew]
          · simp [groupOf?, eq_comm]
      | @replace id hid fields =>
          obtain ⟨_, hok, -⟩ := Edit.as_eq_ok hok
          obtain ⟨-, -, entry, hentry, rfl⟩ := replaceLayer_eq_ok hok
          have hgroup := group_eq_of_get? hentry hid
          refine sameBeside_of_writes id rfl rfl (fun _ _ => rfl) ?_ ?_ ?_
          · intro other hother
            simp [Table.get?_insert, Ne.symm hother]
          · simp [hid, eq_comm]
          · simp [groupOf?, hgroup, eq_comm]
      | @delete id hid =>
          obtain ⟨_, hok, -⟩ := Edit.as_eq_ok hok
          obtain ⟨-, entry, hentry, rfl⟩ := deleteLayer_eq_ok hok
          have hgroup := group_eq_of_get? hentry hid
          refine sameBeside_of_writes id rfl rfl ?_ ?_ ?_ ?_
          · intro other hother
            simp [Table.get?_modify, hgroup, Ne.symm hother]
          · intro other hother
            simp [Table.get?_erase, Ne.symm hother]
          · simp [hid, eq_comm]
          · simp [groupOf?, Table.get?_erase]
      | @move id hid direction expected =>
          obtain ⟨_, hok, -⟩ := Edit.as_eq_ok hok
          obtain ⟨entry, found, position, hentry, -, -, -, hmove⟩ := moveLayer_eq_ok hok
          have hgroup := group_eq_of_get? hentry hid
          obtain ⟨-, -, rfl⟩ | ⟨neighbour, -, -, rfl⟩ := hmove
          · exact .refl group next
          · refine sameBeside_of_writes id rfl rfl ?_ (fun _ _ => rfl) ?_ ?_
            · intro other hother
              simp [Table.get?_insert, hgroup, Ne.symm hother]
            · simp [hid, eq_comm]
            · intro other hother
              exact Option.some.inj (hother.symm.trans hid)

/-! ## Either order -/

section EitherOrder

variable {c : Catalog} {group other : GroupId} {first second : Operation}

/-- Work beside the part of a group leaves the layers of the group to be worked on. -/
theorem WorksIn.congr {left right : Catalog} (hworks : WorksIn left group first)
    (h : SamePart group left right) : WorksIn right group first := by
  have hgroupOf : ∀ id, left.groupOf? id = some group → right.groupOf? id = some group := by
    intro id hid
    obtain ⟨entry, -, hright, hgroup⟩ := h.layer hid
    exact groupOf?_eq_some_iff.2 ⟨entry, hright, hgroup⟩
  cases hworks with
  | create id fields =>
      exact .create id fields
  | replace hid fields =>
      exact .replace (hgroupOf _ hid) fields
  | delete hid =>
      exact .delete (hgroupOf _ hid)
  | move hid direction expected =>
      exact .move (hgroupOf _ hid) direction expected

/-- Operations in different groups may give out their identifiers in either order. -/
theorem NeverRepeats.swap (hfirst : WorksIn c group first) (hsecond : WorksIn c other second)
    (hne : group ≠ other) (hids : NeverRepeats c [first, second]) :
    NeverRepeats c [second, first] := by
  have hsplit : NeverRepeats c ([first] ++ [second]) := hids
  have hbeside := hfirst.sameBeside hsplit.left
  -- the second operation gives out the same identifiers before and after the first
  have hsame : c.generated [second] = (c.after first).generated [second] :=
    (hbeside.parts other hne.symm).generated hsecond
  have hlate : c.generated [first, second] = c.generated [first] ++ c.generated [second] := by
    rw [hsame]
    exact c.generated_append [first] [second]
  have halone : NeverRepeats c [second] := by
    have hnodup := hids.nodup
    rw [hlate] at hnodup
    refine ⟨(List.nodup_append.1 hnodup).2.1, ?_⟩
    intro id hid
    exact hids.unused id (hlate ▸ List.mem_append_right _ hid)
  have hsame' : c.generated [first] = (c.after second).generated [first] :=
    ((hsecond.sameBeside halone).parts group hne).generated hfirst
  have hearly : c.generated [second, first] = c.generated [second] ++ c.generated [first] := by
    rw [hsame']
    exact c.generated_append [second] [first]
  have hperm : (c.generated [second, first]).Perm (c.generated [first, second]) := by
    rw [hearly, hlate]
    exact List.perm_append_comm
  exact ⟨hperm.nodup_iff.2 hids.nodup, fun id hid => hids.unused id (hperm.mem_iff.1 hid)⟩

/-- Operations in different groups leave the same catalogue in either order. -/
theorem same_of_apart (hfirst : WorksIn c group first) (hsecond : WorksIn c other second)
    (hne : group ≠ other) (hids : NeverRepeats c [first, second]) :
    Same ((c.after first).after second) ((c.after second).after first) := by
  have hsplit : NeverRepeats c ([first] ++ [second]) := hids
  have hsplit' : NeverRepeats c ([second] ++ [first]) := hids.swap hfirst hsecond hne
  have hone := hfirst.sameBeside hsplit.left
  have htwo := hsecond.sameBeside hsplit'.left
  have hafterOne := (hsecond.congr (hone.parts other hne.symm)).sameBeside hsplit.right
  have hafterTwo := (hfirst.congr (htwo.parts group hne)).sameBeside hsplit'.right
  refine same_of_parts ?_ ?_ ?_
  · exact (hafterOne.order.symm.trans hone.order.symm).trans (htwo.order.trans hafterTwo.order)
  · intro id
    exact ((hafterOne.sections id).symm.trans (hone.sections id).symm).trans
      ((htwo.sections id).trans (hafterTwo.sections id))
  · intro part
    by_cases hgroup : part = group
    · subst hgroup
      exact (hafterOne.parts part hne).symm.trans ((htwo.parts part hne).after hfirst)
    · by_cases hother : part = other
      · subst hother
        exact ((hone.parts part hgroup).after hsecond).symm.trans (hafterTwo.parts part hgroup)
      · exact ((hafterOne.parts part hother).symm.trans (hone.parts part hgroup).symm).trans
          ((htwo.parts part hother).trans (hafterTwo.parts part hgroup))

end EitherOrder

def told {α : Type} : EStateM.Result CatalogError Catalog α → Except CatalogError α
  | .ok value _ => .ok value
  | .error e _ => .error e

/-- Two operations in place do the same in either order. -/
structure Commutes (c : Catalog) (first second : Operation) : Prop where
  /-- The first caller is told the same, whether the second was there before or not. -/
  first_told : told (first.work.run (left (second.work.run c))) = told (first.work.run c)
  /-- The second caller is told the same, whether the first was there before or not. -/
  second_told : told (second.work.run (left (first.work.run c))) = told (second.work.run c)
  left_same : Same (left (second.work.run (left (first.work.run c))))
    (left (first.work.run (left (second.work.run c))))

/-- An operation in place tells the same in catalogues that agree on its group. -/
theorem told_work {left right : Catalog} {group : GroupId} {operation : Operation}
    (hleft : WellFormed left) (hright : WellFormed right) (h : SamePart group left right)
    (hworks : WorksIn left group operation) :
    told (operation.work.run left) = told (operation.work.run right) := by
  rw [hleft.run_work, hright.run_work]
  have hagree := h.perform hworks
  generalize left.perform operation = l, right.perform operation = r at hagree
  cases hagree with
  | failed e =>
      rfl
  | done value hnext =>
      rfl

/-- Callers that work on the layers of different groups do not notice each other: in whichever order their
operations come, each is told the same and the same catalogue is left. -/
theorem different_groups_commute {c : Catalog} (hreached : Reachable c) {group other : GroupId}
    (hne : group ≠ other) {first second : Operation} (hfirst : WorksIn c group first)
    (hsecond : WorksIn c other second) (hids : NeverRepeats c [first, second]) :
    Commutes c first second := by
  have hc := hreached.wellFormed
  have hsplit : NeverRepeats c ([first] ++ [second]) := hids
  have hsplit' : NeverRepeats c ([second] ++ [first]) := hids.swap hfirst hsecond hne
  have hone : WellFormed (c.after first) := hc.run hsplit.left
  have htwo : WellFormed (c.after second) := hc.run hsplit'.left
  refine ⟨?_, ?_, ?_⟩
  · rw [hc.left_work second]
    exact (told_work hc htwo ((hsecond.sameBeside hsplit'.left).parts group hne) hfirst).symm
  · rw [hc.left_work first]
    exact (told_work hc hone ((hfirst.sameBeside hsplit.left).parts other hne.symm) hsecond).symm
  · rw [hc.left_work, hc.left_work, hone.left_work, htwo.left_work]
    exact same_of_apart hfirst hsecond hne hids

/-! ## A sample -/

def sampleGroups : List Operation :=
  sample ++
    [.createGroup ⟨6⟩ (.named "Places" ⟨2⟩),
     .createLayer ⟨7⟩ ⟨6⟩ (.named "Towns" default default)]

theorem reachable_sampleGroups : Reachable (empty.run sampleGroups) :=
  ⟨empty, sampleGroups, .inl rfl, ⟨by decide, by decide⟩, rfl⟩

/-- A layer of the first group moves up, while a new one comes to the second. -/
theorem sample_groups_commute :
    Reachable (empty.run sampleGroups) ∧
      Commutes (empty.run sampleGroups) (.moveLayer ⟨4⟩ .up (some 3))
        (.createLayer ⟨8⟩ ⟨6⟩ (.named "Ports" default default)) ∧
      told ((Operation.moveLayer ⟨4⟩ .up (some 3)).work.run (empty.run sampleGroups)) =
        .ok (.moved (.moved 1 0 4)) := by
  have hfirst : WorksIn (empty.run sampleGroups) ⟨3⟩ (.moveLayer ⟨4⟩ .up (some 3)) :=
    .move (by decide) .up (some 3)
  refine ⟨reachable_sampleGroups, ?_, by decide⟩
  exact different_groups_commute reachable_sampleGroups (by decide) hfirst (.create _ _)
    ⟨by decide, by decide⟩

end Catalog

end MapCatalog
