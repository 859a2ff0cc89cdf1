import Mathlib.Data.List.Nodup

/-! # Lists of children and pointers to parents

Every parent lists its children, and every child names its parent.  The lemmas say which changes of both sides keep
them linked; the two lower tiers share them.
-/

namespace MapCatalog

/-- A child stands in the list of the parent that it names, once, and in no other list. -/
structure Linked {π κ : Type} (children : π → List κ) (parent? : κ → Option π) : Prop where
  nodup : ∀ parent, (children parent).Nodup
  mem_iff : ∀ parent child, child ∈ children parent ↔ parent? child = some parent

namespace Linked

variable {π κ : Type} {children after : π → List κ} {parent? parentAfter? : κ → Option π}

theorem congr (h : Linked children parent?) (hchildren : ∀ p, after p = children p)
    (hparent : ∀ k, parentAfter? k = parent? k) : Linked after parentAfter? := by
  constructor
  · intro p
    rw [hchildren]
    exact h.nodup p
  · intro p k
    rw [hchildren, hparent]
    exact h.mem_iff p k

theorem not_mem_of_none (h : Linked children parent?) {k : κ} (hk : parent? k = none) (p : π) :
    k ∉ children p := by
  rw [h.mem_iff, hk]
  simp

theorem parent_unique (h : Linked children parent?) {p q : π} {k : κ}
    (hp : k ∈ children p) (hq : k ∈ children q) : p = q := by
  have hparent := (h.mem_iff p k).1 hp
  rw [(h.mem_iff q k).1 hq] at hparent
  exact (Option.some.inj hparent).symm

/-- Filtering a child out changes the list of its parent alone. -/
theorem filter_of_ne [DecidableEq κ] (h : Linked children parent?) {p q : π} {k : κ}
    (hk : parent? k = some p) (hne : p ≠ q) :
    (children q).filter (fun other => decide (other ≠ k)) = children q := by
  apply List.filter_eq_self.2
  intro other hother
  have hok : other ≠ k := by
    intro heq
    exact hne (h.parent_unique ((h.mem_iff p k).2 hk) (heq ▸ hother))
  simpa using hok

theorem perm (h : Linked children parent?) (hchildren : ∀ p, (after p).Perm (children p))
    (hparent : ∀ k, parentAfter? k = parent? k) : Linked after parentAfter? := by
  constructor
  · intro p
    exact (hchildren p).nodup_iff.2 (h.nodup p)
  · intro p k
    rw [(hchildren p).mem_iff, hparent]
    exact h.mem_iff p k

/-- A child without a parent may be put behind the children of a parent. -/
theorem append [DecidableEq π] [DecidableEq κ] (h : Linked children parent?) (parent : π)
    (child : κ) (hnew : parent? child = none)
    (hchildren : ∀ p, after p = if parent = p then children p ++ [child] else children p)
    (hparent : ∀ k, parentAfter? k = if child = k then some parent else parent? k) :
    Linked after parentAfter? := by
  have hmem := h.not_mem_of_none hnew
  constructor
  · intro p
    rw [hchildren]
    split
    · refine List.nodup_append.2 ⟨h.nodup p, by simp, ?_⟩
      intro k hk other hother heq
      have hchild : other = child := by simpa using hother
      exact hmem p (hchild ▸ heq ▸ hk)
    · exact h.nodup p
  · intro p k
    rw [hchildren, hparent]
    by_cases hp : parent = p <;> by_cases hk : child = k
    · simp [hp, hk]
    · simp [hp, hk, Ne.symm hk, h.mem_iff]
    · subst hk
      simp [hp, hmem p]
    · simp [hp, hk, h.mem_iff]

/-- A child may be taken out of every list when it forgets its parent. -/
theorem remove [DecidableEq κ] (h : Linked children parent?) (child : κ)
    (hchildren : ∀ p, after p = (children p).filter fun k => decide (k ≠ child))
    (hparent : ∀ k, parentAfter? k = if child = k then none else parent? k) :
    Linked after parentAfter? := by
  constructor
  · intro p
    rw [hchildren]
    exact (h.nodup p).filter _
  · intro p k
    rw [hchildren, hparent, List.mem_filter, h.mem_iff]
    by_cases hk : child = k
    · simp [hk]
    · simp [hk, Ne.symm hk]

theorem drop (h : Linked children parent?) (gone : π → Bool)
    (hchildren : ∀ p, after p = if gone p then [] else children p)
    (hparent : ∀ k, parentAfter? k = (parent? k).filter fun p => !gone p) :
    Linked after parentAfter? := by
  constructor
  · intro p
    rw [hchildren]
    split
    · exact List.nodup_nil
    · exact h.nodup p
  · intro p k
    rw [hchildren, hparent, Option.filter_eq_some_iff, ← h.mem_iff]
    cases hp : gone p <;> simp

/-! ## All children -/

theorem nodup_flatMap (h : Linked children parent?) {parents : List π} (hp : parents.Nodup) :
    (parents.flatMap children).Nodup := by
  refine List.nodup_flatMap.2 ⟨fun p _ => h.nodup p, ?_⟩
  apply hp.imp
  intro p q hne k hk hq
  exact hne (h.parent_unique hk hq)

theorem mem_flatMap (h : Linked children parent?) {parents : List π} {k : κ} :
    k ∈ parents.flatMap children ↔ ∃ p ∈ parents, parent? k = some p := by
  simp [List.mem_flatMap, h.mem_iff]

end Linked

end MapCatalog
