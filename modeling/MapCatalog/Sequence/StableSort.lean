/-! # Stable sorting -/

namespace MapCatalog

namespace Sequence

variable {α : Type}

/-- Put an element in front of the first one whose key is not smaller. -/
def insertByKey (key : α → Int) (x : α) : List α → List α
  | [] => [x]
  | y :: rest => if key x ≤ key y then x :: y :: rest else y :: insertByKey key x rest

/-- Sort by key; elements of one key keep their order. -/
def stableSort (key : α → Int) : List α → List α
  | [] => []
  | x :: rest => insertByKey key x (stableSort key rest)

theorem insertByKey_perm (key : α → Int) (x : α) (xs : List α) :
    (insertByKey key x xs).Perm (x :: xs) := by
  induction xs with
  | nil =>
      simp [insertByKey]
  | cons y rest ih =>
      simp only [insertByKey]
      split
      · exact List.Perm.refl _
      · exact (List.Perm.cons y ih).trans (List.Perm.swap x y rest)

theorem stableSort_perm (key : α → Int) (xs : List α) :
    (stableSort key xs).Perm xs := by
  induction xs with
  | nil =>
      simp [stableSort]
  | cons x rest ih =>
      exact (insertByKey_perm key x _).trans (List.Perm.cons x ih)

theorem insertByKey_pairwise {key : α → Int} {x : α} {xs : List α}
    (h : xs.Pairwise fun a b => key a ≤ key b) :
    (insertByKey key x xs).Pairwise fun a b => key a ≤ key b := by
  induction xs with
  | nil =>
      simp [insertByKey]
  | cons y rest ih =>
      have hrest := List.pairwise_cons.1 h
      simp only [insertByKey]
      split
      next hle =>
        refine List.pairwise_cons.2 ⟨?_, h⟩
        intro z hz
        rcases List.mem_cons.1 hz with rfl | hz
        · exact hle
        · exact Int.le_trans hle (hrest.1 z hz)
      next hgt =>
        refine List.pairwise_cons.2 ⟨?_, ih hrest.2⟩
        intro z hz
        rcases List.mem_cons.1 ((insertByKey_perm key x rest).mem_iff.1 hz) with rfl | hz
        · omega
        · exact hrest.1 z hz

theorem stableSort_pairwise (key : α → Int) (xs : List α) :
    (stableSort key xs).Pairwise fun a b => key a ≤ key b := by
  induction xs with
  | nil =>
      simp [stableSort]
  | cons x rest ih =>
      exact insertByKey_pairwise ih

/-- Elements of one key come out in the order in which they went in. -/
theorem filter_stableSort (key : α → Int) (k : Int) (xs : List α) :
    (stableSort key xs).filter (fun a => key a == k) = xs.filter (fun a => key a == k) := by
  have hinsert : ∀ (x : α) (ys : List α),
      (insertByKey key x ys).filter (fun a => key a == k) =
        (x :: ys).filter (fun a => key a == k) := by
    intro x ys
    induction ys with
    | nil =>
        simp [insertByKey]
    | cons y rest ih =>
        simp only [insertByKey]
        split
        · rfl
        · rename_i hgt
          rw [List.filter_cons, ih]
          by_cases hx : key x = k <;> by_cases hy : key y = k <;>
            simp [hx, hy]
          omega
  induction xs with
  | nil =>
      simp [stableSort]
  | cons x rest ih =>
      rw [stableSort, hinsert, List.filter_cons, List.filter_cons, ih]

theorem insertByKey_append {key : α → Int} {x : α} {before after : List α}
    (hbefore : ∀ y ∈ before, key y < key x) (hafter : ∀ y ∈ after, key x ≤ key y) :
    insertByKey key x (before ++ after) = before ++ x :: after := by
  induction before with
  | nil =>
      cases after with
      | nil =>
          rfl
      | cons y rest =>
          simp [insertByKey, hafter y List.mem_cons_self]
  | cons y rest ih =>
      have hy : ¬ key x ≤ key y := by
        have hlt := hbefore y List.mem_cons_self
        omega
      have hrest := ih fun z hz => hbefore z (List.mem_cons_of_mem y hz)
      simp [insertByKey, hy, hrest]

theorem decide_key_trans (key : α → Int) (a b c : α) (hab : decide (key a ≤ key b) = true)
    (hbc : decide (key b ≤ key c) = true) : decide (key a ≤ key c) = true :=
  decide_eq_true (Int.le_trans (of_decide_eq_true hab) (of_decide_eq_true hbc))

theorem decide_key_total (key : α → Int) (a b : α) :
    (decide (key a ≤ key b) || decide (key b ≤ key a)) = true := by
  simp only [Bool.or_eq_true, decide_eq_true_eq]
  omega

theorem stableSort_eq_mergeSort (key : α → Int) (xs : List α) :
    stableSort key xs = xs.mergeSort fun a b => decide (key a ≤ key b) := by
  have htrans := decide_key_trans key
  have htotal := decide_key_total key
  induction xs with
  | nil =>
      simp [stableSort]
  | cons x rest ih =>
      obtain ⟨before, after, hcons, hrest, hbefore⟩ := List.mergeSort_cons htrans htotal x rest
      have hsorted := List.pairwise_mergeSort htrans htotal (x :: rest)
      rw [hcons, List.pairwise_append, List.pairwise_cons] at hsorted
      rw [stableSort, ih, hrest, hcons]
      refine insertByKey_append ?_ ?_
      · intro y hy
        have hnot := hbefore y hy
        simp only [Bool.not_eq_true', decide_eq_false_iff_not] at hnot
        omega
      · intro y hy
        exact of_decide_eq_true (hsorted.2.1.1 y hy)

theorem stableSort_of_pairwise {key : α → Int} {xs : List α}
    (h : xs.Pairwise fun a b => key a ≤ key b) : stableSort key xs = xs := by
  rw [stableSort_eq_mergeSort]
  exact List.mergeSort_of_pairwise (h.imp fun hle => decide_eq_true hle)

theorem pair_sublist_stableSort {key : α → Int} {a b : α} {xs : List α} (hle : key a ≤ key b)
    (h : [a, b].Sublist xs) : [a, b].Sublist (stableSort key xs) := by
  rw [stableSort_eq_mergeSort]
  exact List.pair_sublist_mergeSort (decide_key_trans key) (decide_key_total key)
    (decide_eq_true hle) h

theorem map_insertByKey {β : Type} (f : β → α) (key : α → Int) (x : β) (xs : List β) :
    (insertByKey (fun y => key (f y)) x xs).map f = insertByKey key (f x) (xs.map f) := by
  induction xs with
  | nil =>
      rfl
  | cons y rest ih =>
      simp only [insertByKey, List.map_cons]
      split
      · rfl
      · rw [List.map_cons, ih]

theorem map_stableSort {β : Type} (f : β → α) (key : α → Int) (xs : List β) :
    (stableSort (fun y => key (f y)) xs).map f = stableSort key (xs.map f) := by
  induction xs with
  | nil =>
      rfl
  | cons x rest ih =>
      rw [stableSort, map_insertByKey, ih, List.map_cons, stableSort]

end Sequence

end MapCatalog
