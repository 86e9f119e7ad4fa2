import GoConventions.Order.Sorting

/-!
# Sorted lists

A sorted list is in ascending order, and elements that compare equal stand in it as they stood in
the input.  Both facts are one relation between an element and all later ones, `Precedes`, so a
sorted list is described by a single pairwise statement; and since that relation is asymmetric, the
statement determines the list.

## Main definitions

* `Precedes cmp earlier`: the relation of an element of a sorted list to the later ones.

## Main results

* `sortBy_pairwise_precedes`: sorting is stable.
* `sortBy_eq_of_perm`: a list in this order is the sorted form of its permutations.
* `sortBy_perm_eq`: where only equal elements compare equal, the input may be permuted.
* `sortBy_filter`, `sortBy_map`: sorting commutes with choosing and with renaming elements.
* `sublist_sortBy`: ties stay in their order.
-/

namespace GoConventions

open Std (TransCmp OrientedCmp)

variable {α : Type} {cmp : α → α → Ordering} {earlier : α → α → Prop}

/-- `x` compares below `y`, or equal to it and stood before it. -/
def Precedes (cmp : α → α → Ordering) (earlier : α → α → Prop) (x y : α) : Prop :=
  cmp x y = .lt ∨ cmp x y = .eq ∧ earlier x y

theorem Precedes.isLE {x y : α} (h : Precedes cmp earlier x y) : (cmp x y).isLE = true := by
  rcases h with h | ⟨h, -⟩ <;> simp [h]

theorem precedes_of_isLE {x y : α} (h : (cmp x y).isLE = true) (he : earlier x y) :
    Precedes cmp earlier x y := by
  rcases Ordering.isLE_iff_eq_lt_or_eq_eq.mp h with h | h
  · exact Or.inl h
  · exact Or.inr ⟨h, he⟩

theorem Precedes.asymm [OrientedCmp cmp] (hasymm : ∀ x y, earlier x y → ¬ earlier y x) {x y : α}
    (h : Precedes cmp earlier x y) : ¬ Precedes cmp earlier y x := by
  rintro (h' | ⟨h', he'⟩)
  · exact OrientedCmp.not_lt_of_isLE h.isLE h'
  · rcases h with h | ⟨-, he⟩
    · rw [OrientedCmp.eq_comm] at h'
      simp [h'] at h
    · exact hasymm x y he he'

/-- Insertion keeps the order, if the new element stood before all others. -/
theorem insertBy_pairwise_precedes [TransCmp cmp] {x : α} {ys : List α}
    (hx : ∀ y ∈ ys, earlier x y) (h : ys.Pairwise (Precedes cmp earlier)) :
    (insertBy cmp x ys).Pairwise (Precedes cmp earlier) := by
  induction ys with
  | nil => simp [insertBy]
  | cons y ys ih =>
    obtain ⟨hy, hys⟩ := List.pairwise_cons.mp h
    unfold insertBy
    split
    case isTrue hle =>
      refine List.pairwise_cons.mpr ⟨fun z hz => ?_, h⟩
      -- All later elements compare above `y`, and so above `x`.
      have hxz : (cmp x z).isLE = true := by
        rcases List.mem_cons.mp hz with rfl | hz'
        · exact hle
        · exact TransCmp.isLE_trans hle (hy z hz').isLE
      exact precedes_of_isLE hxz (hx z hz)
    case isFalse hgt =>
      refine List.pairwise_cons.mpr ⟨fun z hz => ?_, ih (fun z hz => hx z (by simp [hz])) hys⟩
      rcases List.mem_cons.mp ((insertBy_perm cmp x ys).mem_iff.mp hz) with rfl | hz
      · exact Or.inl (OrientedCmp.lt_of_not_isLE hgt)
      · exact hy z hz

/-- **Sorting is stable**: in the sorted list every element precedes all later ones. -/
theorem sortBy_pairwise_precedes [TransCmp cmp] {xs : List α} (h : xs.Pairwise earlier) :
    (sortBy cmp xs).Pairwise (Precedes cmp earlier) := by
  induction xs with
  | nil => exact List.Pairwise.nil
  | cons x xs ih =>
    obtain ⟨hx, hxs⟩ := List.pairwise_cons.mp h
    exact insertBy_pairwise_precedes (fun y hy => hx y (by simpa using hy)) (ih hxs)

theorem sortBy_pairwise_isLE [TransCmp cmp] (xs : List α) :
    (sortBy cmp xs).Pairwise fun x y => (cmp x y).isLE = true := by
  have hany : xs.Pairwise fun _ _ => True := List.pairwise_of_forall fun _ _ => trivial
  exact (sortBy_pairwise_precedes hany).imp Precedes.isLE

/-- A list in which every element precedes the later ones is the sorted form of its
permutations. -/
theorem sortBy_eq_of_perm [TransCmp cmp] (hasymm : ∀ x y, earlier x y → ¬ earlier y x)
    {xs ys : List α} (hxs : xs.Pairwise earlier) (hys : ys.Pairwise (Precedes cmp earlier))
    (hperm : ys.Perm xs) : sortBy cmp xs = ys :=
  List.Perm.eq_of_pairwise (fun _ _ _ _ hab hba => absurd hba (hab.asymm hasymm))
    (sortBy_pairwise_precedes hxs) hys ((sortBy_perm cmp xs).trans hperm.symm)

/-- Where only equal elements compare equal, the order of the input does not matter. -/
theorem sortBy_perm_eq [TransCmp cmp] {xs ys : List α} (hperm : xs.Perm ys)
    (hstrict : ∀ x ∈ xs, ∀ y ∈ xs, cmp x y = .eq → x = y) : sortBy cmp xs = sortBy cmp ys := by
  refine List.Perm.eq_of_pairwise ?_ (sortBy_pairwise_isLE xs) (sortBy_pairwise_isLE ys)
    ((sortBy_perm cmp xs).trans (hperm.trans (sortBy_perm cmp ys).symm))
  intro x y hx hy hxy hyx
  have hyxs : y ∈ xs := hperm.mem_iff.mpr ((mem_sortBy cmp).mp hy)
  exact hstrict x ((mem_sortBy cmp).mp hx) y hyxs (OrientedCmp.isLE_antisymm hxy hyx)

theorem insertBy_eq_cons {x : α} {ys : List α} (h : ∀ y ∈ ys, (cmp x y).isLE = true) :
    insertBy cmp x ys = x :: ys := by
  cases ys with
  | nil => rfl
  | cons y ys => rw [insertBy, if_pos (h y List.mem_cons_self)]

/-- A list that is in ascending order is its own sorted form. -/
theorem sortBy_eq_self {xs : List α} (h : xs.Pairwise fun x y => (cmp x y).isLE = true) :
    sortBy cmp xs = xs := by
  induction xs with
  | nil => rfl
  | cons x xs ih =>
    obtain ⟨hx, hxs⟩ := List.pairwise_cons.mp h
    rw [sortBy, ih hxs, insertBy_eq_cons hx]

/-- What is left out of a sorted list may be left out before an element is inserted. -/
theorem filter_insertBy [TransCmp cmp] (p : α → Bool) {x : α} {ys : List α}
    (h : ys.Pairwise fun y z => (cmp y z).isLE = true) :
    (insertBy cmp x ys).filter p =
      if p x then insertBy cmp x (ys.filter p) else ys.filter p := by
  induction ys with
  | nil => simp [insertBy, List.filter_cons]
  | cons y ys ih =>
    obtain ⟨hy, hys⟩ := List.pairwise_cons.mp h
    by_cases hle : (cmp x y).isLE = true
    · -- All that follows compares above `x`, so also all that is chosen of it.
      have hafter : ∀ z ∈ (y :: ys).filter p, (cmp x z).isLE = true := by
        intro z hz
        rcases List.mem_cons.mp (List.mem_filter.mp hz).1 with rfl | hz
        · exact hle
        · exact TransCmp.isLE_trans hle (hy z hz)
      rw [insertBy, if_pos hle, List.filter_cons, insertBy_eq_cons hafter]
    · rw [insertBy, if_neg hle, List.filter_cons, ih hys]
      by_cases hpy : p y = true <;> by_cases hpx : p x = true <;>
        simp [hpy, hpx, insertBy, hle]

/-- **Choosing commutes with sorting**: what is chosen of a sorted list is what is chosen of the
input, sorted. -/
theorem sortBy_filter [TransCmp cmp] (p : α → Bool) (xs : List α) :
    sortBy cmp (xs.filter p) = (sortBy cmp xs).filter p := by
  induction xs with
  | nil => rfl
  | cons x xs ih =>
    rw [sortBy, filter_insertBy p (sortBy_pairwise_isLE xs), List.filter_cons, ← ih]
    split <;> rfl

/-- Elements that compare equal to each other stay in their order, also among others. -/
theorem sublist_sortBy [TransCmp cmp] {xs ties : List α} (h : ties.Sublist xs)
    (heq : ∀ x ∈ ties, ∀ y ∈ ties, cmp x y = .eq) : ties.Sublist (sortBy cmp xs) := by
  cases ties with
  | nil => exact List.nil_sublist _
  | cons tie ties =>
    -- All that ties with the first is chosen, and it is sorted as it stands.
    have hself : ((tie :: ties).filter fun x => cmp tie x == .eq) = tie :: ties :=
      List.filter_eq_self.mpr fun x hx => by simp [heq tie List.mem_cons_self x hx]
    have hsorted : (xs.filter fun x => cmp tie x == .eq).Pairwise fun x y =>
        (cmp x y).isLE = true := by
      refine List.pairwise_of_forall_mem_list fun x hx y hy => ?_
      have hx : cmp tie x = .eq := by simpa using (List.mem_filter.mp hx).2
      have hy : cmp tie y = .eq := by simpa using (List.mem_filter.mp hy).2
      simp [TransCmp.eq_trans (OrientedCmp.eq_symm hx) hy]
    have hchosen := h.filter fun x => cmp tie x == .eq
    rw [hself, ← sortBy_eq_self hsorted, sortBy_filter] at hchosen
    exact hchosen.trans List.filter_sublist

/-- Sorting looks at nothing but what is compared. -/
theorem sortBy_map {β : Type} (f : β → α) (xs : List β) :
    sortBy cmp (xs.map f) = (sortBy (fun x y => cmp (f x) (f y)) xs).map f := by
  have hinsert : ∀ (x : β) (ys : List β), insertBy cmp (f x) (ys.map f) =
      (insertBy (fun x y => cmp (f x) (f y)) x ys).map f := by
    intro x ys
    induction ys with
    | nil => rfl
    | cons y ys ih =>
      rw [List.map_cons, insertBy, insertBy, ih]
      split <;> rfl
  induction xs with
  | nil => rfl
  | cons x xs ih => rw [List.map_cons, sortBy, ih, hinsert, sortBy]

end GoConventions
