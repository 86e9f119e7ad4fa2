/-!
# Stable sorting

Sorting by a comparison, with elements that compare equal left in their given order.  Every order
that a report shows is obtained here: identifiers by offset, findings by position and severity, the
lines of an import block by path, names by code point.

Insertion from the right end is used because it is stable by construction: an element is put before
the first sorted element that it does not have to come after, and every element already placed came
later in the input.

## Main definitions

* `insertBy cmp x xs`: `x` placed into the sorted list `xs`.
* `sortBy cmp xs`: `xs` in ascending order of `cmp`, ties in their given order.
* `distinct xs`: the names of `xs` in ascending order, each once.

## Main results

* `sortBy_perm`: sorting neither loses nor invents an element.
* `mem_distinct`: a collection of names has the members of its list.
-/

namespace GoConventions

variable {α : Type}

/-- Places `x` before the first element of `xs` that it need not come after. -/
def insertBy (cmp : α → α → Ordering) (x : α) : List α → List α
  | [] => [x]
  | y :: ys => if (cmp x y).isLE then x :: y :: ys else y :: insertBy cmp x ys

/-- The elements of a list in ascending order; elements that compare equal keep their order. -/
def sortBy (cmp : α → α → Ordering) : List α → List α
  | [] => []
  | x :: xs => insertBy cmp x (sortBy cmp xs)

theorem insertBy_perm (cmp : α → α → Ordering) (x : α) (xs : List α) :
    (insertBy cmp x xs).Perm (x :: xs) := by
  induction xs with
  | nil => exact List.Perm.refl _
  | cons y ys ih =>
    unfold insertBy
    split
    · exact List.Perm.refl _
    · exact (List.Perm.cons y ih).trans (List.Perm.swap x y ys)

/-- Sorting neither loses nor invents an element. -/
theorem sortBy_perm (cmp : α → α → Ordering) (xs : List α) : (sortBy cmp xs).Perm xs := by
  induction xs with
  | nil => exact List.Perm.refl _
  | cons x xs ih => exact (insertBy_perm cmp x _).trans (List.Perm.cons x ih)

@[simp] theorem mem_sortBy (cmp : α → α → Ordering) {x : α} {xs : List α} :
    x ∈ sortBy cmp xs ↔ x ∈ xs :=
  (sortBy_perm cmp xs).mem_iff

@[simp] theorem length_sortBy (cmp : α → α → Ordering) (xs : List α) :
    (sortBy cmp xs).length = xs.length :=
  (sortBy_perm cmp xs).length_eq

/-- The members of a list of names in ascending order, each once: two lists with the same members
give the same value, so it serves as the finite set of those names. -/
def distinct (xs : List String) : List String :=
  sortBy compare xs.eraseDups

@[simp] theorem mem_distinct {x : String} {xs : List String} : x ∈ distinct xs ↔ x ∈ xs := by
  simp [distinct, List.mem_eraseDups]

end GoConventions
