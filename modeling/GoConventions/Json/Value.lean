import GoConventions.Number.Binary64

/-!
# JSON values

The values of a tree document, a settings file or a rule catalog.  An object keeps its members in
the order in which they were written, because the order in which a tree is walked, and in which
faults and warnings are met, is that order.

## Main definitions

* `Json`: the values; whole numbers are exact and of any size, other numbers are of the binary
  format.
* `Json.isVacant`: the values that stand for nothing given.
* `Json.height`: the nesting depth, which bounds every walk of a value.

## Main results

* `height_lt_of_mem`, `height_lt_of_lookup`: what a value contains is less high than the value.
-/

namespace GoConventions

inductive Json where
  | null
  | bool (value : Bool)
  | int (value : Int)
  | real (value : Binary64)
  | str (text : String)
  | arr (items : List Json)
  | obj (members : List (String × Json))
  deriving Repr

/-- The members of an object, in their order. -/
abbrev Members := List (String × Json)

/-- The value of a member, null when there is no such member. -/
def Members.get (members : Members) (key : String) : Json :=
  (members.lookup key).getD .null

namespace Json

instance : Inhabited Json := ⟨.null⟩

/-- The members of an object. -/
def members? : Json → Option Members
  | .obj members => some members
  | _ => none

/-- Whether a value stands for nothing given: null, false, zero, or an empty text, list or
object. -/
def isVacant : Json → Bool
  | .null => true
  | .bool b => !b
  | .int n => n == 0
  | .real x => x.isZero
  | .str s => s.isEmpty
  | .arr items => items.isEmpty
  | .obj members => members.isEmpty

/-- Whether a value is the given text. -/
def isText (s : String) : Json → Bool
  | .str t => t == s
  | _ => false

mutual

/-- The number of lists and objects that enclose the innermost value. -/
def height : Json → Nat
  | .arr items => heightOfItems items + 1
  | .obj members => heightOfMembers members + 1
  | _ => 0

/-- The greatest height of the items. -/
def heightOfItems : List Json → Nat
  | [] => 0
  | item :: items => max item.height (heightOfItems items)

/-- The greatest height of the members. -/
def heightOfMembers : List (String × Json) → Nat
  | [] => 0
  | (_, value) :: members => max value.height (heightOfMembers members)

end

theorem height_le_heightOfItems {x : Json} {items : List Json} (h : x ∈ items) :
    x.height ≤ heightOfItems items := by
  induction items with
  | nil => cases h
  | cons y ys ih =>
    simp only [heightOfItems]
    rcases List.mem_cons.1 h with rfl | h
    · exact Nat.le_max_left _ _
    · exact Nat.le_trans (ih h) (Nat.le_max_right _ _)

theorem height_le_heightOfMembers {key : String} {x : Json} {members : Members}
    (h : (key, x) ∈ members) : x.height ≤ heightOfMembers members := by
  induction members with
  | nil => cases h
  | cons y ys ih =>
    obtain ⟨k, v⟩ := y
    simp only [heightOfMembers]
    rcases List.mem_cons.1 h with h | h
    · cases h; exact Nat.le_max_left _ _
    · exact Nat.le_trans (ih h) (Nat.le_max_right _ _)

/-- An item of a list is less high than the list. -/
theorem height_lt_of_mem {x : Json} {items : List Json} (h : x ∈ items) :
    x.height < (Json.arr items).height := by
  simp only [height]; exact Nat.lt_succ_of_le (height_le_heightOfItems h)

/-- A member of an object is less high than the object. -/
theorem height_lt_of_lookup {key : String} {x : Json} {members : Members}
    (h : members.lookup key = some x) : x.height < (Json.obj members).height := by
  simp only [height]
  refine Nat.lt_succ_of_le (@height_le_heightOfMembers key x members ?_)
  induction members with
  | nil => cases h
  | cons y ys ih =>
    obtain ⟨k, v⟩ := y
    rw [List.lookup_cons] at h
    split at h <;> rename_i hk
    · cases h; rw [eq_of_beq hk]; exact List.mem_cons_self
    · exact List.mem_cons_of_mem _ (ih h)

end Json

end GoConventions
