/-!
# Cutting a text at offsets

Offsets into a text are integers, because a range handed in from outside need not lie in it.  A
bound below zero counts from the end, and a bound past either end is moved to that end, so that
every pair of bounds has a slice; it is empty when the bounds are in the wrong order.

For bounds that do lie in the text this is the plain cut: `slice_of_le` says that the slice from `a`
to `b` is what is left of the first `b` characters after dropping `a`.
-/

namespace GoConventions.Text

variable {α : Type}

/-- The place in a sequence of length `n` that the bound `i` stands for. -/
def bound (n : Nat) (i : Int) : Nat :=
  if i < 0 then (i + n).toNat else min i.toNat n

/-- The part of a sequence between two bounds. -/
def sliceList (a b : Int) (s : List α) : List α :=
  (s.take (bound s.length b)).drop (bound s.length a)

/-- The element at an index, an index below zero counting from the end. -/
def elementAt? (i : Int) (s : List α) : Option α :=
  if i < 0 then (if i + s.length < 0 then none else s[(i + s.length).toNat]?) else s[i.toNat]?

/-- The text between two bounds. -/
def slice (a b : Int) (s : String) : String :=
  String.ofList (sliceList a b s.toList)

/-- The text before a bound. -/
def upTo (b : Int) (s : String) : String :=
  String.ofList (s.toList.take (bound s.length b))

/-- The text from a bound on. -/
def fromOffset (a : Int) (s : String) : String :=
  String.ofList (s.toList.drop (bound s.length a))

/-- The text without its first `n` characters. -/
def dropFirst (n : Nat) (s : String) : String :=
  String.ofList (s.toList.drop n)

/-- The text without its last `n` characters. -/
def dropLast (n : Nat) (s : String) : String :=
  String.ofList (s.toList.take (s.length - n))

/-- A bound stands for a place in the sequence. -/
theorem bound_le (n : Nat) (i : Int) : bound n i ≤ n := by
  unfold bound; split <;> omega

@[simp] theorem bound_natCast (n k : Nat) : bound n (k : Int) = min k n := by
  unfold bound; split <;> omega

/-- Bounds in the text, in the right order, cut it plainly. -/
theorem sliceList_of_le {s : List α} {a b : Nat} (hb : b ≤ s.length) :
    sliceList (a : Int) b s = (s.take b).drop (min a s.length) := by
  simp [sliceList, Nat.min_eq_left hb]

end GoConventions.Text
