/-!
# Numbers of the 64-bit binary format

A number written with a decimal point or an exponent is held in the 64-bit binary floating-point
format: a significand of at most 53 bits times a power of two, or an infinity when it is too large.
The format also has a value that is not a number, which no numeral denotes.
This module reads a decimal numeral as the nearest such number, a half going to the even neighbour,
in exact integer arithmetic.

A finite number is kept in its normal form: the significand has exactly 53 bits, or fewer when the
exponent is the least one.  Two numerals for the same number are therefore read as equal values.

## Main definitions

* `Binary64`: the numbers of the format.
* `Binary64.ofRatio`, `Binary64.ofDecimal`: the nearest number to a quotient or a decimal numeral.
* `Binary64.truncated?`: the whole part of a finite number.
-/

namespace GoConventions

/-- A value of the 64-bit binary format: `significand * 2 ^ exponent` with a sign, infinite, or not
a number. -/
inductive Binary64 where
  | finite (negative : Bool) (significand : Nat) (exponent : Int)
  | infinite (negative : Bool)
  | notANumber
  deriving DecidableEq, Repr

/-- The quotient rounded to the nearest whole number, a half to the even one. -/
def roundQuotient (num den : Nat) : Nat :=
  let q := num / den
  let r := num % den
  if 2 * r < den then q else if den < 2 * r then q + 1 else q + q % 2

namespace Binary64

/-- The exponent of the least positive number. -/
def leastExponent : Int := -1074

/-- The greatest exponent of a finite number. -/
def greatestExponent : Int := 971

/-- The quotient of `num` by `den * 2 ^ exponent`, as a pair of natural numbers. -/
def scaled (num den : Nat) (exponent : Int) : Nat × Nat :=
  if exponent < 0 then (num * Nat.pow 2 (-exponent).toNat, den)
  else (num, den * Nat.pow 2 exponent.toNat)

/-- The exponent at which the quotient has 53 binary digits before the point, or the least exponent
if that is greater. -/
def exponentFor (num den : Nat) : Int :=
  let guess : Int := (num.log2 : Int) - den.log2 - 53
  let (n, d) := scaled num den guess
  let exact := if n / d < Nat.pow 2 53 then guess else guess + 1
  max exact leastExponent

/-- The number nearest to a quotient. -/
def ofRatio (negative : Bool) (num den : Nat) : Binary64 :=
  if num = 0 then .finite negative 0 leastExponent
  else
    let exponent := exponentFor num den
    let (n, d) := scaled num den exponent
    let significand := roundQuotient n d
    let (significand, exponent) :=
      if significand = Nat.pow 2 53 then (Nat.pow 2 52, exponent + 1) else (significand, exponent)
    if greatestExponent < exponent then .infinite negative
    else .finite negative significand exponent

/-- The number nearest to `digits * 10 ^ exponent`.  A magnitude far outside the range of the format
is decided by its number of digits. -/
def ofDecimal (negative : Bool) (digits : Nat) (exponent : Int) : Binary64 :=
  let magnitude : Int := (Nat.toDigits 10 digits).length + exponent
  if digits = 0 || magnitude < -330 then .finite negative 0 leastExponent
  else if 310 < magnitude then .infinite negative
  else if exponent < 0 then ofRatio negative digits (Nat.pow 10 (-exponent).toNat)
  else ofRatio negative (digits * Nat.pow 10 exponent.toNat) 1

/-- Whether a number is zero, of either sign. -/
def isZero : Binary64 → Bool
  | .finite _ significand _ => significand == 0
  | .infinite _ => false
  | .notANumber => false

/-- The whole part of a finite number, toward zero. -/
def truncated? : Binary64 → Option Int
  | .infinite _ => none
  | .notANumber => none
  | .finite negative significand exponent =>
    let size :=
      if exponent < 0 then significand / Nat.pow 2 (-exponent).toNat
      else significand * Nat.pow 2 exponent.toNat
    some (if negative then -(size : Int) else size)

example : ofDecimal false 15 (-1) = .finite false 6755399441055744 (-52) := by decide +kernel
example : (ofDecimal true 19 (-1)).truncated? = some (-1) := by decide +kernel
example : ofDecimal false 1 400 = .infinite false := by decide +kernel
example : ofDecimal false 5 (-324) = .finite false 1 (-1074) := by decide +kernel

end Binary64

end GoConventions
