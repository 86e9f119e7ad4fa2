import GoConventions.Number.Binary64

/-!
# The shortest decimal numeral of a number

A number of the binary format is written with the fewest decimal digits that read back as the same
number, and of those numerals with the nearest to it.  A numeral with `n` digits can read back only
if one of the two neighbours of the number on the grid of `n`-digit numerals does, so those two are
tested for `n = 1, 2, … , 17`; seventeen digits always suffice.

The numeral is positional when the place of its first digit is from `10 ^ -4` up to `10 ^ 15`, and
has a digit after the point even if that is a zero; otherwise it has an exponent of at least two
digits with its sign.
-/

namespace GoConventions

namespace Binary64

/-- The number of zeros between the point and the first digit of a quotient below one. -/
def leadingZeros (num den : Nat) : Nat → Nat
  | 0 => 0
  | fuel + 1 => if den ≤ 10 * num then 0 else leadingZeros (10 * num) den fuel + 1

/-- The place of the first digit of a positive quotient: it lies from `10 ^ (place - 1)` up to, but
not including, `10 ^ place`. -/
def firstPlace (num den : Nat) : Int :=
  if den ≤ num then (Nat.toDigits 10 (num / den)).length else -(leadingZeros num den 400 : Int)

/-- A positive finite number as a quotient. -/
def ratio (significand : Nat) (exponent : Int) : Nat × Nat :=
  if exponent < 0 then (significand, Nat.pow 2 (-exponent).toNat)
  else (significand * Nat.pow 2 exponent.toNat, 1)

/-- The numeral on the grid of `10 ^ unit` that reads back as the number and is nearest to it. -/
def readingBack? (significand : Nat) (exponent unit : Int) : Option Nat :=
  let (num, den) := ratio significand exponent
  let (n, d) :=
    if unit < 0 then (num * Nat.pow 10 (-unit).toNat, den) else (num, den * Nat.pow 10 unit.toNat)
  let below := n / d
  let reads (digits : Nat) : Bool :=
    ofDecimal false digits unit == .finite false significand exponent
  let nearer := roundQuotient n d
  let other := if nearer = below then below + 1 else below
  if reads nearer then some nearer else if reads other then some other else none

/-- The shortest numeral with at least `count` digits: its digits and the power of ten that they
count. -/
def shortestFrom (significand : Nat) (exponent place : Int) : Nat → Nat → Nat × Int
  | _, 0 => (0, 0)
  | count, fuel + 1 =>
    match readingBack? significand exponent (place - count) with
    | some digits => (digits, place - count)
    | none => shortestFrom significand exponent place (count + 1) fuel

/-- The digits without the zeros at their end, and how many zeros those were. -/
def withoutZeros (digits : Nat) : Nat → Nat × Nat
  | 0 => (digits, 0)
  | fuel + 1 =>
    if digits % 10 = 0 && digits != 0 then
      let (d, zeros) := withoutZeros (digits / 10) fuel
      (d, zeros + 1)
    else (digits, 0)

/-- A numeral from its digits and the place of its first digit. -/
def numeral (digits : List Char) (place : Int) : String :=
  let zeros (n : Int) : List Char := List.replicate n.toNat '0'
  if place ≤ -4 || 16 < place then
    let power := place - 1
    let size := toString power.natAbs
    let fraction := if digits.length ≤ 1 then [] else '.' :: digits.drop 1
    String.ofList (digits.take 1 ++ fraction ++ ['e', if power < 0 then '-' else '+']) ++
      (if power.natAbs < 10 then "0" ++ size else size)
  else if place ≤ 0 then String.ofList ('0' :: '.' :: zeros (-place) ++ digits)
  else if digits.length ≤ place.toNat then
    String.ofList (digits ++ zeros (place - digits.length) ++ ['.', '0'])
  else String.ofList (digits.take place.toNat ++ '.' :: digits.drop place.toNat)

/-- The shortest numeral of a number. -/
def shortest : Binary64 → String
  | .infinite negative => if negative then "-inf" else "inf"
  | .notANumber => "nan"
  | .finite negative significand exponent =>
    let sign := if negative then "-" else ""
    if significand = 0 then sign ++ "0.0"
    else
      let (num, den) := ratio significand exponent
      let (digits, unit) := shortestFrom significand exponent (firstPlace num den) 1 17
      let (digits, zeros) := withoutZeros digits 20
      let text := Nat.toDigits 10 digits
      sign ++ numeral text (unit + zeros + text.length)

example : shortest (ofDecimal false 15 (-1)) = "1.5" := by decide +kernel
example : shortest (ofDecimal true 11750 (-3)) = "-11.75" := by decide +kernel
example : shortest (ofDecimal false 1 16) = "1e+16" := by decide +kernel
example : shortest (ofDecimal false 1 15) = "1000000000000000.0" := by decide +kernel
example : shortest (ofDecimal false 1 (-5)) = "1e-05" := by decide +kernel
example : shortest (ofDecimal false 1 (-4)) = "0.0001" := by decide +kernel
example : shortest (ofDecimal false 3 (-324)) = "5e-324" := by decide +kernel
example : shortest (ofDecimal false 30000000000000004 (-17)) = "0.30000000000000004" := by
  decide +kernel

end Binary64

end GoConventions
