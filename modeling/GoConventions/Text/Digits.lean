import GoConventions.Text.Blank
import GoConventions.Text.DigitTable
import GoConventions.Text.Search

/-!
# Whole numbers in text

Reading a whole number from text as people write it: blanks around it, a sign, digits of any script,
and single low lines between digits to group them.  The information separators, which divide words
elsewhere, are not blanks of a number.

A numeral may have up to `mostDigits` digits.  A longer one is refused for its length, whatever
stands after it, and not for being no numeral.
-/

namespace GoConventions.Text

/-- The value of a code point among the digits that start at the listed places. -/
def digitValueIn (n : Nat) : List Nat → Option Nat
  | [] => none
  | start :: starts =>
    if n < start then none else if n < start + 10 then some (n - start) else digitValueIn n starts

/-- The value of a decimal digit of any script. -/
def digitValue? (c : Char) : Option Nat :=
  digitValueIn c.toNat digitZeros

/-- Whether a character may stand before or after a number. -/
def isNumberBlank (c : Char) : Bool :=
  isBlank c && !(0x1C ≤ c.toNat && c.toNat ≤ 0x1F)

/-- Why a text denotes no whole number. -/
inductive NumeralFault where
  | notNumeral
  | tooLong (digits : Nat)
  deriving DecidableEq, Repr

/-- The greatest number of digits that are read. -/
def mostDigits : Nat := 4300

/-- Whether a character belongs to a numeral: a digit, or the low line that groups digits. -/
def isNumeralChar (c : Char) : Bool :=
  c == '_' || (digitValue? c).isSome

/-- Whether the characters of a numeral are groups of digits with single low lines between them. -/
def isGrouped (s : List Char) : Bool :=
  (splitChars '_' s).all (!·.isEmpty)

/-- The number that digits denote; the low lines between them do not count. -/
def valueOfDigits (s : List Char) : Nat :=
  (s.filterMap digitValue?).foldl (fun n d => 10 * n + d) 0

/-- The natural number at the front of the characters, after which only blanks may follow. -/
def natural (s : List Char) : Except NumeralFault Nat :=
  let numeral := s.takeWhile isNumeralChar
  let digits := (numeral.filter (· != '_')).length
  if !isGrouped numeral then .error .notNumeral
  else if mostDigits < digits then .error (.tooLong digits)
  else if (s.dropWhile isNumeralChar).all isNumberBlank then .ok (valueOfDigits numeral)
  else .error .notNumeral

/-- The whole number that a text denotes. -/
def integer (s : String) : Except NumeralFault Int :=
  match s.toList.dropWhile isNumberBlank with
  | '-' :: r => (natural r).map fun n => -(n : Int)
  | '+' :: r => (natural r).map Int.ofNat
  | r => (natural r).map Int.ofNat

example : (integer " -1_0 ").toOption = some (-10) := by decide +kernel
example : (integer "1__0").toOption = none ∧ (integer "- 1").toOption = none := by decide +kernel

/-- The ASCII digits have their own value. -/
theorem digitValue?_ascii : ∀ n : Fin 10, digitValue? (Char.ofNat (48 + n)) = some n.val := by
  decide +kernel

end GoConventions.Text
