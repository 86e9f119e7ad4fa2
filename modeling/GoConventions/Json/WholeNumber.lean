import GoConventions.Json.Display
import GoConventions.Text.Digits

/-!
# Values read as whole numbers

Where a document must give a whole number, any value that denotes one is taken: a whole number, a
truth value (one or zero), a number of the binary format, cut toward zero, or a text with a numeral.
The other values are refused, each with its reason.
-/

namespace GoConventions

/-- Why a value does not denote a whole number. -/
inductive WholeNumberFault where
  | notNumeric (kind : String)
  | unreadable (text : String)
  | tooLong (digits : Nat)
  | infinite
  | notANumber
  deriving DecidableEq, Repr

/-- The wording of a refusal; a long text is cut short. -/
def WholeNumberFault.message : WholeNumberFault → String
  | .notNumeric kind =>
    "int() argument must be a string, a bytes-like object or a real number, not '" ++ kind ++ "'"
  | .unreadable text =>
    "invalid literal for int() with base 10: " ++ String.ofList ((Text.quoted text).toList.take 200)
  | .tooLong digits =>
    "Exceeds the limit (" ++ toString Text.mostDigits ++
      " digits) for integer string conversion: value has " ++ toString digits ++
      " digits; use sys.set_int_max_str_digits() to increase the limit"
  | .infinite => "cannot convert float infinity to integer"
  | .notANumber => "cannot convert float NaN to integer"

/-- The whole number that a value denotes. -/
def Json.wholeNumber : Json → Except WholeNumberFault Int
  | .int n => .ok n
  | .bool b => .ok (if b then 1 else 0)
  | .real .notANumber => .error .notANumber
  | .real x =>
    match x.truncated? with
    | some n => .ok n
    | none => .error .infinite
  | .str s =>
    match Text.integer s with
    | .ok n => .ok n
    | .error .notNumeral => .error (.unreadable s)
    | .error (.tooLong digits) => .error (.tooLong digits)
  | .null => .error (.notNumeric "NoneType")
  | .arr _ => .error (.notNumeric "list")
  | .obj _ => .error (.notNumeric "dict")

end GoConventions
