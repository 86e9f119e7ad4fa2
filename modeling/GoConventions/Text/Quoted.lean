import GoConventions.Text.Case
import GoConventions.Text.PrintableTable

/-!
# Quoted text

The form in which a message shows a text it was given: between quotes, on one line, with every
character that has no printed form written as an escape.

The quote is the apostrophe, unless the text holds apostrophes and no double quote; then it is the
double quote.  The chosen quote and the backslash are escaped by a backslash, line feed, carriage
return and tab by their letter, and other unprintable characters by their code in the fewest of two,
four or eight hexadecimal digits that hold it.
-/

namespace GoConventions.Text

/-- Whether a character has a printed form. -/
def isPrintable (c : Char) : Bool :=
  !inRuns c.toNat unprintableRuns

/-- The lower-case hexadecimal digit of a number below sixteen. -/
def hexDigit (n : Nat) : Char :=
  if n < 10 then Char.ofNat (48 + n) else Char.ofNat (87 + n)

/-- The last `width` hexadecimal digits of a number. -/
def hexDigits : Nat → Nat → List Char
  | 0, _ => []
  | width + 1, n => hexDigits width (n / 16) ++ [hexDigit (n % 16)]

/-- The quote that a text is written in. -/
def quoteFor (s : List Char) : Char :=
  if s.contains '\x27' && !s.contains '\x22' then '\x22' else '\x27'

/-- One character as it stands between quotes. -/
def quotedChar (quote c : Char) : List Char :=
  if c = quote || c = '\\' then ['\\', c]
  else if c = '\n' then ['\\', 'n']
  else if c = '\r' then ['\\', 'r']
  else if c = '\t' then ['\\', 't']
  else if isPrintable c then [c]
  else if c.toNat < 0x100 then '\\' :: 'x' :: hexDigits 2 c.toNat
  else if c.toNat < 0x10000 then '\\' :: 'u' :: hexDigits 4 c.toNat
  else '\\' :: 'U' :: hexDigits 8 c.toNat

/-- A text between quotes. -/
def quoted (s : String) : String :=
  let quote := quoteFor s.toList
  String.ofList (quote :: s.toList.flatMap (quotedChar quote) ++ [quote])

end GoConventions.Text
