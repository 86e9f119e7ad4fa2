import GoConventions.Text.Slice
import GoConventions.Text.Search

/-!
# String literals

The text that a Go string literal denotes.  A raw literal stands between back quotes and denotes
what is between them.  An interpreted literal stands between double quotes, and each backslash in it
begins an escape: a code in hexadecimal or octal digits, or a single character.

An escape is read with the longest form that fits.  A backslash before a line feed or before the end
begins no escape and stays; a letter that announces hexadecimal digits must be followed by all of
them; a character that no rule names denotes itself.

The decoder passes over the characters of an escape by a count of those still to skip, so it is a
recursion on the characters.
-/

namespace GoConventions

/-- Why a literal denotes no text. -/
inductive LiteralFault where
  | missingDigits
  | codePointTooLarge (code : Nat)
  deriving DecidableEq, Repr

namespace Literal

/-- The value of a hexadecimal digit of either case. -/
def hexDigit? (c : Char) : Option Nat :=
  if '0' ≤ c && c ≤ '9' then some (c.toNat - 48)
  else if 'a' ≤ c && c ≤ 'f' then some (c.toNat - 87)
  else if 'A' ≤ c && c ≤ 'F' then some (c.toNat - 55)
  else none

/-- The value of an octal digit. -/
def octalDigit? (c : Char) : Option Nat :=
  if '0' ≤ c && c ≤ '7' then some (c.toNat - 48) else none

/-- The number that exactly `count` digits of the given base denote at the front of a text. -/
def digits? (base : Nat) (digit? : Char → Option Nat) (value : Nat) : Nat → List Char → Option Nat
  | 0, _ => some value
  | _ + 1, [] => none
  | count + 1, c :: r => (digit? c).bind fun d => digits? base digit? (base * value + d) count r

/-- The character that a single character after a backslash denotes. -/
def simpleEscape (c : Char) : Char :=
  if c = 'a' then '\x07'
  else if c = 'b' then '\x08'
  else if c = 'f' then '\x0c'
  else if c = 'n' then '\n'
  else if c = 'r' then '\r'
  else if c = 't' then '\t'
  else if c = 'v' then '\x0b'
  else c

/-- How many hexadecimal digits a letter after a backslash announces. -/
def announcedDigits (c : Char) : Nat :=
  if c = 'U' then 8 else if c = 'u' then 4 else if c = 'x' then 2 else 0

/-- The character with a code.  The codes of the surrogates stand for no character and give the
replacement character. -/
def ofCode (code : Nat) : Except LiteralFault Char :=
  if 0x10FFFF < code then .error (.codePointTooLarge code)
  else if 0xD800 ≤ code && code < 0xE000 then .ok '\uFFFD'
  else .ok (Char.ofNat code)

/-- The escape that a character after a backslash begins, given the characters after that one: what
it denotes, and how many of those further characters belong to it. -/
def escape (c : Char) (rest : List Char) : Except LiteralFault (Char × Nat) :=
  let count := announcedDigits c
  if count != 0 then
    match digits? 16 hexDigit? 0 count rest with
    | some code => (ofCode code).map (·, count)
    | none => .error .missingDigits
  else
    match digits? 8 octalDigit? 0 3 (c :: rest) with
    | some code => (ofCode code).map (·, 2)
    | none => .ok (simpleEscape c, 0)

/-- The characters that the inside of an interpreted literal denotes, after passing over the given
number of them. -/
def decodeFrom : Nat → List Char → Except LiteralFault (List Char)
  | _, [] => .ok []
  | skip + 1, _ :: r => decodeFrom skip r
  | 0, c :: r =>
    match c, r with
    | '\\', e :: rest =>
      if e = '\n' then return '\\' :: (← decodeFrom 0 r)
      else do
        let (x, count) ← escape e rest
        return x :: (← decodeFrom (count + 1) r)
    | _, _ => return c :: (← decodeFrom 0 r)

end Literal

/-- The text that a string literal denotes. -/
def decodeLiteral (raw : String) : Except LiteralFault String :=
  let inner := Text.slice 1 (-1) raw
  if Text.startsWith raw "\x60" then .ok inner
  else (Literal.decodeFrom 0 inner.toList).map String.ofList

example : (decodeLiteral "\"a\\x41\\u00e9\\101\\n\"").toOption = some "aAéA\n" := by decide +kernel
example : (decodeLiteral "\"\\x4\"").toOption = none := by decide +kernel

end GoConventions
