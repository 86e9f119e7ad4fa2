import GoConventions.Json.Value
import GoConventions.Number.Shortest
import GoConventions.Text.Quoted

/-!
# Writing JSON

Two layouts of the same text.  `compact` is on one line.  `pretty` gives every item and member a
line of its own, indented by two blanks for each enclosing list or object; an empty list or object
stays on its line.

Only ASCII is written: any other character, and the controls, become an escape of four hexadecimal
digits, or two such escapes when the character lies above the basic plane.
-/

namespace GoConventions.Json

/-- The escape of one UTF-16 unit. -/
def unitEscape (n : Nat) : List Char :=
  '\\' :: 'u' :: Text.hexDigits 4 n

/-- One character as it stands in a JSON text. -/
def escapedChar (c : Char) : List Char :=
  if c = '\x22' then ['\\', '\x22']
  else if c = '\\' then ['\\', '\\']
  else if c = '\n' then ['\\', 'n']
  else if c = '\r' then ['\\', 'r']
  else if c = '\t' then ['\\', 't']
  else if c = '\x0c' then ['\\', 'f']
  else if c = '\x08' then ['\\', 'b']
  else if 0x20 ≤ c.toNat && c.toNat ≤ 0x7E then [c]
  else if c.toNat < 0x10000 then unitEscape c.toNat
  else
    let n := c.toNat - 0x10000
    unitEscape (0xD800 + n / 0x400) ++ unitEscape (0xDC00 + n % 0x400)

/-- A text between double quotes. -/
def string (s : String) : String :=
  String.ofList ('\x22' :: s.toList.flatMap escapedChar ++ ['\x22'])

/-- A value without inner parts. -/
def scalar : Json → String
  | .null => "null"
  | .bool b => if b then "true" else "false"
  | .int n => toString n
  | .real (.infinite negative) => if negative then "-Infinity" else "Infinity"
  | .real .notANumber => "NaN"
  | .real x => x.shortest
  | .str s => string s
  | .arr _ => "[]"
  | .obj _ => "\x7b\x7d"

mutual

/-- A value on one line. -/
def compact : Json → String
  | .arr items => "[" ++ ", ".intercalate (compactItems items) ++ "]"
  | .obj members => "\x7b" ++ ", ".intercalate (compactMembers members) ++ "\x7d"
  | value => scalar value

def compactItems : List Json → List String
  | [] => []
  | item :: items => item.compact :: compactItems items

def compactMembers : List (String × Json) → List String
  | [] => []
  | (key, value) :: members => (string key ++ ": " ++ value.compact) :: compactMembers members

end

/-- The line break before a part at the given depth. -/
def newline (depth : Nat) : String :=
  "\n" ++ String.ofList (List.replicate (2 * depth) ' ')

mutual

/-- A value whose parts stand on lines of their own, at the given depth. -/
def prettyAt (depth : Nat) : Json → String
  | .arr [] => "[]"
  | .obj [] => "\x7b\x7d"
  | .arr items =>
    "[" ++ newline (depth + 1) ++
      ("," ++ newline (depth + 1)).intercalate (prettyItems (depth + 1) items) ++
      newline depth ++ "]"
  | .obj members =>
    "\x7b" ++ newline (depth + 1) ++
      ("," ++ newline (depth + 1)).intercalate (prettyMembers (depth + 1) members) ++
      newline depth ++ "\x7d"
  | value => scalar value

def prettyItems (depth : Nat) : List Json → List String
  | [] => []
  | item :: items => prettyAt depth item :: prettyItems depth items

def prettyMembers (depth : Nat) : List (String × Json) → List String
  | [] => []
  | (key, value) :: members =>
    (string key ++ ": " ++ prettyAt depth value) :: prettyMembers depth members

end

/-- A value whose parts stand on lines of their own. -/
def pretty (value : Json) : String :=
  prettyAt 0 value

example : (Json.obj [("a", .arr [.int 1, .str "é"]), ("b", .obj [])]).pretty =
    "\x7b\n  \"a\": [\n    1,\n    \"\\u00e9\"\n  ],\n  \"b\": \x7b\x7d\n\x7d" := by decide +kernel

end GoConventions.Json
