import GoConventions.Json.Value
import GoConventions.Text.Digits

/-!
# Reading JSON

A reader of JSON texts that keeps the order of members.  It works on the list of characters, and
each of its steps answers what is left to read.  The depth of its recursion is bounded by the length
of the text, since every step reads at least one character of it; `ofText` supplies that bound.

A text is refused as a whole: for what does not follow the grammar, an unpaired surrogate escape, a
control character inside a string, anything but blanks after the value, a whole number with too many
digits, and lists and objects that lie too deep inside each other.  The first fault is the one that
is reported.

The words for the infinities and for what is not a number are read as well.  When a key is written
twice, the member keeps its first place and takes its last value.
-/

namespace GoConventions.Json

/-- Why a text is refused.  A place is the number of characters still unread. -/
inductive ReadFault where
  | unexpected (expected : String) (remaining : Nat)
  | longNumeral (digits : Nat)
  | tooDeep
  deriving DecidableEq, Repr

/-- The wording of a refusal of a text with so many characters. -/
def ReadFault.message (length : Nat) : ReadFault → String
  | .unexpected expected remaining =>
    "expected " ++ expected ++ " at character " ++ toString (length - remaining + 1)
  | .longNumeral digits => "a numeral has " ++ toString digits ++ " digits"
  | .tooDeep => "the text is nested too deep"

/-- A step of the reader: what it read, and the characters after it. -/
abbrev Reading (α : Type) := Except ReadFault (α × List Char)

def expecting {α : Type} (what : String) (rest : List Char) : Reading α :=
  .error (.unexpected what rest.length)

/-- The characters after the blanks between tokens. -/
def afterBlanks (s : List Char) : List Char :=
  s.dropWhile fun c => c = ' ' || c = '\n' || c = '\t' || c = '\r'

/-- The value of a hexadecimal digit. -/
def hexValue? (c : Char) : Option Nat :=
  if '0' ≤ c && c ≤ '9' then some (c.toNat - 48)
  else if 'a' ≤ c && c ≤ 'f' then some (c.toNat - 87)
  else if 'A' ≤ c && c ≤ 'F' then some (c.toNat - 55)
  else none

/-- The UTF-16 unit that four hexadecimal digits denote. -/
def unit? (a b c d : Char) : Option Nat := do
  return 0x1000 * (← hexValue? a) + 0x100 * (← hexValue? b) + 0x10 * (← hexValue? c) +
    (← hexValue? d)

/-- The character that a letter after a backslash denotes. -/
def escapeLetter? (c : Char) : Option Char :=
  if c = '\x22' || c = '\\' || c = '/' then some c
  else if c = 'n' then some '\n'
  else if c = 'r' then some '\r'
  else if c = 't' then some '\t'
  else if c = 'b' then some '\x08'
  else if c = 'f' then some '\x0c'
  else none

/-- The rest of a string, after its opening quote; `done` holds the characters read, last first. -/
def readString (done : List Char) : List Char → Reading String
  | [] => expecting "a closing quote" []
  | '\\' :: 'u' :: a :: b :: c :: d :: rest =>
    match unit? a b c d with
    | none => expecting "four hexadecimal digits" rest
    | some high =>
      if 0xD800 ≤ high && high < 0xDC00 then
        match rest with
        | '\\' :: 'u' :: e :: f :: g :: h :: rest =>
          match unit? e f g h with
          | none => expecting "four hexadecimal digits" rest
          | some low =>
            if 0xDC00 ≤ low && low < 0xE000 then
              readString (Char.ofNat (0x10000 + 0x400 * (high - 0xD800) + (low - 0xDC00)) :: done)
                rest
            else expecting "the second half of a surrogate pair" rest
        | _ => expecting "the second half of a surrogate pair" rest
      else if 0xDC00 ≤ high && high < 0xE000 then
        expecting "the first half of a surrogate pair" rest
      else readString (Char.ofNat high :: done) rest
  | '\\' :: c :: rest =>
    match escapeLetter? c with
    | some x => readString (x :: done) rest
    | none => expecting "an escape" rest
  | c :: rest =>
    if c = '\x22' then .ok (String.ofList done.reverse, rest)
    else if c.toNat < 0x20 then expecting "a character" rest
    else readString (c :: done) rest

/-- The natural number that ASCII digits denote. -/
def natOfDigits (s : List Char) : Nat :=
  s.foldl (fun n c => 10 * n + (c.toNat - 48)) 0

/-- The exponent at the front, after the letter that announces it. -/
def readExponent : List Char → Option (Int × List Char)
  | [] => none
  | c :: s =>
    if c != 'e' && c != 'E' then none
    else
      let (negative, s) :=
        match s with
        | '-' :: r => (true, r)
        | '+' :: r => (false, r)
        | r => (false, r)
      let digits := s.takeWhile Char.isDigit
      if digits.isEmpty then none
      else
        let n : Int := natOfDigits digits
        some (if negative then -n else n, s.dropWhile Char.isDigit)

/-- A number after its sign.  It is whole when it has neither a fraction nor an exponent. -/
def readNumber (negative : Bool) (s : List Char) : Reading Json :=
  let whole := s.takeWhile Char.isDigit
  let rest := s.dropWhile Char.isDigit
  if whole.isEmpty || (whole.length != 1 && whole.head? == some '0') then expecting "a value" s
  else
    let (fraction, rest') :=
      match rest with
      | '.' :: r =>
        let digits := r.takeWhile Char.isDigit
        if digits.isEmpty then ([], rest) else (digits, r.dropWhile Char.isDigit)
      | r => ([], r)
    let real (exponent : Int) : Json :=
      .real (Binary64.ofDecimal negative (natOfDigits (whole ++ fraction))
        (exponent - fraction.length))
    match readExponent rest' with
    | some (exponent, rest'') => .ok (real exponent, rest'')
    | none =>
      if !fraction.isEmpty then .ok (real 0, rest')
      else if Text.mostDigits < whole.length then .error (.longNumeral whole.length)
      else
        .ok (.int (if negative then -(natOfDigits whole : Int) else natOfDigits whole), rest')

/-- A fixed word with its value. -/
def readWord (word : String) (value : Json) (s : List Char) : Reading Json :=
  if word.toList.isPrefixOf s then .ok (value, s.drop word.toList.length)
  else expecting "a value" s

/-- The members with a value under a key: the last one, if the key is there already. -/
def putMember (key : String) (value : Json) (members : Members) : Members :=
  if members.any (·.1 == key) then
    members.map fun member => if member.1 == key then (key, value) else member
  else members ++ [(key, value)]

/-- The members as they are written, each key once. -/
def uniqueMembers (members : Members) : Members :=
  if (members.map (·.1)).Nodup then members
  else members.foldl (fun unique member => putMember member.1 member.2 unique) []

mutual

/-- A value, after any blanks.  Lists and objects may lie inside each other up to the given
depth. -/
def readValue : Nat → Nat → List Char → Except ReadFault (Json × List Char)
  | _, 0, s => expecting "a value" s
  | depth, bound + 1, s =>
    match afterBlanks s with
    | [] => expecting "a value" []
    | c :: r =>
      if c = '\x7b' then
        match depth, afterBlanks r with
        | 0, _ => .error .tooDeep
        | _, '\x7d' :: rest => .ok (.obj [], rest)
        | depth + 1, rest => do
          let (members, rest) ← readMembers depth bound rest
          return (.obj (uniqueMembers members), rest)
      else if c = '[' then
        match depth, afterBlanks r with
        | 0, _ => .error .tooDeep
        | _, ']' :: rest => .ok (.arr [], rest)
        | depth + 1, rest => do
          let (items, rest) ← readItems depth bound rest
          return (.arr items, rest)
      else if c = '\x22' then do
        let (text, rest) ← readString [] r
        return (.str text, rest)
      else if c = '-' then
        if "Infinity".toList.isPrefixOf r then
          readWord "Infinity" (.real (.infinite true)) r
        else readNumber true r
      else if c = 't' then readWord "true" (.bool true) (c :: r)
      else if c = 'f' then readWord "false" (.bool false) (c :: r)
      else if c = 'n' then readWord "null" .null (c :: r)
      else if c = 'N' then readWord "NaN" (.real .notANumber) (c :: r)
      else if c = 'I' then readWord "Infinity" (.real (.infinite false)) (c :: r)
      else readNumber false (c :: r)

/-- The items of a list up to its closing bracket. -/
def readItems : Nat → Nat → List Char → Except ReadFault (List Json × List Char)
  | _, 0, s => expecting "a value" s
  | depth, bound + 1, s => do
    let (item, rest) ← readValue depth bound s
    match afterBlanks rest with
    | ',' :: rest => do
      let (items, rest) ← readItems depth bound rest
      return (item :: items, rest)
    | ']' :: rest => return ([item], rest)
    | rest => expecting "a comma or a closing bracket" rest

/-- The members of an object up to its closing brace. -/
def readMembers : Nat → Nat → List Char → Except ReadFault (Members × List Char)
  | _, 0, s => expecting "a member" s
  | depth, bound + 1, s => do
    match afterBlanks s with
    | '\x22' :: r => do
      let (key, rest) ← readString [] r
      match afterBlanks rest with
      | ':' :: rest => do
        let (value, rest) ← readValue depth bound rest
        match afterBlanks rest with
        | ',' :: rest => do
          let (members, rest) ← readMembers depth bound rest
          return ((key, value) :: members, rest)
        | '\x7d' :: rest => return ([(key, value)], rest)
        | rest => expecting "a comma or a closing brace" rest
      | rest => expecting "a colon" rest
    | rest => expecting "a member" rest

end

/-- The value that a text denotes, its lists and objects inside each other up to the given depth. -/
def ofTextUpTo (depth : Nat) (s : String) : Except ReadFault Json := do
  let chars := s.toList
  let (value, rest) ← readValue depth (2 * chars.length + 2) chars
  match afterBlanks rest with
  | [] => return value
  | rest => .error (.unexpected "the end" rest.length)

/-- The value that a text denotes. -/
def ofText (s : String) : Except ReadFault Json :=
  ofTextUpTo s.length s

end GoConventions.Json
