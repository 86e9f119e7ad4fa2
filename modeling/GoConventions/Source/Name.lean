import GoConventions.Text.Case
import GoConventions.Text.Search
import GoConventions.Text.Blank
import GoConventions.Text.Slice

/-!
# Names and their words

How a Go identifier divides into words, and how words are put together as a name in mixed capitals.

A word is a run of capitals with the digits after it, or an optional capital and a run of small
letters with the digits after it, or a run of digits.  A run of capitals ends before a small letter:
its last capital, or its last digit, then belongs to what follows, so `HTTPServer` has the words
`HTTP` and `Server`.  Only ASCII letters and digits are parts of words; everything else, low lines
above all, separates them.

## Main definitions

* `wordsWithOffsets`, `nameWords`: the words of a name, with and without their places.
* `isInitialism`: the acronyms that keep one case.
* `mixedCaps`: a name in mixed capitals from its words.
* `isExported`: whether a name is visible outside its package.
-/

namespace GoConventions

/-- How many characters at the front of a text form its first word; zero if none does. -/
def wordLength (s : List Char) : Nat :=
  let capitals := (s.takeWhile Char.isUpper).length
  let digits := ((s.drop capitals).takeWhile Char.isDigit).length
  let small := (((s.drop (capitals + digits)).takeWhile Char.isLower).length)
  if capitals = 0 then
    if digits = 0 then
      small + ((s.drop small).takeWhile Char.isDigit).length
    else digits
  else if small = 0 then capitals + digits
  -- A small letter follows the run, which gives up its last digit or its last capital.
  else if digits != 0 then capitals + digits - 1
  else if capitals != 1 then capitals - 1
  -- A single capital begins a word of small letters.
  else 1 + small + ((s.drop (1 + small)).takeWhile Char.isDigit).length

/-- The words of a text whose first character stands at offset `i`, after passing over the given
number of characters; each with the offset of its first character. -/
def wordsFrom (i : Nat) : Nat → List Char → List (String × Nat)
  | _, [] => []
  | skip + 1, _ :: r => wordsFrom (i + 1) skip r
  | 0, c :: r =>
    match wordLength (c :: r) with
    | 0 => wordsFrom (i + 1) 0 r
    | n + 1 => (String.ofList ((c :: r).take (n + 1)), i) :: wordsFrom (i + 1) n r

/-- The words of a name, each with its offset. -/
def wordsWithOffsets (name : String) : List (String × Nat) :=
  wordsFrom 0 0 name.toList

/-- The words of a name. -/
def nameWords (name : String) : List String :=
  (wordsWithOffsets name).map (·.1)

/-- The acronyms that are written in one case throughout. -/
def initialisms : List String :=
  ["ACL", "API", "ASCII", "CPU", "CSS", "DB", "DNS", "EOF", "GID", "GUID", "HTML", "HTTP", "HTTPS",
   "ID", "IP", "JSON", "LHS", "QPS", "RAM", "RHS", "RPC", "SLA", "SMTP", "SQL", "SSH", "TCP", "TLS",
   "TTL", "UDP", "UI", "UID", "URI", "URL", "UTF8", "UUID", "VM", "XML", "XMPP", "XSRF", "XSS"]

/-- Whether a word, in any case, is such an acronym. -/
def isInitialism (word : String) : Bool :=
  initialisms.contains (Text.upper word)

/-- A word as it stands inside a name in mixed capitals. -/
def capitalized (word : String) : String :=
  if isInitialism word then Text.upper word
  else
    String.ofList (Text.upperChars (word.toList.take 1)) ++ Text.lower (Text.dropFirst 1 word)

/-- A name in mixed capitals, made of the words of the given name; the first word is small when the
name is not exported.  A name without words stays as it is. -/
def mixedCaps (name : String) (exported : Bool) : String :=
  match nameWords name with
  | [] => name
  | first :: rest =>
    String.join ((if exported then capitalized first else Text.lower first) ::
      rest.map capitalized)

/-- Whether low lines stand between other characters of the name. -/
def hasUnderscoreWords (name : String) : Bool :=
  Text.hasChar '_' (Text.trimWhile (· == '_') name)

/-- Whether a name is visible outside its package: it starts with an upper-case letter. -/
def isExported (name : String) : Bool :=
  match name.toList with
  | [] => false
  | c :: _ => Text.isUpper c

example : wordsWithOffsets "HTTPServer2x" = [("HTTP", 0), ("Server2", 4), ("x", 11)] := by
  decide +kernel
example : nameWords "AB12c" = ["AB1", "2", "c"] := by decide +kernel
example : mixedCaps "http_url_2go" true = "HTTPURL2Go" := by decide +kernel

end GoConventions
