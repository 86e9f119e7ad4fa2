/-!
# Finding and splitting

Questions about the parts of a text: what it starts or ends with, whether it holds another text,
and how a separator divides it.  All are answered on the list of characters, so that the library's
lemmas on prefixes, suffixes and `takeWhile` apply.
-/

namespace GoConventions.Text

def startsWith (s p : String) : Bool :=
  p.toList.isPrefixOf s.toList

def endsWith (s p : String) : Bool :=
  p.toList.isSuffixOf s.toList

/-- The characters before the first place where `p` stands, or all of them if there is none. -/
def charsBefore (p : List Char) : List Char → List Char
  | [] => []
  | c :: r => if p.isPrefixOf (c :: r) then [] else c :: charsBefore p r

/-- Whether `p` stands somewhere in the characters. -/
def containsChars (p : List Char) : List Char → Bool
  | [] => p.isEmpty
  | c :: r => p.isPrefixOf (c :: r) || containsChars p r

/-- Whether the text holds `p`. -/
def contains (s p : String) : Bool :=
  containsChars p.toList s.toList

/-- The text before the first place where `p` stands. -/
def before (s p : String) : String :=
  String.ofList (charsBefore p.toList s.toList)

/-- The parts of a list between the separators; one more than there are separators. -/
def splitChars (sep : Char) : List Char → List (List Char)
  | [] => [[]]
  | c :: r =>
    if c = sep then [] :: splitChars sep r
    else
      match splitChars sep r with
      | [] => [[c]]
      | part :: parts => (c :: part) :: parts

/-- The parts of a text between the separators. -/
def splitAt (sep : Char) (s : String) : List String :=
  (splitChars sep s.toList).map String.ofList

/-- The part of a text before the first separator. -/
def firstPart (sep : Char) (s : String) : String :=
  String.ofList (s.toList.takeWhile (· != sep))

/-- The part of a text after the last separator. -/
def lastPart (sep : Char) (s : String) : String :=
  String.ofList (s.toList.reverse.takeWhile (· != sep)).reverse

/-- The part of a text before the last separator, or the whole text if there is none. -/
def beforeLastPart (sep : Char) (s : String) : String :=
  match s.toList.reverse.dropWhile (· != sep) with
  | [] => s
  | _ :: r => String.ofList r.reverse

/-- Whether a character stands in the text. -/
def hasChar (c : Char) (s : String) : Bool :=
  s.toList.contains c

theorem splitChars_ne_nil (sep : Char) (s : List Char) : splitChars sep s ≠ [] := by
  cases s with
  | nil => simp [splitChars]
  | cons c r => unfold splitChars; split <;> (try split) <;> simp

/-- The texts, one after the other, with `sep` between each two. -/
def join (sep : String) (parts : List String) : String :=
  sep.intercalate parts

end GoConventions.Text
