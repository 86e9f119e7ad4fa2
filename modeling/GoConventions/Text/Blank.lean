/-!
# Blank characters

The characters that separate words and may be trimmed from the ends of a text: the ASCII blanks
with the four information separators, the next-line control, and the space characters of Unicode.

## Main definitions

* `isBlank`: the property, as ranges of code points.
* `trim`, `trimStart`, `trimEnd`: a text without the blanks at its ends.
* `words`: the parts of a text between blanks; none of them is empty.
-/

namespace GoConventions.Text

/-- Whether a character separates words. -/
def isBlank (c : Char) : Bool :=
  let n := c.toNat
  (0x09 ≤ n && n ≤ 0x0D) || (0x1C ≤ n && n ≤ 0x20) || n == 0x85 || n == 0xA0 || n == 0x1680 ||
    (0x2000 ≤ n && n ≤ 0x200A) || n == 0x2028 || n == 0x2029 || n == 0x202F || n == 0x205F ||
    n == 0x3000

/-- Every blank of the ASCII set of `Char.isWhitespace` is a blank. -/
theorem isBlank_of_isWhitespace {c : Char} (h : c.isWhitespace = true) : isBlank c = true := by
  simp only [Char.isWhitespace, Bool.or_eq_true, decide_eq_true_eq] at h
  rcases h with ((h | h) | h) | h <;> subst h <;> decide

/-- A list without the elements at its end that satisfy `p`. -/
def dropEndWhile (p : Char → Bool) (s : List Char) : List Char :=
  (s.reverse.dropWhile p).reverse

/-- The characters without the blanks at both ends. -/
def trimChars (s : List Char) : List Char :=
  dropEndWhile isBlank (s.dropWhile isBlank)

def trimStart (s : String) : String :=
  String.ofList (s.toList.dropWhile isBlank)

def trimEnd (s : String) : String :=
  String.ofList (dropEndWhile isBlank s.toList)

def trim (s : String) : String :=
  String.ofList (trimChars s.toList)

/-- A text without the characters at its end that satisfy `p`. -/
def trimEndWhile (p : Char → Bool) (s : String) : String :=
  String.ofList (dropEndWhile p s.toList)

/-- A text without the characters at both ends that satisfy `p`. -/
def trimWhile (p : Char → Bool) (s : String) : String :=
  String.ofList (dropEndWhile p (s.toList.dropWhile p))

/-- Whether a text holds nothing but blanks. -/
def isBlankText (s : String) : Bool :=
  s.toList.all isBlank

/-- The words of a list of characters; `word` holds the word being read, last character first. -/
def wordsFrom (word : List Char) : List Char → List (List Char)
  | [] => if word.isEmpty then [] else [word.reverse]
  | c :: r =>
    if isBlank c then (if word.isEmpty then [] else [word.reverse]) ++ wordsFrom [] r
    else wordsFrom (c :: word) r

/-- The words of a text: the longest parts without a blank. -/
def words (s : String) : List String :=
  (wordsFrom [] s.toList).map String.ofList

end GoConventions.Text
