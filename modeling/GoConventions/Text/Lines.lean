import GoConventions.Text.Search

/-!
# Lines

Two ways in which a text has lines.

*Source lines* end at the line feed only, and a text has one more of them than it has line feeds.
Positions in source are counted in these: `lineStarts` gives the offset at which each begins.

*Paragraph lines*, of a comment or of an import block, end at any of the line boundaries of Unicode,
a carriage return followed by a line feed being one boundary; a boundary at the very end does not
begin another line.

`withLineFeeds` is the reading of a file's text: each carriage return, with or without a line feed
after it, becomes one line feed.
-/

namespace GoConventions.Text

/-- The source lines of a text, without their line feeds. -/
def lines (s : String) : List String :=
  splitAt '\n' s

/-- The offsets just after each line feed, the first character standing at offset `i`. -/
def startsAfter (i : Nat) : List Char → List Nat
  | [] => []
  | c :: r => if c = '\n' then (i + 1) :: startsAfter (i + 1) r else startsAfter (i + 1) r

/-- The offsets at which the source lines begin. -/
def lineStarts (s : String) : List Nat :=
  0 :: startsAfter 0 s.toList

theorem length_startsAfter (i : Nat) (s : List Char) :
    (startsAfter i s).length + 1 = (splitChars '\n' s).length := by
  induction s generalizing i with
  | nil => rfl
  | cons c r ih =>
    simp only [startsAfter, splitChars]
    split
    · simp [← ih (i + 1)]
    · rw [ih (i + 1)]
      split <;> rename_i h
      · exact absurd h (splitChars_ne_nil _ _)
      · simp [h]

/-- There are as many line starts as lines. -/
theorem length_lineStarts (s : String) : (lineStarts s).length = (lines s).length := by
  simp [lineStarts, lines, splitAt, length_startsAfter]

/-- Whether a character alone ends a paragraph line. -/
def isLineBoundary (c : Char) : Bool :=
  let n := c.toNat
  (0x0A ≤ n && n ≤ 0x0D) || (0x1C ≤ n && n ≤ 0x1E) || n == 0x85 || n == 0x2028 || n == 0x2029

/-- The paragraph lines of a list of characters; `line` holds the line being read, last character
first. -/
def paragraphLinesFrom (line : List Char) : List Char → List (List Char)
  | [] => if line.isEmpty then [] else [line.reverse]
  | '\r' :: '\n' :: r => line.reverse :: paragraphLinesFrom [] r
  | c :: r =>
    if isLineBoundary c then line.reverse :: paragraphLinesFrom [] r
    else paragraphLinesFrom (c :: line) r

/-- The paragraph lines of a text, without their boundaries. -/
def paragraphLines (s : String) : List String :=
  (paragraphLinesFrom [] s.toList).map String.ofList

/-- The characters with every carriage return, and a line feed after it, as one line feed. -/
def withLineFeedsChars : List Char → List Char
  | [] => []
  | '\r' :: '\n' :: r => '\n' :: withLineFeedsChars r
  | c :: r => (if c = '\r' then '\n' else c) :: withLineFeedsChars r

/-- The text of a file as it is read: all line ends are line feeds. -/
def withLineFeeds (s : String) : String :=
  String.ofList (withLineFeedsChars s.toList)

end GoConventions.Text
