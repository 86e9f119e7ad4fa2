import GoConventions.Text.Lines
import GoConventions.Text.Slice
import GoConventions.Text.Blank

/-!
# Positions and spans

A position of a source text is an offset in characters together with the line and column it falls
in, both counted from one.  A span is the half-open range between two positions.

`positionAt` finds the line by counting the line starts that are not after the offset.  An offset
before the text has no such line start; it is placed in a line zero, its column measured from the
start of the last line, as an index below zero is counted from the end.

## Main definitions

* `Position`, `Span`, with the order of positions by line, column and offset.
* `SourceText`: a path and the text found there; `positionAt`, `spanOf`, `textAt`, `lineText`,
  `linesBetween`.
* `Span.overlaps`, `Span.contains`: the relations of half-open ranges.
-/

namespace GoConventions

structure Position where
  line : Int
  column : Int
  offset : Int
  deriving DecidableEq, Repr

/-- Positions are ordered by line, then column, then offset. -/
def Position.order : Position → Position → Ordering :=
  compareLex (compareOn Position.line) (compareLex (compareOn Position.column)
    (compareOn Position.offset))

/-- The half-open range of a text between two positions. -/
structure Span where
  start : Position
  stop : Position
  deriving DecidableEq, Repr

namespace Span

/-- The number of lines that a span touches. -/
def lineCount (s : Span) : Int :=
  s.stop.line - s.start.line + 1

/-- Whether two ranges have a character in common. -/
def overlaps (s t : Span) : Bool :=
  s.start.offset < t.stop.offset && t.start.offset < s.stop.offset

/-- Whether the first range holds the second. -/
def contains (s t : Span) : Bool :=
  s.start.offset ≤ t.start.offset && t.stop.offset ≤ s.stop.offset

theorem overlaps_comm (s t : Span) : s.overlaps t = t.overlaps s := by
  simp [overlaps, Bool.and_comm]

end Span

/-- A source file: its path and its text. -/
structure SourceText where
  path : String
  text : String
  deriving DecidableEq, Repr

namespace SourceText

/-- The number of characters. -/
def length (src : SourceText) : Nat :=
  src.text.length

/-- The source lines, without their line feeds. -/
def lines (src : SourceText) : List String :=
  Text.lines src.text

/-- The offsets at which the lines begin. -/
def lineStarts (src : SourceText) : List Nat :=
  Text.lineStarts src.text

/-- A line by its number, counted from one; empty if there is no such line. -/
def lineText (src : SourceText) (line : Int) : String :=
  if line < 1 then "" else (src.lines[(line - 1).toNat]?).getD ""

/-- Whether there is a line with this number and it holds nothing but blanks. -/
def lineIsBlank (src : SourceText) (line : Int) : Bool :=
  1 ≤ line && line ≤ src.lines.length && Text.isBlankText (src.lineText line)

/-- The lines whose numbers lie between two numbers, both included. -/
def linesBetween (src : SourceText) (first last : Int) : List String :=
  (src.lines.take last.toNat).drop (first - 1).toNat

/-- The position of an offset. -/
def positionAt (src : SourceText) (offset : Int) : Position :=
  let begun := src.lineStarts.takeWhile fun (start : Nat) => (start : Int) ≤ offset
  let start := (begun.getLast?.or src.lineStarts.getLast?).getD 0
  ⟨begun.length, offset - start + 1, offset⟩

/-- The span between two offsets. -/
def spanOf (src : SourceText) (start stop : Int) : Span :=
  ⟨src.positionAt start, src.positionAt stop⟩

/-- The text of a span. -/
def textAt (src : SourceText) (span : Span) : String :=
  Text.slice span.start.offset span.stop.offset src.text

/-- Whether a span is a range of the text. -/
def containsSpan (src : SourceText) (span : Span) : Bool :=
  0 ≤ span.start.offset && span.start.offset ≤ span.stop.offset && span.stop.offset ≤ src.length

/-- The span of the whole text. -/
def wholeSpan (src : SourceText) : Span :=
  ⟨⟨1, 1, 0⟩, src.positionAt src.length⟩

/-- Whether the file is a test file, which its name says. -/
def isTestFile (src : SourceText) : Bool :=
  Text.endsWith src.path "_test.go"

/-- What stands before a position on its line. -/
def lineBefore (src : SourceText) (position : Position) : String :=
  Text.upTo (position.column - 1) (src.lineText position.line)

/-- The span of a whole line, given its number, where it starts, and its length. -/
def lineSpan (number start length : Nat) : Span :=
  ⟨⟨number, 1, start⟩, ⟨number, length + 1, start + length⟩⟩

end SourceText

end GoConventions
