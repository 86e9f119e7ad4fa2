import GoConventions.Convention.Context
import GoConventions.Text.Layout

/-!
# Layout

What a formatter leaves alone: the length of lines, and imports that are spread over several
declarations.  A line that holds nothing but comment text has a limit of its own.  Lines that cannot
be broken, because they hold an address or an instruction to a tool, have none.

## Main definitions

* `isCommentLine`: whether a line belongs to one of the given comments.
* `lineRemark?`, `spreadImportRemarks`.
* `layoutEvaluator`.
-/

namespace GoConventions

/-- The distance of tab stops. -/
def tabWidth : Nat := 4

/-- The parts of a line that show that it cannot be broken. -/
def unbreakableMarks : List String :=
  ["http://", "https://", "//go:", "//nolint", "// +build"]

/-- The comments whose lines are comment lines: those that stand alone. -/
def lineComments (unit : SourceUnit) : List CommentBlock :=
  unit.standalone unit.comments

/-- Whether a line belongs to one of the comments. -/
def isCommentLine (comments : List CommentBlock) (line : Int) : Bool :=
  comments.any fun comment => comment.span.start.line ≤ line && line ≤ comment.span.stop.line

/-- The number of columns of a line. -/
def displayWidth (line : String) : Nat :=
  Text.width tabWidth line

example : displayWidth "\tab\tc" = 9 := by decide +kernel

/-- The remark on a line of the given number that starts at the given offset; `comments` are those
that make comment lines. -/
def lineRemark? (context : Context) (comments : List CommentBlock) (number start : Nat)
    (line : String) : Option Remark :=
  if unbreakableMarks.any (Text.contains line) then none
  else
    let width := displayWidth line
    let settings := context.settings
    let (ruleId, limit, label) :=
      if isCommentLine comments number then
        ("FMT002", settings.maxCommentLineLength, "comment line")
      else ("FMT001", settings.maxLineLength, "line")
    if limit < (width : Int) && context.enabled ruleId then
      some {
        ruleId, span := SourceText.lineSpan number start line.toList.length
        message := label ++ " is " ++ toString width ++ " columns wide (limit " ++
          toString limit ++ ")" }
    else none

/-- The remarks on all import declarations but the first. -/
def spreadImportRemarks (unit : SourceUnit) : List Remark :=
  (unit.imports.drop 1).map fun decl =>
    { ruleId := "FMT003", span := decl.span
      message := toString unit.imports.length ++
        " import declarations; merge them into one factored block" }

/-- The remarks on the layout of a file. -/
def layoutRemarks (context : Context) : List Remark :=
  let unit := context.unit
  let comments := lineComments unit
  ((unit.lines.zip unit.lineStarts).zipIdx.filterMap fun ((line, start), index) =>
      lineRemark? context comments (index + 1) start line) ++
    context.whenEnabled "FMT003" (spreadImportRemarks unit)

def layoutEvaluator : Evaluator :=
  .ofRemarks .formatting layoutRemarks

end GoConventions
