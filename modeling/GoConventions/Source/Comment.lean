import GoConventions.Source.Position
import GoConventions.Text.Blank

/-!
# Comments

A comment block is a run of adjacent comments as the parser grouped them, each kept as it stands in
the source.  Its text is what remains without the comment marks and the blanks around each line.

A block *stands alone* when nothing but blanks precedes it on its first line.
-/

namespace GoConventions

structure CommentBlock where
  span : Span
  lines : List String
  deriving DecidableEq, Repr

/-- The lines of one comment without its marks: the rest of a line comment, or the lines between the
marks of a block comment, whose closing mark may be missing. -/
def commentLines (raw : String) : List String :=
  if Text.startsWith raw "//" then [Text.trim (Text.dropFirst 2 raw)]
  else if Text.startsWith raw "/*" then
    let body := if Text.endsWith raw "*/" then Text.slice 2 (-2) raw else Text.dropFirst 2 raw
    (Text.paragraphLines body).map Text.trim
  else [Text.trim raw]

/-- The text of comments, given as they stand in the source, without the comment marks. -/
def commentText (raws : List String) : String :=
  Text.trim (Text.join "\n" (raws.flatMap commentLines))

example : commentText ["// One ", "/* two\n   three */"] = "One\ntwo\nthree" := by decide +kernel

/-- The text of a block without comment marks. -/
def CommentBlock.text (block : CommentBlock) : String :=
  commentText block.lines

/-- A comment without lines has no text. -/
theorem CommentBlock.lines_ne_nil {comment : CommentBlock} (h : Text.trimEnd comment.text ≠ "") :
    comment.lines ≠ [] := by
  intro hnil
  refine h ?_
  rw [CommentBlock.text, hnil]
  decide +kernel

namespace SourceText

/-- Whether nothing but blanks precedes a block on its first line. -/
def standsAlone (src : SourceText) (block : CommentBlock) : Bool :=
  Text.isBlankText (src.lineBefore block.span.start)

/-- The blocks that stand alone. -/
def standalone (src : SourceText) (blocks : List CommentBlock) : List CommentBlock :=
  blocks.filter src.standsAlone

end SourceText

end GoConventions
