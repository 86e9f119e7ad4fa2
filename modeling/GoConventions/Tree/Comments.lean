import GoConventions.Order.Sorting
import GoConventions.Tree.Node

/-!
# The comments of a tree

Comment groups are listed by the file and may also hang below the nodes they belong to, so the same
group can occur several times.  A file has one comment block for each offset at which a group
starts, the first group met there, in the order of the offsets.

A block that stands alone leads the line after its last one; the one that ends two lines above,
across a blank line, is detached from it.  A block that starts on the line where something ends, and
not before the end of it, trails it.

## Main definitions

* `collectComments`: the comment blocks of a file.
* `CommentedText`: a source file with its comments, those that stand alone told apart.
* `leadingComment?`, `detachedComment?`, `trailingComment?`: the block attached to a place.
-/

namespace GoConventions

/-- The groups that hang directly below a node. -/
def attachedGroups (node : Members) : List Members :=
  ["doc", "comment"].filterMap fun key => (node.get key).members?

mutual

/-- The groups that hang below the nodes of a value, in the order of a walk. -/
def embeddedGroups : Json → List Members
  | .obj node => attachedGroups node ++ embeddedGroupsOfParts node
  | .arr items => embeddedGroupsOfItems items
  | _ => []

def embeddedGroupsOfItems : List Json → List Members
  | [] => []
  | item :: items => embeddedGroups item ++ embeddedGroupsOfItems items

/-- The groups below the parts of a node; its comments themselves are no parts. -/
def embeddedGroupsOfParts : List (String × Json) → List Members
  | [] => []
  | (key, value) :: members =>
    (if annotationKeys.contains key then [] else embeddedGroups value) ++
      embeddedGroupsOfParts members

end

/-- The block of a comment group. -/
def commentBlock (src : SourceText) (group : Members) : TreeResult CommentBlock := do
  let entries ← nodesIn (group.get "list")
  return ⟨← src.span group, entries.map (·.textOr "text" "")⟩

/-- The groups with the offsets at which they start, the first one for each offset. -/
def groupsByOffset (src : SourceText) :
    List (Int × Members) → List Members → TreeResult (List (Int × Members))
  | known, [] => .ok known
  | known, group :: groups => do
    let start ← src.position group "pos"
    if known.any (·.1 == start.offset) then groupsByOffset src known groups
    else groupsByOffset src (known ++ [(start.offset, group)]) groups

/-- The comment blocks of a file, in the order of their offsets. -/
def collectComments (src : SourceText) (tree : Members) : TreeResult (List CommentBlock) := do
  let listed ← nodesIn (tree.get "comments")
  let groups := (listed ++ embeddedGroups (.obj tree)).filter fun group =>
    !(group.get "list").isVacant
  let known ← groupsByOffset src [] groups
  (sortBy (compareOn (·.1)) known).mapM fun (_, group) => commentBlock src group

/-- A source file with its comments, and those among them that stand alone. -/
structure CommentedText extends SourceText where
  comments : List CommentBlock
  alone : List CommentBlock

/-- A source file with the given comments. -/
def SourceText.withComments (src : SourceText) (comments : List CommentBlock) : CommentedText :=
  { src with comments, alone := src.standalone comments }

namespace CommentedText

variable (src : CommentedText)

/-- The last block that stands alone and ends on the line. -/
def commentEndingOn? (line : Int) : Option CommentBlock :=
  (src.alone.filter fun block => block.span.stop.line == line).getLast?

/-- The block that leads a line. -/
def leadingComment? (line : Int) : Option CommentBlock :=
  src.commentEndingOn? (line - 1)

/-- The block that a blank line separates from a line. -/
def detachedComment? (line : Int) : Option CommentBlock :=
  if src.lineIsBlank (line - 1) then src.commentEndingOn? (line - 2) else none

/-- The first block that starts on a line at or after an offset. -/
def trailingComment? (line offset : Int) : Option CommentBlock :=
  src.comments.find? fun block =>
    block.span.start.line == line && offset ≤ block.span.start.offset

end CommentedText

end GoConventions
