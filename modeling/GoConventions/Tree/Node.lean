import GoConventions.Json.WholeNumber
import GoConventions.Source.Position
import GoConventions.Source.Unit
import GoConventions.Text.ByteOffset
import GoConventions.Tree.Fault

/-!
# Nodes of a tree document

A node is a JSON object with a kind, two positions and members for its parts.  The reader trusts a
document for its structure but not for its positions: every position must give a line, a column and
a byte offset, lie in the source, and state the line that its offset falls in.

Absent parts are forgiven.  A vacant value counts as an empty list or an empty object, and members
of a list that are not objects are passed over; any other value of the wrong shape is a fault.

## Main definitions

* `elements`, `nodesIn`, `nodeOrEmpty`: a member as a list, as the nodes of a list, as a node.
* `SourceText.position`, `SourceText.span`, `SourceText.sourceOf`: the place of a node in the
  source.
* `NodeKind`: the kinds of nodes that are walked in a way of their own.
-/

namespace GoConventions

/-- A step of the reader of a tree. -/
abbrev TreeResult := Except TreeFault

/-- A value as a list.  A vacant value is the empty list; the characters of a text and the keys of
an object are no nodes, so these count as empty too. -/
def elements : Json → TreeResult (List Json)
  | .arr items => .ok items
  | .str _ => .ok []
  | .obj _ => .ok []
  | value => if value.isVacant then .ok [] else .error .notList

/-- The nodes among the elements of a list. -/
def nodesIn (value : Json) : TreeResult (List Members) :=
  (elements value).map (·.filterMap Json.members?)

/-- A value as a node; a vacant value is a node without members. -/
def nodeOrEmpty : Json → TreeResult Members
  | .obj members => .ok members
  | value => if value.isVacant then .ok [] else .error .notObject

/-- The name that an identifier node carries. -/
def Members.name (node : Members) : String :=
  node.textOr "name" ""

/-- Whether a node is of the kind. -/
def Members.hasKind (node : Members) (kind : String) : Bool :=
  (node.get "kind").isText kind

/-- Whether a value is a node of the kind. -/
def Json.hasKind (value : Json) (kind : String) : Bool :=
  match value with
  | .obj node => Members.hasKind node kind
  | _ => false

/-- The kinds of nodes that are walked in a way of their own. -/
inductive NodeKind where
  | identifier
  | selector
  | call
  | block
  | functionLiteral
  | conditional
  /-- A loop over a range, which may define its variables. -/
  | rangeLoop
  /-- Another statement that opens a scope for all of its parts. -/
  | scoped
  /-- A clause of a switch or a select statement. -/
  | clause
  | assignment
  | declaration
  /-- A statement that says what becomes of the results of the calls directly below it. -/
  | plain (context : CallContext)
  | other
  deriving DecidableEq, Repr

/-- The kind of a node by its name. -/
def NodeKind.ofName (name : String) : NodeKind :=
  match name with
  | "Ident" => .identifier
  | "SelectorExpr" => .selector
  | "CallExpr" => .call
  | "BlockStmt" => .block
  | "FuncLit" => .functionLiteral
  | "IfStmt" => .conditional
  | "RangeStmt" => .rangeLoop
  | "ForStmt" => .scoped
  | "SwitchStmt" => .scoped
  | "TypeSwitchStmt" => .scoped
  | "SelectStmt" => .scoped
  | "CaseClause" => .clause
  | "CommClause" => .clause
  | "AssignStmt" => .assignment
  | "DeclStmt" => .declaration
  | "ExprStmt" => .plain .statement
  | "GoStmt" => .plain .go
  | "DeferStmt" => .plain .defer
  | "ReturnStmt" => .plain .returned
  | _ => .other

/-- The kind of a node.  A kind that is no text names no known kind. -/
def NodeKind.of : Json → TreeResult NodeKind
  | .str name => .ok (.ofName name)
  | .arr _ => .error .compoundKind
  | .obj _ => .error .compoundKind
  | _ => .ok .other

/-- The members that are not parts of a node: its kind and place, and its comments. -/
def annotationKeys : List String :=
  ["kind", "pos", "end", "doc", "comment", "comments"]

/-- The parts of a node, in their order. -/
def Members.parts (node : Members) : Members :=
  node.filter fun part => !annotationKeys.contains part.1

namespace SourceText

variable (src : SourceText)

/-- A malformation of this file. -/
def malformed {α : Type} (what : Malformation) : TreeResult α :=
  .error (.malformed (some src.path) what)

/-- The line and the byte offset that a position states; its column is only checked to be positive,
since columns are counted in characters and the parser counts bytes. -/
def statedPlace (raw : Members) : Except WholeNumberFault (Int × Int) := do
  let line ← (raw.get "line").wholeNumber
  let column ← (raw.get "column").wholeNumber
  if column < 1 then throw (.unreadable (toString column))
  let byte ← (raw.get "offset").wholeNumber
  return (line, byte)

/-- The position of a node that stands under `side`, its beginning or its end. -/
def position (node : Members) (side : String) : TreeResult Position :=
  let kind := node.textOr "kind" "node"
  match node.get side with
  | .obj raw =>
    match statedPlace raw with
    | .error .infinite => .error .infiniteNumber
    | .error _ => src.malformed (.incompletePosition kind side)
    | .ok (line, byte) =>
      let offset := Text.charOffset src.text byte
      if offset < 0 || src.length < offset then src.malformed (.outsideSource kind offset)
      else
        let position := src.positionAt offset
        if position.line = line then .ok position
        else src.malformed (.wrongLine kind line offset)
  | _ => src.malformed (.missingPosition kind side)

/-- The span of a node. -/
def span (node : Members) : TreeResult Span := do
  return ⟨← src.position node "pos", ← src.position node "end"⟩

/-- The source of a node. -/
def sourceOf (node : Members) : TreeResult String := do
  return src.textAt (← src.span node)

/-- The source of a value that may be a node; other values have none. -/
def sourceOrEmpty : Json → TreeResult String
  | .obj node => src.sourceOf node
  | _ => .ok ""

end SourceText

end GoConventions
