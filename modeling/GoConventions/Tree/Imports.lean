import GoConventions.Tree.Comments
import GoConventions.Tree.Draft

/-!
# Import declarations

The entries of an import declaration, in groups that blank lines separate, and the range between its
parentheses.
-/

namespace GoConventions

variable (src : CommentedText)

/-- The import that a specification declares. -/
def importEntry (spec : Members) : TreeResult ImportEntry := do
  match spec.get "path" with
  | .obj pathNode => do
    let pathNode : Members := pathNode
    let aliasNode := ((spec.get "name").members?).filter (!·.isEmpty)
    let span ← src.span spec
    let path ←
      match decodeLiteral (pathNode.textOr "value" "\x22\x22") with
      | .ok path => pure path
      | .error fault => throw (.literal fault)
    let pathSpan ← src.span pathNode
    let aliasSpan ← aliasNode.mapM fun node => src.span node
    return {
      path, span, pathSpan, aliasSpan
      aliasName := aliasNode.map fun node => (node.get "name").text
      comment := (src.trailingComment? span.stop.line span.stop.offset).map (·.text) }
  | _ => src.malformed .importWithoutPath

/-- Whether a blank line stands between two lines. -/
def blankLineBetween (src : SourceText) (first last : Int) : Bool :=
  (src.linesBetween (first + 1) (last - 1)).any Text.isBlankText

/-- The entries in groups: an entry starts a group when a blank line separates it from the one
before it. -/
def groupEntries (src : SourceText) : List ImportEntry → List ImportGroup
  | [] => []
  | entry :: entries =>
    match groupEntries src entries with
    | [] => [⟨entry, []⟩]
    | group :: groups =>
      if blankLineBetween src entry.span.stop.line group.first.span.start.line then
        ⟨entry, []⟩ :: group :: groups
      else ⟨entry, group.first :: group.rest⟩ :: groups

/-- Whether the specifications of a declaration stand in parentheses: as the document says, or else
as the source shows. -/
def isParenthesized (src : SourceText) (decl : Members) : TreeResult Bool := do
  match decl.lookup "lparen" with
  | some value => return !value.isVacant
  | none =>
    let head ← src.sourceOf decl
    let keyword := decl.textOr "tok" ""
    return Text.startsWith (Text.trimStart (Text.dropFirst keyword.toList.length head)) "("

/-- The range between the first opening and the last closing parenthesis of a span. -/
def parenthesizedBody? (src : SourceText) (span : Span) : Option Span :=
  let chars := (src.textAt span).toList
  match chars.findIdx? (· == '('), chars.reverse.findIdx? (· == ')') with
  | some opening, some fromEnd =>
    let closing := chars.length - 1 - fromEnd
    if opening < closing then
      some (src.spanOf (span.start.offset + opening + 1) (span.start.offset + closing))
    else none
  | _, _ => none

/-- Reads an import declaration and declares its imports. -/
def readImports (decl : Members) (root : Nat) : TreeReader Unit := do
  let span ← src.span decl
  let parenthesized ← isParenthesized src.toSourceText decl
  let specs ← nodesIn (decl.get "specs")
  let entries ← specs.mapM fun spec => (importEntry src spec : TreeReader ImportEntry)
  entries.forM fun entry =>
    declare { name := entry.localName, kind := .importName, exported := false, scope := root,
              span := entry.span, nameSpan := entry.aliasSpan.getD entry.pathSpan }
  recordImport {
    span, parenthesized
    groups := groupEntries src.toSourceText entries
    bodySpan := if parenthesized then parenthesizedBody? src.toSourceText span else none }

end GoConventions
