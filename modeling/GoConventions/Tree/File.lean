import GoConventions.Tree.Imports
import GoConventions.Tree.Walk

/-!
# Reading a file

From the tree of a file to its model.  The comments are collected first, since declarations look for
theirs; then the package clause and the declarations are read in order, and at last the identifiers
are put in the order of the source and the calls are given their comments.

## Main definitions

* `readTree`: the model of a file, from its path, its text and its tree.
-/

namespace GoConventions

variable (src : CommentedText)

/-- The comments of the declaration that stands on a line. -/
def docsAt (line : Int) (group : Option CommentBlock) : DocComments :=
  let doc := src.leadingComment? line
  { doc, group, detached := if doc.isSome then none else src.detachedComment? line }

/-- Declares a type. -/
def readTypeSpec (spec : Members) (root : Nat) (anchor : Span) (docs : DocComments) :
    TreeReader Unit := do
  recordIdentifier src.toSourceText (spec.get "name")
  walkTree src.toSourceText (spec.get "type") root .other
  let name ← nodeOrEmpty (spec.get "name")
  declare { name := name.name, kind := .typeName, exported := isExported name.name, scope := root,
            span := anchor, nameSpan := ← src.span name, doc := docs.doc,
            detachedDoc := docs.detached, groupDoc := docs.group }

/-- Reads a declaration of types, constants or variables. -/
def readGeneral (decl : Members) (root : Nat) : TreeReader Unit := do
  let token := decl.get "tok"
  let span ← src.span decl
  let specs ← nodesIn (decl.get "specs")
  let grouped ← isParenthesized src.toSourceText decl
  let group := if grouped then src.leadingComment? span.start.line else none
  specs.forM fun spec => do
    let specSpan ← src.span spec
    let anchor := if grouped then specSpan else span
    let docs := docsAt src anchor.start.line group
    if token.isText "type" then readTypeSpec src spec root anchor docs
    else walkValueSpec src.toSourceText (walkTree src.toSourceText) spec token root anchor docs

/-- Reads a function or a method. -/
def readFunction (decl : Members) (root : Nat) : TreeReader Unit := do
  let walk := walkTree src.toSourceText
  let span ← src.span decl
  let name ← nodeOrEmpty (decl.get "name")
  recordIdentifier src.toSourceText (.obj name)
  let receiver ← receiver? src.toSourceText (decl.get "recv")
  let body ← openScope .function span (some root)
  let signature ← nodeOrEmpty (decl.get "type")
  let params ← declareParameters src.toSourceText walk (signature.get "params") body
  let results ← resultTypes src.toSourceText walk (signature.get "results") body
  let docs := docsAt src span.start.line none
  declare { name := name.name, kind := if receiver.isSome then .method else .function,
            exported := isExported name.name, scope := root, span, nameSpan := ← src.span name,
            doc := docs.doc, detachedDoc := docs.detached, receiver, params, results,
            bodyScope := some body }
  walkBody src.toSourceText walk (decl.get "body") body

/-- Reads one declaration of the file. -/
def readDeclaration (root : Nat) (decl : Members) : TreeReader Unit :=
  if decl.hasKind "GenDecl" then
    if (decl.get "tok").isText "import" then readImports src decl root
    else readGeneral src decl root
  else if decl.hasKind "FuncDecl" then readFunction src decl root
  else walkTree src.toSourceText (.obj decl) root .other

/-- The package clause of a file. -/
structure PackageClause where
  name : String
  nameSpan : Span
  span : Span
  doc : Option CommentBlock

/-- Reads the package clause.  Its span reaches from the start of the file node to the end of the
name. -/
def packageClause (tree : Members) : TreeResult PackageClause := do
  match tree.get "package" with
  | .obj clause => do
    let clause : Members := clause
    let start ← src.position tree "pos"
    let nameSpan ← src.span clause
    return ⟨clause.name, nameSpan, ⟨start, nameSpan.stop⟩, src.leadingComment? start.line⟩
  | _ => src.malformed .missingPackage

/-- Reads the package clause and all declarations. -/
def readFile (tree : Members) : TreeReader PackageClause := do
  let root ← openScope .file src.wholeSpan none
  let clause ← packageClause src tree
  declare { name := clause.name, kind := .package, exported := false, scope := root,
            span := clause.span, nameSpan := clause.nameSpan, doc := clause.doc }
  (← nodesIn (tree.get "decls")).forM (readDeclaration src root)
  return clause

/-- A call with the text of the comment that trails it, or else of the one that leads its line. -/
def annotated (call : CallSite) : CallSite :=
  let comment :=
    (src.trailingComment? call.span.stop.line call.span.stop.offset).or
      (src.leadingComment? call.span.start.line)
  match comment with
  | some comment => { call with annotation := some comment.text }
  | none => call

/-- The model of a file. -/
def readTree (path text : String) (tree : Members) : TreeResult SourceUnit := do
  let file : SourceText := ⟨path, text⟩
  if !tree.hasKind "File" then file.malformed .rootNotFile
  else
    let comments ← collectComments file tree
    let src := file.withComments comments
    let (clause, draft) ← (readFile src tree).run {}
    return {
      path, text, comments
      packageName := clause.name
      packageSpan := clause.span
      packageDoc := clause.doc
      declarations := draft.declarations
      scopes := draft.scopes
      imports := draft.imports
      identifiers := sortBy (compareOn (·.span.start.offset)) draft.identifiers
      calls := draft.calls.map (annotated src) }

end GoConventions
