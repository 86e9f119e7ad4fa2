import GoConventions.Tree.Node

/-!
# The model under construction

A tree is read in one walk that adds to a draft: scopes, declarations, identifiers, calls and
imports, each at the end of its list.  A scope lists the scopes and declarations in it by their
indexes; it is opened with empty lists, which grow when a scope is opened in it or a declaration is
added to it.

The depth of a scope counts the blocks around it within its function: a function starts at zero, a
block lies one deeper than its parent, and a clause lies as deep as its parent, since its statement
has been counted.

## Main definitions

* `Draft`, `TreeReader`: the draft and the walk's steps on it.
* `Draft.withScope`, `Draft.withDeclaration`: the draft with one more scope or declaration, listed
  by its parent or its scope.
* `openScope`, `declare`, `recordIdentifier`: the ways in which the draft grows.
-/

namespace GoConventions

/-- What a scope is opened with, and keeps. -/
structure OpenScope where
  kind : ScopeKind
  span : Span
  parent : Option Nat
  depth : Nat
  deriving DecidableEq, Repr

/-- The scope with nothing in it. -/
def OpenScope.empty (opened : OpenScope) (id : Nat) : Scope :=
  { id, kind := opened.kind, span := opened.span, parent := opened.parent, depth := opened.depth
    children := [], declarations := [] }

/-- The scope with one more child. -/
def Scope.withChild (scope : Scope) (child : Nat) : Scope :=
  { scope with children := scope.children ++ [child] }

/-- The scope with one more declaration. -/
def Scope.withDeclaration (scope : Scope) (index : Nat) : Scope :=
  { scope with declarations := scope.declarations ++ [index] }

structure Draft where
  scopes : List Scope := []
  declarations : List Declaration := []
  identifiers : List Identifier := []
  calls : List CallSite := []
  imports : List ImportDecl := []

/-- A step of the walk of a tree. -/
abbrev TreeReader := StateT Draft (Except TreeFault)

namespace Draft

/-- The depth of a new scope. -/
def depthIn (draft : Draft) (kind : ScopeKind) (parent : Option Nat) (deepens : Bool) : Nat :=
  match kind, parent with
  | .function, _ => 0
  | _, none => 0
  | _, some id =>
    match draft.scopes[id]? with
    | some scope => scope.depth + (if deepens then 1 else 0)
    | none => 0

/-- Whether a scope declares a name. -/
def declares (draft : Draft) (name : String) (id : Nat) : Bool :=
  match draft.scopes[id]? with
  | some scope => scope.declarations.any fun index =>
    draft.declarations[index]?.any fun decl => decl.name == name
  | none => false

/-- The draft with one more scope, which its parent lists. -/
def withScope (draft : Draft) (opened : OpenScope) : Draft :=
  let id := draft.scopes.length
  let scopes := draft.scopes ++ [opened.empty id]
  { draft with
    scopes := match opened.parent with
      | some parent => scopes.modify parent (·.withChild id)
      | none => scopes }

/-- The draft with one more declaration, which its scope lists. -/
def withDeclaration (draft : Draft) (decl : Declaration) : Draft :=
  let index := draft.declarations.length
  { draft with
    declarations := draft.declarations ++ [decl]
    scopes := draft.scopes.modify decl.scope (·.withDeclaration index) }

end Draft

/-- Opens a scope and answers its index. -/
def openScope (kind : ScopeKind) (span : Span) (parent : Option Nat) (deepens : Bool := true) :
    TreeReader Nat := do
  let draft ← get
  let depth := draft.depthIn kind parent deepens
  set (draft.withScope { kind, span, parent, depth })
  return draft.scopes.length

/-- Adds a declaration. -/
def declare (decl : Declaration) : TreeReader Unit :=
  modify (·.withDeclaration decl)

/-- Adds a call. -/
def recordCall (call : CallSite) : TreeReader Unit :=
  modify fun draft => { draft with calls := draft.calls ++ [call] }

/-- Adds an import declaration. -/
def recordImport (decl : ImportDecl) : TreeReader Unit :=
  modify fun draft => { draft with imports := draft.imports ++ [decl] }

/-- Adds an identifier, if the value is an identifier node. -/
def recordIdentifier (src : SourceText) (value : Json) (selector : Bool := false) :
    TreeReader Unit := do
  match value with
  | .obj node =>
    let node : Members := node
    if node.hasKind "Ident" then
      let span ← src.span node
      let identifier : Identifier := { name := node.name, span, selector }
      modify fun draft => { draft with identifiers := draft.identifiers ++ [identifier] }
  | _ => return

end GoConventions
