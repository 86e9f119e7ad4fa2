import GoConventions.Source.Comment

/-!
# The model of a source file

What the rules look at: a source file as declarations, scopes, comments, imports, identifiers and
calls, each with its span.  A model is built once from a tree document and only read afterwards.

Scopes and declarations refer to one another by their index.  A scope's parent comes before it, so
the way up from a scope ends; `enclosingFunction?` follows it.

## Main definitions

* `SourceUnit`, with the look-ups that the rules share.
* `ImportGroup`: import entries between blank lines, at least one.
* `ancestry`: a scope and the scopes around it, innermost first.
-/

namespace GoConventions

inductive DeclKind where
  | package | importName | typeName | function | method | constant | variableName
  deriving DecidableEq, Repr

def DeclKind.label : DeclKind → String
  | .package => "package"
  | .importName => "import"
  | .typeName => "type"
  | .function => "function"
  | .method => "method"
  | .constant => "constant"
  | .variableName => "variable"

inductive ScopeKind where
  | file | function | block
  deriving DecidableEq, Repr

def ScopeKind.label : ScopeKind → String
  | .file => "file"
  | .function => "function"
  | .block => "block"

/-- Where a call stands: what becomes of its results. -/
inductive CallContext where
  | value | statement | go | defer | returned | define | assign | other
  deriving DecidableEq, Repr

def CallContext.label : CallContext → String
  | .value => "value"
  | .statement => "expr"
  | .go => "go"
  | .defer => "defer"
  | .returned => "return"
  | .define => "define"
  | .assign => "assign"
  | .other => "other"

/-- What an argument of a call is: a string literal with the text it denotes, a bare identifier, or
anything else. -/
inductive ArgumentKind where
  | literal (value : String)
  | identifier
  | other
  deriving DecidableEq, Repr

def ArgumentKind.label : ArgumentKind → String
  | .literal _ => "string"
  | .identifier => "ident"
  | .other => "other"

structure Argument where
  kind : ArgumentKind
  text : String
  span : Span
  deriving DecidableEq, Repr

/-- The text that an argument denotes, when it is a string literal. -/
def Argument.literal? (arg : Argument) : Option String :=
  match arg.kind with
  | .literal value => some value
  | _ => none

structure CallSite where
  callee : String
  args : List Argument
  span : Span
  context : CallContext
  scope : Nat
  targets : List String
  targetSpans : List Span
  results : Option (List String)
  annotation : Option String
  deriving DecidableEq, Repr

/-- The name of a callee without its qualifier. -/
def calleeName (callee : String) : String :=
  Text.lastPart '.' callee

def CallSite.name (call : CallSite) : String :=
  calleeName call.callee

structure Identifier where
  name : String
  span : Span
  selector : Bool
  deriving DecidableEq, Repr

structure Receiver where
  name : Option String
  typeName : String
  pointer : Bool
  span : Span
  deriving DecidableEq, Repr

structure Param where
  name : Option String
  typeText : String
  span : Span
  deriving DecidableEq, Repr

structure Declaration where
  name : String
  kind : DeclKind
  exported : Bool
  scope : Nat
  span : Span
  nameSpan : Span
  doc : Option CommentBlock := none
  detachedDoc : Option CommentBlock := none
  groupDoc : Option CommentBlock := none
  receiver : Option Receiver := none
  params : List Param := []
  results : List String := []
  isParameter : Bool := false
  initCall : Option CallSite := none
  bodyScope : Option Nat := none
  deriving DecidableEq, Repr

structure Scope where
  id : Nat
  kind : ScopeKind
  span : Span
  parent : Option Nat
  depth : Nat
  children : List Nat
  declarations : List Nat
  deriving DecidableEq, Repr

structure ImportEntry where
  path : String
  aliasName : Option String
  span : Span
  pathSpan : Span
  aliasSpan : Option Span
  comment : Option String
  deriving DecidableEq, Repr

/-- The name under which a package is imported when no alias is given: the last part of its path,
slashes at the end apart. -/
def defaultImportName (path : String) : String :=
  Text.lastPart '/' (Text.trimEndWhile (· == '/') path)

def ImportEntry.defaultName (entry : ImportEntry) : String :=
  defaultImportName entry.path

/-- The alias of an import, or the default name when the alias is missing or empty. -/
def ImportEntry.localName (entry : ImportEntry) : String :=
  match entry.aliasName with
  | some name => if name.isEmpty then entry.defaultName else name
  | none => entry.defaultName

/-- Import entries that no blank line separates. -/
structure ImportGroup where
  first : ImportEntry
  rest : List ImportEntry
  deriving DecidableEq, Repr

def ImportGroup.entries (group : ImportGroup) : List ImportEntry :=
  group.first :: group.rest

def ImportGroup.span (group : ImportGroup) : Span :=
  ⟨group.first.span.start, ((group.rest.getLast?).getD group.first).span.stop⟩

structure ImportDecl where
  span : Span
  parenthesized : Bool
  groups : List ImportGroup
  bodySpan : Option Span
  deriving DecidableEq, Repr

/-- The entries of an import declaration, group after group. -/
def ImportDecl.entries (decl : ImportDecl) : List ImportEntry :=
  decl.groups.flatMap ImportGroup.entries

/-- A source file as the rules see it. -/
structure SourceUnit extends SourceText where
  packageName : String
  packageSpan : Span
  packageDoc : Option CommentBlock
  declarations : List Declaration
  scopes : List Scope
  comments : List CommentBlock
  imports : List ImportDecl
  identifiers : List Identifier
  calls : List CallSite
  deriving DecidableEq, Repr

namespace SourceUnit

variable (unit : SourceUnit)

/-- The import groups of all import declarations. -/
def importGroups : List ImportGroup :=
  unit.imports.flatMap ImportDecl.groups

/-- A scope by its index; an index below zero counts from the end. -/
def scopeAt? (index : Int) : Option Scope :=
  Text.elementAt? index unit.scopes

/-- A scope and the scopes around it, innermost first, over at most the given number of steps. -/
def ancestryWithin : Nat → Nat → List Scope
  | 0, _ => []
  | steps + 1, id =>
    match unit.scopes[id]? with
    | none => []
    | some scope =>
      scope :: (match scope.parent with
        | some parent => ancestryWithin steps parent
        | none => [])

/-- A scope and the scopes around it, innermost first.  Parents come before their children, so there
are no more steps than the index of the scope says. -/
def ancestry (id : Nat) : List Scope :=
  unit.ancestryWithin (id + 1) id

/-- The innermost function scope around a scope, the scope itself included. -/
def enclosingFunction? (id : Nat) : Option Scope :=
  (unit.ancestry id).find? (·.kind == .function)

/-- The package-level declarations that other packages see. -/
def exportedDeclarations : List Declaration :=
  unit.declarations.filter fun decl =>
    decl.exported && decl.scope == 0 && decl.kind != .package && decl.kind != .importName

/-- The functions and methods. -/
def functions : List Declaration :=
  unit.declarations.filter fun decl => decl.kind == .function || decl.kind == .method

/-- The declarations of a name. -/
def declarationsOf (name : String) : List Declaration :=
  unit.declarations.filter (·.name == name)

/-- The places where a name is written. -/
def occurrences (name : String) : List Identifier :=
  unit.identifiers.filter (·.name == name)

end SourceUnit

end GoConventions
