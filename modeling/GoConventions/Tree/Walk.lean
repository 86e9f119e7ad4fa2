import GoConventions.Source.Name
import GoConventions.Tree.Signature

/-!
# The walk of statements and expressions

Below a declaration every node is visited once.  Most nodes are walked part by part, in the order of
their members.  The kinds that matter are treated in ways of their own: identifiers and calls are
recorded, blocks, function literals and compound statements open scopes, and assignments and
declarations name things.

A call is recorded after its function expression and its arguments have been walked, so the calls
inside a call come before it.

## Shape

Each kind has a function that takes the walk of the parts as an argument, and `walkStep` chooses
among them.  `walkWithin` ties the knot over at most the given number of levels, and `walkTree`
supplies the height of the value, which is enough: a part is less high than the node it belongs to.
A property that a step keeps is thereby kept by the whole walk, by one induction.
-/

namespace GoConventions

variable (src : SourceText) (walk : TreeWalk)

/-- Walks the statements of a block in a scope that is already open. -/
def walkBlock (block : Members) (scope : Nat) : TreeReader Unit := do
  let _ ← src.span block
  (← elements (block.get "list")).forM fun statement => walk statement scope .other

/-- Walks a body, if the value is a node. -/
def walkBody (body : Json) (scope : Nat) : TreeReader Unit :=
  match body with
  | .obj block => walkBlock src walk block scope
  | _ => return

/-- Walks the parts of a node, in their order. -/
def walkParts (node : Members) (scope : Nat) (context : CallContext) : TreeReader Unit :=
  node.parts.forM fun part => walk part.2 scope context

/-! ## Calls -/

/-- The name of a called function: identifiers joined by points, parentheses left out, and the
source of any other expression; over at most the given number of levels. -/
def calleeWithin : Nat → Members → TreeResult String
  | 0, _ => .ok ""
  | levels + 1, fn => do
    if fn.hasKind "Ident" then return fn.name
    else if fn.hasKind "SelectorExpr" then
      let qualifier ← calleeWithin levels (← nodeOrEmpty (fn.get "x"))
      let selector ← nodeOrEmpty (fn.get "sel")
      return qualifier ++ "." ++ selector.name
    else if fn.hasKind "ParenExpr" then calleeWithin levels (← nodeOrEmpty (fn.get "x"))
    else if (fn.lookup "pos").isSome then src.sourceOf fn
    else return ""

/-- The name of a called function. -/
def callee (fn : Json) : TreeResult String := do
  calleeWithin src (fn.height + 1) (← nodeOrEmpty fn)

/-- An argument of a call. -/
def argumentOf (arg : Members) : TreeResult Argument := do
  let text ← src.sourceOf arg
  let span ← src.span arg
  if arg.hasKind "BasicLit" && (Text.startsWith text "\x22" || Text.startsWith text "\x60") then
    match decodeLiteral text with
    | .ok value => return ⟨.literal value, text, span⟩
    | .error fault => .error (.literal fault)
  else if arg.hasKind "Ident" then return ⟨.identifier, text, span⟩
  else return ⟨.other, text, span⟩

/-- What an assignment assigns to: a name, or the source of any other expression. -/
def targetName (target : Members) : TreeResult String :=
  if target.hasKind "Ident" then .ok target.name else src.sourceOf target

/-- Reads and walks one argument of a call. -/
def walkArgument (scope : Nat) (arg : Members) : TreeReader Argument := do
  let argument ← argumentOf src arg
  walk (.obj arg) scope .other
  return argument

/-- The result types that the parser states for a call. -/
def statedResults (node : Members) : Option (List String) :=
  match node.get "results" with
  | .arr items => some (items.map Json.text)
  | _ => none

/-- Walks a call and records it. -/
def walkCall (node : Members) (scope : Nat) (context : CallContext) (targets : List Members) :
    TreeReader Unit := do
  let fn := node.get "fun"
  walk fn scope .other
  let args ← (← nodesIn (node.get "args")).mapM (walkArgument src walk scope)
  let callee ← callee src fn
  let span ← src.span node
  let names ← targets.mapM fun target => (targetName src target : TreeReader String)
  let spans ← targets.mapM fun target => (src.span target : TreeReader Span)
  recordCall { callee, args, span, context, scope, targets := names, targetSpans := spans
               results := statedResults node, annotation := none }

/-! ## Names -/

/-- Declares a variable that a statement defines, unless it is blank or already declared there. -/
def defineVariable (scope : Nat) (target : Json) : TreeReader Unit := do
  match target with
  | .obj node =>
    let node : Members := node
    if node.hasKind "Ident" && node.name != "_" && !(← get).declares node.name scope then
      let span ← src.span node
      declare { name := node.name, kind := .variableName, exported := false, scope, span,
                nameSpan := span }
  | _ => return

/-- Walks the values of an assignment: a single call with all targets, values and targets one by one
when there are as many, else the values alone. -/
def walkAssigned (scope : Nat) (context : CallContext) (targets values : List Members) :
    TreeReader Unit :=
  match values with
  | [value] =>
    -- A call may have as many results as there are targets, so a single one is given them all.
    if value.hasKind "CallExpr" then walkCall src walk value scope context targets
    else walk (.obj value) scope .other
  | _ =>
    if values.length = targets.length then
      (targets.zip values).forM fun (target, value) =>
        if value.hasKind "CallExpr" then walkCall src walk value scope context [target]
        else walk (.obj value) scope .other
    else values.forM fun value => walk (.obj value) scope .other

/-- Walks an assignment, which may define its targets. -/
def walkAssignment (node : Members) (scope : Nat) : TreeReader Unit := do
  let targets ← nodesIn (node.get "lhs")
  let values ← nodesIn (node.get "rhs")
  let defines := (node.get "tok").isText ":="
  if defines then targets.forM fun target => defineVariable src scope (.obj target)
  targets.forM fun target => walk (.obj target) scope .other
  walkAssigned src walk scope (if defines then .define else .assign) targets values

/-- The comments that a declaration is given. -/
structure DocComments where
  doc : Option CommentBlock := none
  detached : Option CommentBlock := none
  group : Option CommentBlock := none

/-- The call that initialises a name: the last of the calls met in the values that starts where the
value of that name starts. -/
def initialCall (calls : List CallSite) (value : Members) : TreeResult (Option CallSite) := do
  if value.hasKind "CallExpr" then
    let start ← src.position value "pos"
    return (calls.filter (·.span.start.offset == start.offset)).getLast?
  else return none

/-- Declares one name of a specification of values. -/
def declareValue (kind : DeclKind) (scope : Nat) (anchor : Span) (docs : DocComments)
    (calls : List CallSite) (index : Nat) (name : Members) (value : Option Members) :
    TreeReader Unit := do
  recordIdentifier src (.obj name)
  if name.name != "_" then
    let initCall ←
      match value with
      | some value => (initialCall src calls value : TreeReader (Option CallSite))
      | none => pure none
    let nameSpan ← src.span name
    declare { name := name.name, kind, exported := scope == 0 && isExported name.name, scope,
              span := if index = 0 then anchor else ⟨nameSpan.start, anchor.stop⟩,
              nameSpan, doc := docs.doc, detachedDoc := docs.detached, groupDoc := docs.group,
              initCall }

/-- Walks a specification of constants or variables and declares its names.  A name belongs to the
value at its place when there are as many values as names. -/
def walkValueSpec (spec : Members) (token : Json) (scope : Nat) (anchor : Span)
    (docs : DocComments) : TreeReader Unit := do
  let names ← nodesIn (spec.get "names")
  let values ← nodesIn (spec.get "values")
  walk (spec.get "type") scope .other
  let before := (← get).calls.length
  values.forM fun value => walk (.obj value) scope .value
  let calls := (← get).calls.drop before
  let kind := if token.isText "const" then .constant else .variableName
  names.zipIdx.forM fun (name, index) =>
    declareValue src kind scope anchor docs calls index name
      (if values.length = names.length then values[index]? else none)

/-- Walks a declaration among statements. -/
def walkDeclaration (node : Members) (scope : Nat) : TreeReader Unit := do
  let decl ← nodeOrEmpty (node.get "decl")
  let token := decl.get "tok"
  (← nodesIn (decl.get "specs")).forM fun spec =>
    if token.isText "var" || token.isText "const" then do
      walkValueSpec src walk spec token scope (← src.span spec) {}
    else walk (.obj spec) scope .other

/-! ## Scopes -/

/-- Walks a function literal. -/
def walkFunctionLiteral (node : Members) (span : Span) (scope : Nat) : TreeReader Unit := do
  let inner ← openScope .function span (some scope)
  let signature ← nodeOrEmpty (node.get "type")
  let _ ← declareParameters src walk (signature.get "params") inner
  let _ ← resultTypes src walk (signature.get "results") inner
  walkBody src walk (node.get "body") inner

/-- Walks a conditional.  Its alternative stands beside it in the enclosing scope: another
conditional, or a block. -/
def walkConditional (node : Members) (span : Span) (scope : Nat) : TreeReader Unit := do
  let inner ← openScope .block span (some scope)
  walk (node.get "init") inner .other
  walk (node.get "cond") inner .other
  walkBody src walk (node.get "body") inner
  match node.get "else" with
  | .obj alternative =>
    let alternative : Members := alternative
    if alternative.hasKind "IfStmt" then walk (.obj alternative) scope .other
    else if alternative.hasKind "BlockStmt" then
      let sibling ← openScope .block (← src.span alternative) (some scope)
      walkBlock src walk alternative sibling
  | _ => return

/-- Walks a statement that opens a scope for all of its parts; the statements of its body lie in
that scope itself. -/
def walkScoped (node : Members) (scope : Nat) : TreeReader Unit :=
  node.parts.forM fun (key, value) =>
    match key, value with
    | "body", .obj body => walkBlock src walk body scope
    | _, _ => walk value scope .other

/-- Walks a clause of a switch or select statement. -/
def walkClause (node : Members) (span : Span) (scope : Nat) : TreeReader Unit := do
  let inner ← openScope .block span (some scope) false
  walk (node.get "list") inner .other
  walk (node.get "comm") inner .other
  walk (node.get "body") inner .other

/-! ## The walk -/

/-- Walks a node by its kind. -/
def walkNode (node : Members) (scope : Nat) (context : CallContext) : TreeReader Unit := do
  let span ← src.span node
  match ← NodeKind.of (node.get "kind") with
  | .identifier => recordIdentifier src (.obj node)
  | .selector =>
    walk (node.get "x") scope context
    recordIdentifier src (node.get "sel") true
  | .call => walkCall src walk node scope context []
  | .block =>
    let inner ← openScope .block span (some scope)
    walkBlock src walk node inner
  | .functionLiteral => walkFunctionLiteral src walk node span scope
  | .conditional => walkConditional src walk node span scope
  | .rangeLoop =>
    let inner ← openScope .block span (some scope)
    if (node.get "tok").isText ":=" then
      [node.get "key", node.get "value"].forM (defineVariable src inner)
    walkScoped src walk node inner
  | .scoped =>
    let inner ← openScope .block span (some scope)
    walkScoped src walk node inner
  | .clause => walkClause walk node span scope
  | .assignment => walkAssignment src walk node scope
  | .declaration => walkDeclaration src walk node scope
  | .plain context => walkParts walk node scope context
  | .other => walkParts walk node scope .other

/-- Walks a value whose parts are walked by `walk`: the items of a list one after the other, a node
by its kind.  Other values, and objects without a kind, are no nodes. -/
def walkStep : TreeWalk := fun value scope context =>
  match value with
  | .arr items => items.forM fun item => walk item scope context
  | .obj node =>
    match Members.get node "kind" with
    | .null => return
    | _ => walkNode src walk node scope context
  | _ => return

/-- Walks a value down to at most the given number of levels. -/
def walkWithin : Nat → TreeWalk
  | 0 => fun _ _ _ => return
  | levels + 1 => walkStep src (walkWithin levels)

/-- Walks a value. -/
def walkTree : TreeWalk := fun value => walkWithin src value.height value

end GoConventions
