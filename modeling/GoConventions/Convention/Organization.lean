import GoConventions.Convention.Errors

/-!
# Organization

Functions are short, take few parameters and are not nested deeply; packages have neither
initialisers nor variables that everyone can change.

A region that is nested too deeply is remarked upon once, where it begins: at the block that is one
level too deep and whose parent is not.

## Main definitions

* `functionRemarks`, `nestingRemark?`, `globalRemark?`.
* `organizationEvaluator`.
-/

namespace GoConventions

/-- The remarks on one function. -/
def functionRemarks (context : Context) (decl : Declaration) : List Remark :=
  let settings := context.settings
  let lines := decl.span.lineCount
  let long : List Remark :=
    if settings.maxFunctionLines < lines then
      [{ ruleId := "ORG001", span := decl.nameSpan
         message := decl.name ++ " is " ++ toString lines ++ " lines long (limit " ++
          toString settings.maxFunctionLines ++ ")" }]
    else []
  let many : List Remark :=
    if settings.maxParameters < decl.params.length then
      [{ ruleId := "ORG002", span := decl.nameSpan
         message := decl.name ++ " takes " ++ toString decl.params.length ++
          " parameters (limit " ++ toString settings.maxParameters ++ ")" }]
    else []
  let initialiser : List Remark :=
    if decl.kind == .function && decl.name == "init" && !context.unit.isTestFile then
      [{ ruleId := "ORG005", span := decl.nameSpan
         message := "init function hides initialisation order from callers" }]
    else []
  context.whenEnabled "ORG001" long ++ context.whenEnabled "ORG002" many ++
    context.whenEnabled "ORG005" initialiser

/-- Whether a scope begins a region that is nested too deeply. -/
def startsDeepRegion (unit : SourceUnit) (limit : Int) (scope : Scope) :
    Except EvaluatorFailure Bool := do
  if scope.kind != .block || (scope.depth : Int) != limit + 1 then return false
  match scope.parent with
  | none => return true
  | some parent => return (← unit.scope parent).depth ≤ limit

def nestingRemark? (context : Context) (scope : Scope) : Check := do
  let limit := context.settings.maxNestingDepth
  if ← startsDeepRegion context.unit limit scope then
    let start := scope.span.start.offset
    return some {
      ruleId := "ORG003", span := context.unit.spanOf start start
      message := "block is nested " ++ toString scope.depth ++ " levels deep (limit " ++
        toString limit ++ ")" }
  return none

def globalRemark? (decl : Declaration) : Option Remark :=
  if decl.kind == .variableName && !(decl.initCall.map CallSite.makesError).getD false then
    some {
      ruleId := "ORG004", span := decl.nameSpan
      message := "exported package-level variable " ++ decl.name ++ " is mutable global state" }
  else none

/-- The checks of the organization of a file. -/
def organizationChecks (context : Context) : List Check :=
  let unit := context.unit
  (unit.functions.flatMap (functionRemarks context)).map (pure ∘ some) ++
    context.whenEnabled "ORG003" (unit.scopes.map (nestingRemark? context)) ++
    context.whenEnabled "ORG004" (unit.exportedDeclarations.map (pure ∘ globalRemark?))

def organizationEvaluator : Evaluator :=
  .ofChecks .organization organizationChecks

end GoConventions
