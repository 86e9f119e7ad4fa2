import GoConventions.Convention.Context

/-!
# Imports

Imports stand in groups, one for each category, in the canonical order of the categories; a blank
line separates groups.  Dot imports are refused, blank imports belong to main packages and tests, an
alias says something that the path does not, and generated packages carry a name that shows it.

A declaration that is out of order is offered in canonical form: one block for each category that
occurs, its entries in the order of their paths.  Comments of their own have no place in that form,
so where there are any, nothing is offered.

## Main definitions

* `ImportCategory`, `classify`.
* `groupingProblem?`: what is wrong with the groups of a declaration.
* `canonicalBody`: the canonical form of a declaration's body.
* `importsEvaluator`.
-/

namespace GoConventions

/-- The categories of imports, in canonical order. -/
inductive ImportCategory where
  | standard | thirdParty | generated | sideEffect
  deriving DecidableEq, Repr

namespace ImportCategory

def label : ImportCategory → String
  | .standard => "standard"
  | .thirdParty => "third-party"
  | .generated => "generated"
  | .sideEffect => "side-effect"

/-- The place in the canonical order. -/
def rank : ImportCategory → Nat
  | .standard => 0
  | .thirdParty => 1
  | .generated => 2
  | .sideEffect => 3

def all : List ImportCategory :=
  [.standard, .thirdParty, .generated, .sideEffect]

end ImportCategory

/-- The first parts of the paths of the standard library. -/
def standardRoots : List String :=
  ["archive", "bufio", "builtin", "bytes", "cmp", "compress", "container", "context", "crypto",
   "database", "debug", "embed", "encoding", "errors", "expvar", "flag", "fmt", "go", "hash",
   "html", "image", "index", "io", "iter", "log", "maps", "math", "mime", "net", "os", "path",
   "plugin", "reflect", "regexp", "runtime", "slices", "sort", "strconv", "strings", "sync",
   "syscall", "testing", "text", "time", "unicode", "unique", "unsafe", "C"]

/-- Packages that are imported for their effect anywhere. -/
def sideEffectExempt : List String :=
  ["embed"]

/-- The category of an import with the given path and alias. -/
def classify (settings : Settings) (path : String) (aliasName : Option String) :
    ImportCategory :=
  if aliasName == some "_" then .sideEffect
  else if settings.generatedSuffixes.any (Text.endsWith (defaultImportName path)) then .generated
  else
    let root := Text.firstPart '/' path
    if standardRoots.contains root || settings.extraStdlib.contains path ||
        settings.extraStdlib.contains root then .standard
    else .thirdParty

example : classify {} "net/http" none = .standard ∧ classify {} "a.b/c" none = .thirdParty ∧
    classify {} "x/foo_go_proto" none = .generated ∧ classify {} "x" (some "_") = .sideEffect := by
  decide +kernel

def ImportEntry.category (settings : Settings) (entry : ImportEntry) : ImportCategory :=
  classify settings entry.path entry.aliasName

/-! ## Grouping -/

/-- The categories that occur in a group, in canonical order. -/
def ImportGroup.categories (settings : Settings) (group : ImportGroup) : List ImportCategory :=
  ImportCategory.all.filter fun category =>
    (group.entries.map (·.category settings)).contains category

/-- Whether each category comes strictly after the one before it. -/
def inCanonicalOrder : List ImportCategory → Bool
  | first :: second :: rest => first.rank < second.rank && inCanonicalOrder (second :: rest)
  | _ => true

/-- What is wrong with the groups of a declaration. -/
def groupingProblem? (settings : Settings) (decl : ImportDecl) : Option String :=
  let categories := decl.groups.map (·.categories settings)
  match categories.find? fun present => 1 < present.length with
  | some present =>
    some ("import group mixes " ++ ", ".intercalate (present.map (·.label)) ++ " imports")
  | none =>
    let order := categories.filterMap List.head?
    if inCanonicalOrder order then none
    else
      some ("import groups are out of order (" ++ ", ".intercalate (order.map (·.label)) ++ ")")

/-- An entry as it stands in the source, from its first character to the end of its last line.  An
entry that ends before it starts has no line. -/
def entryText (unit : SourceUnit) (entry : ImportEntry) : Except EvaluatorFailure String :=
  match unit.linesBetween entry.span.start.line entry.span.stop.line with
  | [] => .error .emptyEntry
  | line :: lines =>
    .ok (Text.trimEnd ("\n".intercalate
      (Text.fromOffset (entry.span.start.column - 1) line :: lines)))

/-- An entry with its text. -/
structure RenderedEntry where
  category : ImportCategory
  path : String
  text : String

/-- The entries of a category, in the order of their paths and texts. -/
def blockEntries (entries : List RenderedEntry) (category : ImportCategory) :
    List RenderedEntry :=
  sortBy (compareLex (compareOn (·.path)) (compareOn (·.text)))
    (entries.filter (·.category == category))

/-- The body in which each category that occurs has a block of its own. -/
def bodyOfEntries (entries : List RenderedEntry) : String :=
  let blocks := (ImportCategory.all.map (blockEntries entries)).filter (!·.isEmpty)
  "\n" ++ "\n\n".intercalate (blocks.map fun block =>
    "\n".intercalate (block.map fun entry => "\t" ++ entry.text)) ++ "\n"

/-- Whether a comment stands by itself in the body of a declaration: it starts on a line where no
entry does. -/
def hasFreeComment (unit : SourceUnit) (decl : ImportDecl) (body : Span) : Bool :=
  unit.comments.any fun comment =>
    body.contains comment.span &&
      !decl.entries.any fun entry => entry.span.start.line == comment.span.start.line

/-- The canonical form of the body of a declaration, if there is one. -/
def canonicalBody (unit : SourceUnit) (settings : Settings) (decl : ImportDecl) :
    Except EvaluatorFailure (Option String) := do
  match decl.bodySpan with
  | none => return none
  | some body =>
    if hasFreeComment unit decl body then return none
    else
      let rendered ← decl.entries.mapM fun entry => do
        return (⟨entry.category settings, entry.path, ← entryText unit entry⟩ : RenderedEntry)
      return some (bodyOfEntries rendered)

/-- The remark on the groups of a declaration. -/
def groupingRemarks (context : Context) (decl : ImportDecl) :
    Except EvaluatorFailure (List Remark) := do
  match groupingProblem? context.settings decl with
  | none => return []
  | some problem =>
    let span := decl.bodySpan.getD decl.span
    let body ← canonicalBody context.unit context.settings decl
    return [{
      ruleId := "IMP001", span
      message := problem ++
        "; expected standard library, third-party, generated protocol, side-effect"
      fix := body.map fun body =>
        { template := FixTemplate.reorderImports.label, span, replacement := some body } }]

/-! ## Entries -/

def dotImportRemark? (entry : ImportEntry) : Option Remark :=
  if entry.aliasName == some "." then
    some {
      ruleId := "IMP002", span := entry.span
      message := "dot import of \"" ++ entry.path ++ "\"; import it by name" }
  else none

def sideEffectRemark? (context : Context) (entry : ImportEntry) : Option Remark :=
  let unit := context.unit
  if entry.aliasName == some "_" && !sideEffectExempt.contains entry.path &&
      !context.settings.sideEffectRoots.contains unit.packageName && !unit.isTestFile then
    some {
      ruleId := "IMP003", span := entry.span
      message := "side-effect import of \"" ++ entry.path ++ "\" in package " ++
        unit.packageName ++ "; blank imports belong in main packages and tests" }
  else none

def redundantAliasRemark? (unit : SourceUnit) (entry : ImportEntry) : Option Remark := do
  let name ← entry.aliasName
  let aliasSpan ← entry.aliasSpan
  if name != "_" && name != "." && name == entry.defaultName then
    return {
      ruleId := "IMP004", span := aliasSpan
      message := "import alias " ++ name ++ " repeats the package name of \"" ++ entry.path ++
        "\""
      fix := some {
        template := FixTemplate.replace.label
        span := unit.spanOf aliasSpan.start.offset entry.pathSpan.start.offset
        replacement := some "" } }
  else none

def generatedAliasRemark? (settings : Settings) (entry : ImportEntry) : Option Remark :=
  if entry.category settings == .generated && !Text.endsWith entry.localName "pb" then
    some {
      ruleId := "IMP005", span := entry.span
      message := "generated protocol package \"" ++ entry.path ++
        "\" should be imported with a pb-suffixed alias" }
  else none

/-- The remarks on one entry. -/
def entryRemarks (context : Context) (entry : ImportEntry) : List Remark :=
  context.whenEnabled "IMP002" (dotImportRemark? entry).toList ++
    context.whenEnabled "IMP003" (sideEffectRemark? context entry).toList ++
    context.whenEnabled "IMP004" (redundantAliasRemark? context.unit entry).toList ++
    context.whenEnabled "IMP005" (generatedAliasRemark? context.settings entry).toList

/-! ## The evaluator -/

/-- The remarks on one import declaration. -/
def importDeclRemarks (context : Context) (decl : ImportDecl) :
    Except EvaluatorFailure (List Remark) := do
  let grouping ←
    if context.enabled "IMP001" && decl.parenthesized then groupingRemarks context decl
    else pure []
  return grouping ++ decl.entries.flatMap (entryRemarks context)

def importsEvaluator : Evaluator where
  category := .imports
  evaluate context := do
    context.findings (← context.unit.imports.mapM (importDeclRemarks context)).flatten

end GoConventions
