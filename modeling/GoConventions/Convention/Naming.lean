import GoConventions.Convention.Context
import GoConventions.Source.Name

/-!
# Naming

Names are written in mixed capitals, acronyms keep one case, a name does not repeat its package, all
methods of a type name their receiver alike, and a local name is as long as its scope asks for.

Three of the rules offer a renaming.  It is offered only where the new name is not declared already:
anywhere in the file for a package-level name, in an enclosing or enclosed scope for a local one.

## Main definitions

* `renameRequest?`: the renaming of a declaration, if it is safe.
* `mixedCapsRemark?`, `initialismRemark?`, `getterRemark?`: the rules that offer one.
* `receiverRemarks`: one remark for each type whose receivers differ.
* `namingEvaluator`.
-/

namespace GoConventions

/-- Receiver names that say nothing. -/
def genericReceivers : List String :=
  ["self", "this", "me"]

/-- How the functions start that a test run looks for. -/
def testFunctionPrefixes : List String :=
  ["Test", "Benchmark", "Example", "Fuzz"]

/-- The types of parameters whose customary names are one letter long. -/
def testingTypes : List String :=
  ["*testing.T", "*testing.B", "*testing.F", "*testing.M", "testing.TB"]

/-- Whether a declaration gives a name to something of the program. -/
def Declaration.isNamed (decl : Declaration) : Bool :=
  decl.kind != .package && decl.kind != .importName && decl.name != "" && decl.name != "_"

/-- The region in which a declaration is renamed, if that is not the whole file. -/
def renameRegion? (unit : SourceUnit) (decl : Declaration) :
    Except EvaluatorFailure (Option Span) := do
  if decl.scope == 0 then return none
  return some (← unit.scope decl.scope).span

/-- Whether a declaration is seen in a region, or from it. -/
def meetsRegion (unit : SourceUnit) (region : Option Span) (other : Declaration) :
    Except EvaluatorFailure Bool := do
  match region with
  | none => return true
  | some region =>
    if other.scope == 0 then return true
    let span := (← unit.scope other.scope).span
    return span.contains region || region.contains span

/-- The renaming of a declaration, unless the new name is declared where it would be written. -/
def renameRequest? (unit : SourceUnit) (decl : Declaration) (name : String) :
    Except EvaluatorFailure (Option FixRequest) := do
  let within ← renameRegion? unit decl
  if ← (unit.declarationsOf name).anyM (meetsRegion unit within) then return none
  return some {
    template := FixTemplate.rename.label
    span := decl.nameSpan
    oldName := some decl.name
    newName := some name
    within
    includeSelectors := decl.kind == .method }

/-! ## Casing -/

/-- Who sees a declaration. -/
def Declaration.visibility (decl : Declaration) : String :=
  if decl.exported then "exported" else if decl.scope == 0 then "unexported" else "local"

/-- The name in mixed capitals that should replace a name with low lines. -/
def mixedCapsReplacement? (isTestFile : Bool) (name : String) : Option String :=
  if Text.startsWith name "_" || !hasUnderscoreWords name ||
      (isTestFile && testFunctionPrefixes.any (Text.startsWith name)) then none
  else
    let replacement := mixedCaps name (isExported name)
    if replacement.isEmpty || replacement == name then none else some replacement

def mixedCapsRemark? (unit : SourceUnit) (decl : Declaration) : Check := do
  match mixedCapsReplacement? unit.isTestFile decl.name with
  | none => return none
  | some replacement =>
    return some {
      ruleId := "NAM001", span := decl.nameSpan
      message := decl.visibility ++ " " ++ decl.kind.label ++ " " ++ decl.name ++
        " should use MixedCaps: " ++ replacement
      fix := ← renameRequest? unit decl replacement }

/-- Whether a word is an acronym in more than one case. -/
def isMixedInitialism (word : String) : Bool :=
  isInitialism word && word.toList.any Char.isUpper && word.toList.any Char.isLower

/-- The words that do not end before offset `i`, of words in the order of their offsets. -/
def wordsFromOffset (i : Nat) (words : List (String × Nat)) : List (String × Nat) :=
  words.dropWhile fun (word, start) => start + word.toList.length ≤ i

/-- The characters of a text from offset `i` on, with the given words put in upper case.  The words
are in the order of their offsets and have no character in common, so the first one that does not
end before a character is the only one that may hold it. -/
def withUpperWords (i : Nat) (words : List (String × Nat)) : List Char → List Char
  | [] => []
  | c :: r =>
    match wordsFromOffset i words with
    | [] => c :: r
    | (word, start) :: later =>
      (if start ≤ i then c.toUpper else c) :: withUpperWords (i + 1) ((word, start) :: later) r

/-- The words of a name that are acronyms in more than one case. -/
def mixedInitialisms (name : String) : List (String × Nat) :=
  if hasUnderscoreWords name then []
  else (wordsWithOffsets name).filter fun word => isMixedInitialism word.1

/-- A name with its acronyms in one case. -/
def initialismReplacement (name : String) : String :=
  String.ofList (withUpperWords 0 (mixedInitialisms name) name.toList)

def initialismRemark? (unit : SourceUnit) (decl : Declaration) : Check := do
  match mixedInitialisms decl.name with
  | [] => return none
  | changed =>
    let replacement := initialismReplacement decl.name
    let rendered := ", ".intercalate (changed.map fun word =>
      word.1 ++ " -> " ++ Text.upper word.1)
    return some {
      ruleId := "NAM006", span := decl.nameSpan
      message := decl.kind.label ++ " " ++ decl.name ++
        " has an inconsistently cased initialism (" ++ rendered ++ "); use " ++ replacement
      fix := ← renameRequest? unit decl replacement }

/-- The name of the package; that of the package under test for a package of tests. -/
def SourceUnit.testedPackageName (unit : SourceUnit) : String :=
  if Text.endsWith unit.packageName "_test" then Text.dropLast 5 unit.packageName
  else unit.packageName

def packageNameRemark? (context : Context) : Check := do
  let unit := context.unit
  let name := unit.testedPackageName
  if name == "main" then return none
  let decl ← (unit.declarations.find? (·.kind == .package)).getDM (throw .noPackage)
  if name != Text.lower name || Text.hasChar '_' name then
    return some {
      ruleId := "NAM008", span := decl.nameSpan
      message := "package name " ++ unit.packageName ++ " should be a single lowercase word" }
  if context.settings.genericPackageNames.contains name then
    return some {
      ruleId := "NAM008", span := decl.nameSpan
      message := "package name " ++ name ++ " is too generic to tell callers what it provides" }
  return none

example : initialismReplacement "userIdUrl" = "userIDURL" := by decide +kernel

/-! ## Repetition -/

/-- Whether the first words, but not all of them, spell a text. -/
def firstWordsSpell : List (List Char) → List Char → Bool
  | word :: next :: words, text =>
    word.isPrefixOf text &&
      ((text.drop word.length).isEmpty || firstWordsSpell (next :: words) (text.drop word.length))
  | _, _ => false

/-- Whether the first words of a name, but not all of them, spell a text in small letters. -/
def startsWithWords (words : List String) (text : String) : Bool :=
  firstWordsSpell (words.map fun word => (Text.lower word).toList) text.toList

/-- Whether the last words of a name, but not all of them, spell a text in small letters. -/
def endsWithWords (words : List String) (text : String) : Bool :=
  firstWordsSpell (words.reverse.map fun word => (Text.lower word).toList.reverse)
    text.toList.reverse

example : startsWithWords ["User", "ID"] "user" = true ∧
    startsWithWords ["User"] "user" = false ∧ endsWithWords ["New", "User", "ID"] "userid" = true ∧
    endsWithWords ["User", "ID"] "" = false := by
  decide +kernel

def stutterRemark? (unit : SourceUnit) (decl : Declaration) : Option Remark :=
  let package := Text.lower unit.packageName
  let words := nameWords decl.name
  if startsWithWords words package || endsWithWords words package then
    let qualified := unit.packageName ++ "." ++ decl.name
    let types := (unit.exportedDeclarations.filter (·.kind == .typeName)).map (·.name)
    let message :=
      match types with
      | [only] =>
        if decl.kind == .function && words.head? == some "New" && decl.name == "New" ++ only then
          qualified ++ " stutters; " ++ only ++ " is the package's only exported type, " ++
            "so name the constructor " ++ unit.packageName ++ ".New"
        else qualified ++ " stutters; drop the redundant '" ++ package ++ "' from the name"
      | _ => qualified ++ " stutters; drop the redundant '" ++ package ++ "' from the name"
    some { ruleId := "NAM002", span := decl.nameSpan, message }
  else none

/-- The remarks on the exported names of a file; those of commands and tests are not looked at. -/
def stutterRemarks (unit : SourceUnit) : List Remark :=
  if unit.packageName != "main" && !unit.isTestFile then
    (unit.exportedDeclarations.filter (·.kind != .method)).filterMap (stutterRemark? unit)
  else []

/-! ## Receivers -/

/-- A receiver with a name that can be compared: given, and not blank. -/
def Declaration.namedReceiver? (decl : Declaration) : Option (Receiver × String) := do
  let receiver ← decl.receiver
  let name ← receiver.name
  if name.isEmpty || name == "_" then none else return (receiver, name)

/-- The remarks on the receivers of methods, given the name that each type met so far uses and the
types that have been remarked upon.  A type is remarked upon once, at the first receiver that
differs from its first one. -/
def receiverRemarks :
    List (String × String) → List String → List Declaration → List Remark
  | _, _, [] => []
  | names, reported, decl :: decls =>
    match decl.namedReceiver? with
    | none => receiverRemarks names reported decls
    | some (receiver, name) =>
      match names.lookup receiver.typeName with
      | none => receiverRemarks ((receiver.typeName, name) :: names) reported decls
      | some first =>
        if name == first || reported.contains receiver.typeName then
          receiverRemarks names reported decls
        else
          { ruleId := "NAM003", span := receiver.span
            message := "receiver name " ++ name ++ " of " ++ receiver.typeName ++ "." ++
              decl.name ++ " should be consistent with previous receiver name " ++ first } ::
            receiverRemarks names (receiver.typeName :: reported) decls

def genericReceiverRemark? (decl : Declaration) : Option Remark := do
  let receiver ← decl.receiver
  let name ← receiver.name
  if genericReceivers.contains name then
    return {
      ruleId := "NAM004", span := receiver.span
      message := "receiver name " ++ name ++ " of " ++ receiver.typeName ++ "." ++ decl.name ++
        " should be a short abbreviation of " ++ receiver.typeName }
  else none

/-! ## Length -/

/-- Whether a declaration is a parameter of a testing type. -/
def isTestingParameter (unit : SourceUnit) (decl : Declaration) : Bool :=
  decl.isParameter && unit.functions.any fun function =>
    function.bodyScope == some decl.scope && function.params.any fun param =>
      param.name == some decl.name && testingTypes.contains param.typeText

/-- What is wrong with the length of a name in a scope that a band is for. -/
def lengthProblem? (band : ScopeBand) (name : String) : Option String :=
  let words : Int := max 1 (nameWords name).length
  if name.toList.length == 1 && !band.singleLetter then some "too short"
  else if words < band.minWords then some "too short"
  else if band.maxWords < words then some "too long"
  else none

def lengthRemark? (context : Context) (decl : Declaration) : Check := do
  if context.settings.shortNameAllowlist.contains decl.name ||
      isTestingParameter context.unit decl then return none
  let lines := (← context.unit.scope decl.scope).span.lineCount
  let band ← (context.settings.bandFor? lines).getDM (throw .noBand)
  return (lengthProblem? band decl.name).map fun problem =>
    { ruleId := "NAM005", span := decl.nameSpan
      message := "local name " ++ decl.name ++ " is " ++ problem ++ " for a " ++
        toString lines ++ "-line scope" }

/-! ## Getters -/

/-- What follows the prefix of a getter's name, when an upper-case letter does. -/
def getterReplacement? (name : String) : Option String :=
  if Text.startsWith name "Get" then
    let rest := Text.dropFirst 3 name
    if isExported rest then some rest else none
  else none

def getterRemark? (unit : SourceUnit) (decl : Declaration) : Check := do
  if !decl.exported || !decl.params.isEmpty || decl.results.isEmpty then return none
  match getterReplacement? decl.name with
  | none => return none
  | some replacement =>
    return some {
      ruleId := "NAM007", span := decl.nameSpan
      message := "getter " ++ decl.name ++ " should drop the Get prefix: " ++ replacement
      fix := ← renameRequest? unit decl replacement }

/-! ## The evaluator -/

/-- The checks of the names of a file. -/
def namingChecks (context : Context) : List Check :=
  let unit := context.unit
  let named := unit.declarations.filter Declaration.isNamed
  context.whenEnabled "NAM008" [packageNameRemark? context] ++
    (named.flatMap fun decl =>
      context.whenEnabled "NAM001" [mixedCapsRemark? unit decl] ++
        context.whenEnabled "NAM006" [initialismRemark? unit decl]) ++
    (context.whenEnabled "NAM002" (stutterRemarks unit) ++
      context.whenEnabled "NAM003" (receiverRemarks [] [] unit.functions) ++
      context.whenEnabled "NAM004" (unit.functions.filterMap genericReceiverRemark?)).map
        (pure ∘ some) ++
    context.whenEnabled "NAM005"
      ((named.filter fun decl => decl.kind == .variableName && decl.scope != 0).map
        (lengthRemark? context)) ++
    context.whenEnabled "NAM007" (unit.functions.map (getterRemark? unit))

def namingEvaluator : Evaluator :=
  .ofChecks .naming namingChecks

end GoConventions
