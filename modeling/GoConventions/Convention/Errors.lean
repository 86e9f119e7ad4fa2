import GoConventions.Convention.Context
import GoConventions.Source.Name

/-!
# Errors

An error is the last result of a function, is not thrown away, and is not raised by a panic.  Its
text starts small and has no punctuation at the end, and what is added when it is wrapped says
something new.  A package-level error has a name that says so.

Which results of a call are errors is known from the parser, from a table of common calls, or from
the functions of the file, if all candidates there have the same results.

## Main definitions

* `callResults`: the results of a call, as far as they are known.
* `discardRemark?`, `errorTextRemark?`, `wrapRemark?`, `sentinelRemark?`: the rules.
* `fixedLiteral`: an error text without capital and punctuation.
* `errorsEvaluator`.
-/

namespace GoConventions

/-- The functions that make an error from a text. -/
def errorConstructors : List String :=
  ["errors.New", "fmt.Errorf", "errors.Errorf", "xerrors.New", "xerrors.Errorf"]

/-- Common calls whose last result is an error, with the number of their results. -/
def knownErrorCalls : List (String × Nat) :=
  [("os.Chdir", 1), ("os.Chmod", 1), ("os.MkdirAll", 1), ("os.Remove", 1), ("os.RemoveAll", 1),
   ("os.Rename", 1), ("os.Setenv", 1), ("os.WriteFile", 1), ("os.Create", 2), ("os.Open", 2),
   ("os.ReadFile", 2), ("io.Copy", 2), ("io.ReadAll", 2), ("ioutil.ReadAll", 2),
   ("json.Marshal", 2), ("json.Unmarshal", 1), ("strconv.Atoi", 2), ("strconv.ParseBool", 2),
   ("strconv.ParseFloat", 2), ("strconv.ParseInt", 2), ("time.Parse", 2), ("url.Parse", 2),
   ("filepath.Abs", 2), ("http.Get", 2)]

/-- Whether a call makes an error from a text. -/
def CallSite.makesError (call : CallSite) : Bool :=
  errorConstructors.contains call.callee

/-- The text from which a call makes an error: its first argument, if that is a string literal. -/
def CallSite.errorText? (call : CallSite) : Option (Argument × String) :=
  match call.args with
  | [] => none
  | arg :: _ => if call.makesError then arg.literal?.map (arg, ·) else none

/-! ## Signatures -/

def errorLastRemark? (decl : Declaration) : Option Remark :=
  if decl.results.contains "error" && decl.results.getLast? != some "error" then
    some {
      ruleId := "ERR001", span := decl.nameSpan
      message := decl.name ++ " returns error as result " ++
        toString (decl.results.idxOf "error" + 1) ++ " of " ++ toString decl.results.length ++
        "; error should be the last result" }
  else none

/-! ## Discarded results -/

/-- The results of the functions of the file that a call may mean, if they all have the same: plain
functions for a plain name, methods for a name with a qualifier that is not an import. -/
def localResults? (unit : SourceUnit) (call : CallSite) : Option (List String) :=
  let candidates :=
    if Text.hasChar '.' call.callee then
      let qualifier := Text.beforeLastPart '.' call.callee
      if unit.declarations.any fun decl => decl.kind == .importName && decl.name == qualifier
      then []
      else unit.functions.filter fun decl => decl.kind == .method && decl.name == call.name
    else unit.functions.filter fun decl => decl.kind == .function && decl.name == call.callee
  match (candidates.map (·.results)).eraseDups with
  | [results] => some results
  | _ => none

/-- Which results of a call are errors, and how many results it has. -/
def callResults (unit : SourceUnit) (call : CallSite) : List Bool :=
  match call.results with
  | some results => results.map (· == "error")
  | none =>
    match knownErrorCalls.lookup call.callee with
    | some arity => List.replicate (arity - 1) false ++ [true]
    | none => ((localResults? unit call).getD []).map (· == "error")

/-- Whether a comment says that an error is discarded on purpose. -/
def isDiscardNote (settings : Settings) (note : String) : Bool :=
  let lowered := Text.lower note
  settings.discardMarkers.any fun marker => Text.contains lowered (Text.lower marker)

/-- Whether an error among the results of a call is thrown away. -/
def discardsError (call : CallSite) (results : List Bool) : Bool :=
  match call.context with
  | .statement => results.contains true
  | .go => results.contains true
  | .define | .assign =>
    call.targets.length == results.length &&
      (results.zip call.targets).any fun (isError, target) => isError && target == "_"
  | _ => false

/-- Whether the comment of a call says that its error is discarded on purpose. -/
def CallSite.discardNoted (settings : Settings) (call : CallSite) : Bool :=
  match call.annotation with
  | some note => !note.isEmpty && isDiscardNote settings note
  | none => false

def discardRemark? (context : Context) (call : CallSite) : Option Remark :=
  if discardsError call (callResults context.unit call) &&
      !call.discardNoted context.settings then
    some {
      ruleId := "ERR002", span := call.span
      message := "error returned by " ++ call.callee ++ " is discarded" }
  else none

/-! ## Error texts -/

/-- Whether a character is punctuation that an error text does not end with. -/
def isTrailingPunctuation (c : Char) : Bool :=
  ['.', '!', '?', ':', ';'].contains c

/-- Whether an error text ends with punctuation or with blanks. -/
def endsWithPunctuation (text : String) : Bool :=
  match text.toList.getLast? with
  | some c => isTrailingPunctuation c || c == ' ' || c == '\t' || c == '\n'
  | none => false

/-- Whether a character is part of the first word of an error text. -/
def isWordChar (c : Char) : Bool :=
  c.isAlphanum || c == '_'

/-- Whether an error text starts with a capital for no reason: the word is neither a proper noun nor
an exported name, and has no further capitals. -/
def startsCapitalized (properNouns exportedNames : List String) (text : String) : Bool :=
  match text.toList.takeWhile isWordChar with
  | [] => false
  | first :: rest =>
    let word := String.ofList (first :: rest)
    first.isUpper && !properNouns.contains word && !exportedNames.contains word &&
      !rest.any Char.isUpper

/-- The inside of a literal, last character first, without the punctuation and blanks at its end; in
an interpreted literal the escape of a line feed is a blank. -/
def withoutPunctuation (interpreted : Bool) : List Char → List Char
  | [] => []
  | [c] => if isTrailingPunctuation c || c == ' ' || c == '\t' then [] else [c]
  | c :: d :: r =>
    if isTrailingPunctuation c || c == ' ' || c == '\t' then withoutPunctuation interpreted (d :: r)
    else if interpreted && c == 'n' && d == '\\' then withoutPunctuation interpreted r
    else c :: d :: r

/-- A text with its first character in small letters, if that is a letter. -/
def withSmallStart : List Char → List Char
  | [] => []
  | c :: r => (if c.isAlpha then c.toLower else c) :: r

/-- A string literal with the corrections that its text needs. -/
def fixedLiteral (raw : String) (capitalized punctuated : Bool) : String :=
  let quote := raw.toList.take 1
  let inner := (Text.slice 1 (-1) raw).toList
  let inner :=
    if punctuated then (withoutPunctuation (quote == ['\x22']) inner.reverse).reverse else inner
  let inner := if capitalized then withSmallStart inner else inner
  String.ofList (quote ++ inner ++ quote)

example : fixedLiteral "\"Bad thing.\\n\"" true true = "\"bad thing\"" := by decide +kernel

def errorTextRemark? (context : Context) (exportedNames : List String) (literal : Argument)
    (text : String) : Option Remark :=
  let capitalized := startsCapitalized context.settings.properNouns exportedNames text
  let punctuated := endsWithPunctuation text
  if !capitalized && !punctuated then none
  else
    let replacement := fixedLiteral literal.text capitalized punctuated
    let problems :=
      (if capitalized then ["be capitalized"] else []) ++
        (if punctuated then ["end with punctuation"] else [])
    some {
      ruleId := "ERR003", span := literal.span
      message := "error strings should not " ++ " or ".intercalate problems ++ ": " ++ replacement
      fix :=
        if replacement == literal.text then none
        else some { template := FixTemplate.replace.label, span := literal.span,
                    replacement := some replacement } }

/-! ## Wrapping -/

/-- Whether a character may stand between the sign and the letter of a format verb. -/
def isVerbFlag (c : Char) : Bool :=
  c.isDigit || ['-', '+', '#', ' ', '.'].contains c

/-- How many characters after a percent sign belong to its format verb; zero if they form none. -/
def verbLength (s : List Char) : Nat :=
  let flags := (s.takeWhile isVerbFlag).length
  match s.drop flags with
  | c :: _ => if c.isAlpha || c == '%' then flags + 1 else 0
  | [] => 0

/-- The characters without the format verbs, after passing over the given number of them. -/
def withoutVerbs : Nat → List Char → List Char
  | _, [] => []
  | skip + 1, _ :: r => withoutVerbs skip r
  | 0, c :: r =>
    if c = '%' && verbLength r != 0 then withoutVerbs (verbLength r) r else c :: withoutVerbs 0 r

/-- What a format text adds before the error that it wraps. -/
def addedContext (format : String) : String :=
  Text.trimWhile (fun c => [' ', ':', '-', ','].contains c)
    (String.ofList (withoutVerbs 0 (Text.before format "%w").toList))

example : addedContext "load %s: %w" = "load" := by decide +kernel

/-- The text of the error that a call makes, if the call is made in a function. -/
def errorTextIn? (unit : SourceUnit) (function : Option Scope) (call : CallSite) :
    Except EvaluatorFailure (Option String) := do
  let caller ← unit.functionAround call.scope
  if function.isNone || caller.map (·.id) != function.map (·.id) then return none
  return call.errorText?.map (·.2)

/-- The text of the error that a name holds where a call wraps it: from the last call before it, in
the same function, that makes an error for that name, or else from a package-level declaration. -/
def wrappedText? (unit : SourceUnit) (name : String) (wrap : CallSite) :
    Except EvaluatorFailure (Option String) := do
  let function ← unit.functionAround wrap.scope
  let makers := unit.calls.filter fun call =>
    call.span.start.offset < wrap.span.start.offset && call.targets.contains name &&
      call.errorText?.isSome
  let made ← makers.mapM (errorTextIn? unit function)
  let declared := (unit.declarationsOf name).filterMap fun decl =>
    if decl.scope == 0 then decl.initCall.bind fun call => call.errorText?.map (·.2) else none
  return (made.filterMap id).getLast?.or declared.head?

def wrapRemark? (unit : SourceUnit) (call : CallSite) (literal : Argument) (format : String) :
    Check := do
  if call.name != "Errorf" || !Text.contains format "%w" then return none
  match ((call.args.drop 1).filter (·.kind == .identifier)).getLast? with
  | none => return none
  | some wrapped =>
    let added := addedContext format
    if added.isEmpty then return none
    match ← wrappedText? unit wrapped.text call with
    | none => return none
    | some inner =>
      if !Text.contains (Text.lower inner) (Text.lower added) then return none
      return some {
        ruleId := "ERR004", span := literal.span
        message := "wrap context \"" ++ added ++ "\" repeats the wrapped error \"" ++ inner ++
          "\"" }

/-! ## Sentinels and panics -/

/-- Whether a name is that of an error: the prefix, and after it nothing, a capital or a digit.  A
line feed at the very end counts as nothing. -/
def isSentinelName (name : String) : Bool :=
  match name.toList with
  | e :: 'r' :: 'r' :: rest =>
    (e == 'E' || e == 'e') &&
      match rest with
      | [] => true
      | ['\n'] => true
      | c :: _ => c.isUpper || c.isDigit
  | _ => false

/-- A name without the word for an error at its start or end. -/
def withoutErrorWord (name : String) : String :=
  if Text.startsWith (Text.lower name) "error" then Text.dropFirst 5 name
  else if Text.endsWith name "Error" then Text.dropLast 5 name
  else name

/-- The name that a package-level error should have, if something is left to name it by. -/
def sentinelReplacement? (exported : Bool) (name : String) : Option String :=
  match (withoutErrorWord name).toList with
  | [] => none
  | c :: rest =>
    some ((if exported then "Err" else "err") ++ String.ofList (Text.upperChar c ++ rest))

def sentinelRemark? (unit : SourceUnit) (decl : Declaration) : Option Remark := do
  let call ← decl.initCall
  if decl.kind != .variableName || decl.scope != 0 || !call.makesError ||
      isSentinelName decl.name then none
  else
    let replacement := sentinelReplacement? decl.exported decl.name
    let fix := replacement.bind fun name =>
      if (unit.declarationsOf name).isEmpty then
        some ({ template := FixTemplate.rename.label, span := decl.nameSpan,
                oldName := some decl.name, newName := some name } : FixRequest)
      else none
    let suggestion := match replacement with
      | some name => "; use " ++ name
      | none => ""
    return {
      ruleId := "ERR005", span := decl.nameSpan, fix
      message := "sentinel error " ++ decl.name ++ " should be named " ++
        (if decl.exported then "Err" else "err") ++ "Xxx" ++ suggestion }

/-- Whether a panic in a scope is in order: in an initialiser, or in a function that says so by its
name. -/
def panicsOpenly (unit : SourceUnit) (scope : Nat) : Except EvaluatorFailure Bool := do
  match ← unit.functionAround scope with
  | none => return false
  | some function =>
    match unit.functions.find? (·.bodyScope == some function.id) with
    | none => return false
    | some owner => return owner.name == "init" || Text.startsWith owner.name "Must"

def panicRemark? (unit : SourceUnit) (call : CallSite) : Check := do
  if unit.packageName == "main" || unit.isTestFile then return none
  if ← panicsOpenly unit call.scope then return none
  return some {
    ruleId := "ERR006", span := call.span
    message := "library package " ++ unit.packageName ++ " panics; return an error instead" }

/-! ## The evaluator -/

/-- The checks of one call. -/
def callChecks (context : Context) (exportedNames : List String) (call : CallSite) : List Check :=
  let unit := context.unit
  context.whenEnabled "ERR002" [pure (discardRemark? context call)] ++
    (match call.errorText? with
      | some (literal, text) =>
        context.whenEnabled "ERR003"
            [pure (errorTextRemark? context exportedNames literal text)] ++
          context.whenEnabled "ERR004" [wrapRemark? unit call literal text]
      | none => []) ++
    (if call.callee == "panic" then context.whenEnabled "ERR006" [panicRemark? unit call]
    else [])

/-- The checks of the errors of a file. -/
def errorChecks (context : Context) : List Check :=
  let unit := context.unit
  let exportedNames := unit.exportedDeclarations.map (·.name)
  context.whenEnabled "ERR001" (unit.functions.map (pure ∘ errorLastRemark?)) ++
    context.whenEnabled "ERR005" (unit.declarations.map (pure ∘ sentinelRemark? unit)) ++
    unit.calls.flatMap (callChecks context exportedNames)

def errorsEvaluator : Evaluator :=
  .ofChecks .errorHandling errorChecks

end GoConventions
