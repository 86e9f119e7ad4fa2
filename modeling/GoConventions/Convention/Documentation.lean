import GoConventions.Convention.Context
import GoConventions.Source.Name

/-!
# Documentation

An exported declaration has a comment directly above it that starts with its name, perhaps after an
article, and is a sentence; a package has exactly one comment of its own, on any of its files.

## Main definitions

* `startsWithName`: whether a comment starts with a name.
* `declarationRemarks`: the remarks on one exported declaration.
* `packageCommentRemarks`, `sentenceRemark?`.
* `documentationEvaluator`.
-/

namespace GoConventions

/-- The articles that may stand before the name. -/
def articles : List String :=
  ["A", "An", "The"]

/-- Whether a comment starts with a name, perhaps after an article. -/
def startsWithName (comment : CommentBlock) (name : String) : Bool :=
  match Text.words comment.text with
  | [] => false
  | [word] => word == name
  | word :: next :: _ => word == name || (articles.contains word && next == name)

/-! ## Sentences -/

/-- Whether a text ends like a sentence. -/
def endsSentence (text : String) : Bool :=
  [".", "!", "?"].any (Text.endsWith text)

/-- Whether a line of a comment is prose: a line comment whose text is not indented like code. -/
def isProseLine (line : String) : Bool :=
  Text.startsWith line "//" && !Text.startsWith line "//\t" && !Text.startsWith line "//  "

/-- The insertion of a period after a comment, before blanks at its end. -/
def periodRequest (unit : SourceUnit) (comment : CommentBlock) : FixRequest :=
  let blanks := ((unit.textAt comment.span).toList.reverse.takeWhile fun c =>
    c == ' ' || c == '\t').length
  let place := comment.span.stop.offset - blanks
  { template := FixTemplate.replace.label, span := unit.spanOf place place
    replacement := some "." }

def sentenceRemark? (unit : SourceUnit) (comment : CommentBlock) : Option Remark :=
  let text := Text.trimEnd comment.text
  if htext : text = "" then none
  else if endsSentence text then none
  else if isProseLine (comment.lines.getLast (CommentBlock.lines_ne_nil htext)) then
    some {
      ruleId := "DOC003", span := comment.span
      message := "doc comment should be a full sentence ending with a period"
      fix := some (periodRequest unit comment) }
  else none

/-! ## Declarations -/

/-- The removal of the blank line between a comment and its declaration, if nothing else stands
between them. -/
def reattachRequest? (unit : SourceUnit) (decl : Declaration) (comment : CommentBlock) :
    Option FixRequest :=
  let lineStart := decl.span.start.offset - (decl.span.start.column - 1)
  let gap := Text.slice comment.span.stop.offset lineStart unit.text
  if Text.isBlankText gap then
    some { template := FixTemplate.replace.label
           span := unit.spanOf comment.span.stop.offset lineStart, replacement := some "\n" }
  else none

/-- The remarks on an exported declaration with a comment. -/
def documentedRemarks (context : Context) (decl : Declaration) (doc : CommentBlock) :
    List Remark :=
  if context.enabled "DOC001" && !startsWithName doc decl.name then
    [{ ruleId := "DOC001", span := decl.span
       message := "comment on exported " ++ decl.kind.label ++ " " ++ decl.name ++
        " should be of the form \"" ++ decl.name ++ " ...\"" }]
  else context.whenEnabled "DOC003" (sentenceRemark? context.unit doc).toList

/-- The remarks on an exported declaration without a comment. -/
def undocumentedRemarks (context : Context) (decl : Declaration) : List Remark :=
  if decl.groupDoc.isSome && context.settings.docExemptions.contains "group-comment" then []
  else
    context.whenEnabled "DOC001"
      [{ ruleId := "DOC001", span := decl.span
         message := "exported " ++ decl.kind.label ++ " " ++ decl.name ++
          " should have a comment starting with its name" }]

/-- The remarks on an exported declaration. -/
def declarationRemarks (context : Context) (decl : Declaration) : List Remark :=
  match decl.doc with
  | some doc => documentedRemarks context decl doc
  | none =>
    match decl.detachedDoc with
    | some detached =>
      if startsWithName detached decl.name && context.enabled "DOC004" then
        [{ ruleId := "DOC004", span := decl.span
           message := "doc comment for " ++ decl.name ++
            " is separated from the declaration by a blank line"
           fix := reattachRequest? context.unit decl detached }]
      else undocumentedRemarks context decl
    | none => undocumentedRemarks context decl

/-- Whether a declaration is a method of a type that other packages do not see. -/
def hasUnexportedReceiver (decl : Declaration) : Bool :=
  decl.kind == .method &&
    (decl.receiver.map fun receiver => !isExported receiver.typeName).getD false

/-! ## The package comment -/

/-- The comments on the package: the one above the package clause, and all others that start like
one. -/
def packageComments (unit : SourceUnit) : List CommentBlock :=
  let opening := "Package " ++ unit.packageName
  unit.packageDoc.toList ++ unit.comments.filter fun comment =>
    some comment != unit.packageDoc &&
      (Text.startsWith comment.text (opening ++ " ") || comment.text == opening)

def packageCommentRemarks (context : Context) : List Remark :=
  let unit := context.unit
  let name := unit.packageName
  match sortBy (compareOn (·.span.start.offset)) (packageComments unit) with
  | [] =>
    if context.settings.requirePackageComment then
      [{ ruleId := "DOC002", span := unit.packageSpan
         message := "package " ++ name ++ " has no package comment" }]
    else []
  | comments =>
    let extra :=
      match comments with
      | _ :: second :: _ =>
        [{ ruleId := "DOC002", span := second.span
           message := "package " ++ name ++ " has " ++ toString comments.length ++
            " package comments; keep exactly one" }]
      | _ => []
    let form :=
      match unit.packageDoc with
      | some doc =>
        if name != "main" && !Text.startsWith doc.text ("Package " ++ name) then
          [{ ruleId := "DOC002", span := doc.span
             message := "package comment should be of the form \"Package " ++ name ++ " ...\"" }]
        else []
      | none => []
    extra ++ form

/-! ## The evaluator -/

/-- The remarks on the comments of a file. -/
def documentationRemarks (context : Context) : List Remark :=
  let unit := context.unit
  let exemptions := context.settings.docExemptions
  if unit.isTestFile && exemptions.contains "test-files" then []
  else
    context.whenEnabled "DOC002" (packageCommentRemarks context) ++
      context.whenEnabled "DOC003" (unit.packageDoc.bind (sentenceRemark? unit)).toList ++
      ((unit.exportedDeclarations.filter fun decl =>
          !(exemptions.contains "unexported-receivers" && hasUnexportedReceiver decl)).flatMap
        (declarationRemarks context))

def documentationEvaluator : Evaluator :=
  .ofRemarks .documentation documentationRemarks

end GoConventions
