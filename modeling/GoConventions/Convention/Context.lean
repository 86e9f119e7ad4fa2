import GoConventions.Finding.Aggregation
import GoConventions.Settings.Basic

/-!
# Evaluating rules

An evaluator checks the rules of one category on one source file.  It sees the file, the enabled
rules of its category and the settings, and answers findings, or the reason why it could not.

A built-in evaluator states *remarks*: which rule is broken where, in what words.  A remark becomes
a finding through the rule it names, which supplies the severity and the guidance, and decides
whether a correction is offered at all; a remark on a rule that is not enabled is a failure.

What a check looks up may be missing in a file that has been put together by hand.  Then the check
fails, and its evaluator with it.

## Main definitions

* `Context`, `Evaluator`, `EvaluatorFailure`.
* `Remark`, `Context.finding`: from a remark to a finding.
* `Check`, `Evaluator.ofChecks`: checks that may fail, and the evaluator that makes them.
-/

namespace GoConventions

/-- Why an evaluator could not answer. -/
inductive EvaluatorFailure where
  /-- A failure in the evaluator's own words. -/
  | raised (text : String)
  | ruleNotEnabled (id : String)
  | outsideFile (fault : OutsideFile)
  /-- An import entry ends before it starts, so it has no line. -/
  | emptyEntry
  | noSuchScope
  /-- The settings have no band for any scope. -/
  | noBand
  /-- The package clause declares nothing. -/
  | noPackage
  deriving DecidableEq, Repr

/-- The failure as it is reported: its class and its text. -/
def EvaluatorFailure.description : EvaluatorFailure → String
  | .raised text => "RuntimeError: " ++ text
  | .ruleNotEnabled id =>
    "KeyError: " ++ Text.quoted ("rule " ++ id ++ " is not enabled for this run")
  | .outsideFile fault => "ValueError: " ++ fault.message
  | .emptyEntry => "IndexError: list index out of range"
  | .noSuchScope | .noBand => "IndexError: tuple index out of range"
  | .noPackage => "StopIteration: "

/-- What an evaluator sees. -/
structure Context where
  unit : SourceUnit
  rules : RuleSet
  settings : Settings

/-- A rule that is broken, and where. -/
structure Remark where
  ruleId : String
  span : Span
  message : String
  fix : Option FixRequest := none
  guidance : Option String := none

namespace Context

variable (context : Context)

/-- Whether a rule is checked in this run. -/
def enabled (id : String) : Bool :=
  context.rules.contains id

/-- The finding that a remark stands for.  A correction is kept only if the rule has a template for
one, and the guidance is the rule's unless the remark has its own. -/
def finding (remark : Remark) : Except EvaluatorFailure Finding :=
  match context.rules.get? remark.ruleId with
  | none => .error (.ruleNotEnabled remark.ruleId)
  | some rule =>
    .ok {
      ruleId := rule.id
      category := rule.category.label
      severity := rule.severity
      path := context.unit.path
      span := remark.span
      message := remark.message
      guidance := remark.guidance.getD rule.guidance
      fix := if rule.fix.isSome then remark.fix else none }

/-- The findings that remarks stand for. -/
def findings (remarks : List Remark) : Except EvaluatorFailure (List Finding) :=
  remarks.mapM context.finding

/-- The remarks or checks, if a rule is enabled; otherwise they are not even computed. -/
@[macro_inline] def whenEnabled {α : Type} (id : String) (stated : List α) : List α :=
  if context.enabled id then stated else []

end Context

/-- Checks the rules of one category. -/
structure Evaluator where
  category : Category
  evaluate : Context → Except EvaluatorFailure (List Finding)

/-- An evaluator that states remarks and does not fail by itself. -/
def Evaluator.ofRemarks (category : Category) (remarks : Context → List Remark) : Evaluator where
  category
  evaluate context := context.findings (remarks context)

/-- What a check comes to: a remark or none, or the look-up that failed. -/
abbrev Check := Except EvaluatorFailure (Option Remark)

/-- An evaluator that makes checks, one after the other. -/
def Evaluator.ofChecks (category : Category) (checks : Context → List Check) : Evaluator where
  category
  evaluate context := do
    let remarks ← (checks context).mapM id
    context.findings (remarks.filterMap id)

namespace SourceUnit

variable (unit : SourceUnit)

/-- The scope with an index. -/
def scope (id : Nat) : Except EvaluatorFailure Scope :=
  unit.scopes[id]?.getDM (throw .noSuchScope)

/-- The innermost function scope around a scope, over at most the given number of steps. -/
def functionAroundWithin : Nat → Nat → Except EvaluatorFailure (Option Scope)
  | 0, _ => return none
  | steps + 1, id => do
    let scope ← unit.scope id
    if scope.kind == .function then return some scope
    match scope.parent with
    | some parent => functionAroundWithin steps parent
    | none => return none

/-- The innermost function scope around a scope, the scope itself included; the way up fails at a
scope that is missing. -/
def functionAround (id : Nat) : Except EvaluatorFailure (Option Scope) :=
  unit.functionAroundWithin (id + 1) id

end SourceUnit

end GoConventions
