import GoConventions.Convention.Documentation
import GoConventions.Convention.Imports
import GoConventions.Convention.Layout
import GoConventions.Convention.Naming
import GoConventions.Convention.Organization
import GoConventions.Report.Basic
import GoConventions.Rule.Catalog
import GoConventions.Rule.Packaged

/-!
# Analysing a file

One run takes a source file through every evaluator whose category has an enabled rule, collects
their findings and puts the result together.

An evaluator that fails does not end the run: its findings are dropped, and the failure itself
becomes a finding of the internal rule at the package clause.  A caller may cancel a run; it is
asked before each evaluator, and a cancelled run has no result.

## Main definitions

* `Run`: what a run is given, with `Run.evaluateAll` and `Run.outcome`.
* `Run.evaluate`: the call of an evaluator, which leaves a trace.
* `Outcome`: the result or the fault, how often the caller was asked, which evaluators were called,
  and the log.
* `analyze`, `analyzeMany`.
-/

namespace GoConventions

/-- The rule under which the failure of an evaluator is reported. -/
def internalRuleId : String := "INT001"

/-- The built-in evaluators, in the order in which they run. -/
def builtinEvaluators : List Evaluator :=
  [namingEvaluator, errorsEvaluator, importsEvaluator, documentationEvaluator,
   organizationEvaluator, layoutEvaluator]

/-- What a run is given.  `cancelled?` answers the caller's poll of the given number, the first one
being zero; without it there are no polls.  The registry is the one that the run uses, so a caller
who hands over none, or one without rules, has been given the packaged one before. -/
structure Run where
  unit : SourceUnit
  registry : Registry := packagedRegistry
  settings : Settings := {}
  exclude : List String := []
  cancelled? : Option (Nat → Bool) := none
  evaluators : List Evaluator := builtinEvaluators

/-- Why a run has no result. -/
inductive RunFault where
  | cancelled (path : String)
  | catalog (fault : CatalogFault)
  /-- The package clause, at which failures are reported, does not lie in the file. -/
  | outsideFile (fault : OutsideFile)
  deriving DecidableEq, Repr

def RunFault.message : RunFault → String
  | .cancelled path => "analysis of " ++ path ++ " was cancelled"
  | .catalog fault => fault.message
  | .outsideFile fault => fault.message

/-- How far a run has come. -/
structure Progress where
  findings : Findings := []
  polls : Nat := 0
  /-- The evaluators called so far, in the order of the calls. -/
  evaluated : List Evaluator := []
  log : List LogRecord := []

structure Outcome where
  result : Except RunFault FileResult
  polls : Nat
  evaluated : List Evaluator
  log : List LogRecord

/-- The text of an evaluator's failure. -/
def failureMessage (category : Category) (failure : EvaluatorFailure) : String :=
  category.label ++ " evaluator failed: " ++ failure.description

namespace Run

variable (run : Run)

/-- The rules that are not excluded. -/
def rules : RuleSet :=
  run.registry.without (run.settings.exclude ++ run.exclude)

/-- What an evaluator of a category sees. -/
def context (category : Category) : Context where
  unit := run.unit
  rules := run.rules.ofCategory category
  settings := run.settings

/-- The finding that reports the failure of an evaluator. -/
def internalFinding (category : Category) (failure : EvaluatorFailure) :
    Except CatalogFault Finding := do
  let rule ← run.registry.rule internalRuleId
  return {
    ruleId := rule.id
    category := rule.category.label
    severity := rule.severity
    path := run.unit.path
    span := run.unit.packageSpan
    message := failureMessage category failure
    guidance := rule.guidance }

/-- Calls an evaluator.  The call is noted before there is an answer, whatever the answer is. -/
def evaluate (evaluator : Evaluator) : EStateM EvaluatorFailure Progress (List Finding) := do
  modify fun progress => { progress with evaluated := progress.evaluated ++ [evaluator] }
  MonadExcept.ofExcept (evaluator.evaluate (run.context evaluator.category))

/-- Takes a batch into the findings of the run. -/
def takeBatch (batch : List Finding) : EStateM OutsideFile Progress Unit := fun progress =>
  match (Findings.take run.unit batch).run progress.findings with
  | .ok _ findings => .ok () { progress with findings }
  | .error fault findings => .error fault { progress with findings }

/-- Calls an evaluator and takes its findings. -/
def collect (evaluator : Evaluator) : EStateM EvaluatorFailure Progress Unit := do
  let batch ← run.evaluate evaluator
  (run.takeBatch batch).adaptExcept .outsideFile

/-- Takes the report of a failure. -/
def reportFailure (category : Category) (failure : EvaluatorFailure) :
    EStateM RunFault Progress Unit := do
  let finding ← MonadExcept.ofExcept ((run.internalFinding category failure).mapError .catalog)
  (run.takeBatch [finding]).adaptExcept .outsideFile

/-- Whether the caller cancels the run at its next poll. -/
def isCancelled (polls : Nat) : Bool :=
  match run.cancelled? with
  | some cancelled => cancelled polls
  | none => false

/-- One evaluator: the progress after it, and the fault that ends the run, if there is one. -/
def step (progress : Progress) (evaluator : Evaluator) : Progress × Option RunFault :=
  if (run.rules.ofCategory evaluator.category).size = 0 then (progress, none)
  else
    let polled :=
      { progress with polls := progress.polls + (if run.cancelled?.isSome then 1 else 0) }
    -- The answer is to the poll with the number of the polls before it.
    if run.isCancelled progress.polls then
      let record : LogRecord := {
        level := .info
        source := .analysis
        message := "analysis of " ++ run.unit.path ++ " cancelled before " ++
          evaluator.category.label }
      ({ polled with log := polled.log ++ [record] }, some (.cancelled run.unit.path))
    else
      match (run.collect evaluator).run polled with
      | .ok _ collected => (collected, none)
      | .error failure left =>
        let record : LogRecord := {
          level := .error
          source := .analysis
          message := run.unit.path ++ ": " ++ failureMessage evaluator.category failure
          failure := some failure.description }
        let logged := { left with log := left.log ++ [record] }
        match (run.reportFailure evaluator.category failure).run logged with
        | .ok _ reported => (reported, none)
        | .error fault left => (left, some fault)

/-- All evaluators, one after the other, until a fault ends the run. -/
def evaluateAll (progress : Progress) : List Evaluator → Progress × Option RunFault
  | [] => (progress, none)
  | evaluator :: evaluators =>
    match run.step progress evaluator with
    | (progress, none) => evaluateAll progress evaluators
    | (progress, some fault) => (progress, some fault)

/-- What is said before the first evaluator runs. -/
def openingLog : List LogRecord :=
  run.registry.exclusionLog (run.settings.exclude ++ run.exclude) ++
    [{ level := .debug, source := .analysis
       message := "analysing " ++ run.unit.path ++ " with " ++ toString run.rules.size ++
         " rules" }]

/-- The outcome of the run. -/
def outcome : Outcome :=
  match run.evaluateAll { log := run.openingLog } run.evaluators with
  | (progress, some fault) => ⟨.error fault, progress.polls, progress.evaluated, progress.log⟩
  | (progress, none) =>
    let result := progress.findings.result run.unit
    let record : LogRecord := {
      level := .debug
      source := .analysis
      message := "finished " ++ run.unit.path ++ ": " ++ toString result.findings.length ++
        " findings" }
    ⟨.ok result, progress.polls, progress.evaluated,
      progress.log ++ progress.findings.resultLog run.unit ++ [record]⟩

end Run

/-- The result of a run, or why it has none. -/
def analyze (run : Run) : Except RunFault FileResult :=
  run.outcome.result

/-- The results of independent runs, in their order, and what was said; the first fault ends
them. -/
def analyzeMany : List Run → Except RunFault (List FileResult) × List LogRecord
  | [] => (.ok [], [])
  | run :: runs =>
    let outcome := run.outcome
    match outcome.result with
    | .error fault => (.error fault, outcome.log)
    | .ok result =>
      let (results, log) := analyzeMany runs
      (results.map (result :: ·), outcome.log ++ log)

end GoConventions
