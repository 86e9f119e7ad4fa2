import GoConventions.Analysis
import GoConventions.Proofs.Finding.Batches

/-!
# What a run gathers

A run takes its evaluators one after the other.  What a step does is said once, in three cases: the
evaluator has no enabled rule (`step_of_not_isRun`), the caller cancels (`step_of_cancelled`), or
the evaluator is called, once, and adds what it contributes, its batch or the report of its failure
(`step_of_contribution`).  An evaluator does not see what has been gathered before it, so what it
contributes is said apart from any progress.

So what holds of every finding of a batch and of every report holds of all findings that a run
gathers (`forall_mem_findings`).  A run that ends well puts the findings it has gathered together
(`analyze_eq_ok`).

## Main definitions

* `Run.answer`, `Run.report`: what an evaluator answers, and the report of a failure.
* `Run.isRun`, `Run.contribution`: whether an evaluator is run, and what it adds.

## Main results

* `Run.step_of_contribution`: what a step does that calls its evaluator.
* `Run.forall_mem_findings`: what holds of all findings gathered.
* `analyze_eq_ok`: what the result of a run is made from.
-/

namespace GoConventions

namespace Run

variable (run : Run)

/-- What an evaluator answers: its batch, or why it fails. -/
def answer (evaluator : Evaluator) : Except EvaluatorFailure Findings :=
  match (run.collect evaluator).run {} with
  | .ok _ left => .ok left.findings
  | .error failure _ => .error failure

/-- The report of a failure, or why there can be none. -/
def report (category : Category) (failure : EvaluatorFailure) : Except RunFault Findings :=
  match (run.reportFailure category failure).run {} with
  | .ok _ left => .ok left.findings
  | .error fault _ => .error fault

/-- Whether an evaluator is run: some rule of its category is enabled. -/
def isRun (evaluator : Evaluator) : Bool :=
  (run.rules.ofCategory evaluator.category).size != 0

/-- The batch of an evaluator, or why it fails.  One that is not run has an empty batch. -/
def attempt (evaluator : Evaluator) : Except EvaluatorFailure Findings :=
  if run.isRun evaluator then run.answer evaluator else .ok []

/-- What an evaluator adds to the findings, its batch or the report of its failure, or why the run
ends with it. -/
def contribution (evaluator : Evaluator) : Except RunFault Findings :=
  match run.attempt evaluator with
  | .ok batch => .ok batch
  | .error failure => run.report evaluator.category failure

/-- The polls after an evaluator has been run. -/
def pollsAfter (polls : Nat) : Nat :=
  polls + (if run.cancelled?.isSome then 1 else 0)

variable {run} {evaluator : Evaluator} {category : Category} {failure : EvaluatorFailure}
  {progress progress' : Progress}

/-! ## What is taken, and what is left -/

theorem evaluate_run (evaluator : Evaluator) (progress : Progress) :
    (run.evaluate evaluator).run progress =
      match evaluator.evaluate (run.context evaluator.category) with
      | .ok batch => .ok batch { progress with evaluated := progress.evaluated ++ [evaluator] }
      | .error failure =>
        .error failure { progress with evaluated := progress.evaluated ++ [evaluator] } := by
  rw [evaluate, EStateM.run_bind]
  cases evaluator.evaluate (run.context evaluator.category) <;> rfl

/-- A batch that is refused leaves the progress as it was, under whatever name the fault goes on. -/
theorem takeBatch_run {ε : Type} (adapt : OutsideFile → ε) (batch : List Finding)
    (progress : Progress) :
    ((run.takeBatch batch).adaptExcept adapt).run progress =
      match Findings.refusal? run.unit batch with
      | some fault => .error (adapt fault) progress
      | none => .ok () { progress with findings := progress.findings ++ batch } := by
  have htake := Findings.take_run run.unit batch progress.findings
  simp only [EStateM.run] at htake
  simp only [takeBatch, EStateM.adaptExcept, EStateM.run, htake]
  cases Findings.refusal? run.unit batch <;> rfl

theorem collect_eq (evaluator : Evaluator) (progress : Progress) :
    (run.collect evaluator).run progress =
      match evaluator.evaluate (run.context evaluator.category) with
      | .ok batch => ((run.takeBatch batch).adaptExcept .outsideFile).run
          { progress with evaluated := progress.evaluated ++ [evaluator] }
      | .error failure =>
        .error failure { progress with evaluated := progress.evaluated ++ [evaluator] } := by
  rw [collect, EStateM.run_bind, evaluate_run]
  cases evaluator.evaluate (run.context evaluator.category) <;> rfl

/-- An evaluator answers with its batch if it gives one that lies in the file. -/
theorem answer_eq (evaluator : Evaluator) :
    run.answer evaluator =
      match evaluator.evaluate (run.context evaluator.category) with
      | .ok batch =>
        match Findings.refusal? run.unit batch with
        | some fault => .error (.outsideFile fault)
        | none => .ok batch
      | .error failure => .error failure := by
  rw [answer, collect_eq]
  cases evaluator.evaluate (run.context evaluator.category) with
  | error failure => rfl
  | ok batch =>
    simp only [takeBatch_run]
    cases Findings.refusal? run.unit batch <;> rfl

theorem answer_eq_ok {batch : Findings} :
    run.answer evaluator = .ok batch ↔
      evaluator.evaluate (run.context evaluator.category) = .ok batch ∧
        ∀ f ∈ batch, run.unit.containsSpan f.span = true := by
  rw [answer_eq]
  cases evaluator.evaluate (run.context evaluator.category) with
  | error failure => simp
  | ok given =>
    have hnone := @Findings.refusal?_eq_none_iff run.unit given
    cases hrefusal : Findings.refusal? run.unit given with
    | some fault =>
      refine iff_of_false (by simp [hrefusal]) ?_
      rintro ⟨heq, hin⟩
      obtain rfl := Except.ok.inj heq
      simp [hnone.mpr hin] at hrefusal
    | none =>
      simp only [hrefusal, Except.ok.injEq, iff_self_and]
      rintro rfl
      exact hnone.mp hrefusal

/-- **An evaluator is called once**, whatever it answers, and its answer depends on nothing that has
been gathered before. -/
theorem collect_run (evaluator : Evaluator) (progress : Progress) :
    (run.collect evaluator).run progress =
      match run.answer evaluator with
      | .ok batch => .ok () { progress with
          findings := progress.findings ++ batch
          evaluated := progress.evaluated ++ [evaluator] }
      | .error failure =>
        .error failure { progress with evaluated := progress.evaluated ++ [evaluator] } := by
  rw [answer_eq, collect_eq]
  cases evaluator.evaluate (run.context evaluator.category) with
  | error failure => rfl
  | ok batch =>
    simp only [takeBatch_run]
    cases Findings.refusal? run.unit batch <;> rfl

theorem reportFailure_eq (category : Category) (failure : EvaluatorFailure) (progress : Progress) :
    (run.reportFailure category failure).run progress =
      match run.internalFinding category failure with
      | .ok f => ((run.takeBatch [f]).adaptExcept .outsideFile).run progress
      | .error fault => .error (.catalog fault) progress := by
  rw [reportFailure, EStateM.run_bind]
  cases run.internalFinding category failure <;> rfl

/-- A report is taken like any other batch. -/
theorem report_eq (category : Category) (failure : EvaluatorFailure) :
    run.report category failure =
      match run.internalFinding category failure with
      | .ok f =>
        match Findings.refusal? run.unit [f] with
        | some fault => .error (.outsideFile fault)
        | none => .ok [f]
      | .error fault => .error (.catalog fault) := by
  rw [report, reportFailure_eq]
  cases run.internalFinding category failure with
  | error fault => rfl
  | ok f =>
    simp only [takeBatch_run]
    cases Findings.refusal? run.unit [f] <;> rfl

theorem report_eq_ok {reported : Findings} :
    run.report category failure = .ok reported ↔
      ∃ f, run.internalFinding category failure = .ok f ∧
        run.unit.containsSpan f.span = true ∧ reported = [f] := by
  rw [report_eq]
  cases run.internalFinding category failure with
  | error fault => simp
  | ok f =>
    have hnone := @Findings.refusal?_eq_none_iff run.unit [f]
    rw [List.forall_mem_singleton] at hnone
    cases hrefusal : Findings.refusal? run.unit [f] with
    | some fault =>
      simp only [hrefusal, reduceCtorEq, false_iff] at hnone
      simp [hrefusal, hnone]
    | none => simp [hrefusal, hnone.mp hrefusal, @eq_comm _ reported]

theorem reportFailure_run (category : Category) (failure : EvaluatorFailure)
    (progress : Progress) :
    (run.reportFailure category failure).run progress =
      match run.report category failure with
      | .ok reported => .ok () { progress with findings := progress.findings ++ reported }
      | .error fault => .error fault progress := by
  rw [report_eq, reportFailure_eq]
  cases run.internalFinding category failure with
  | error fault => rfl
  | ok f =>
    simp only [takeBatch_run]
    cases Findings.refusal? run.unit [f] <;> rfl

/-- The report of a failure is a finding at the package clause, which asks for nothing. -/
theorem internalFinding_eq_ok {f : Finding} :
    run.internalFinding category failure = .ok f ↔
      ∃ rule, run.registry.get? internalRuleId = some rule ∧ f = {
        ruleId := rule.id
        category := rule.category.label
        severity := rule.severity
        path := run.unit.path
        span := run.unit.packageSpan
        message := failureMessage category failure
        guidance := rule.guidance } := by
  unfold internalFinding Registry.rule
  cases run.registry.get? internalRuleId <;>
    simp [bind, Except.bind, pure, Except.pure, eq_comm]

/-! ## One step -/

theorem size_eq_zero_iff :
    (run.rules.ofCategory evaluator.category).size = 0 ↔ run.isRun evaluator = false := by
  simp [isRun]

theorem size_ne_zero_of_isRun (h : run.isRun evaluator = true) :
    ¬ (run.rules.ofCategory evaluator.category).size = 0 := by
  rw [size_eq_zero_iff, h]
  decide

theorem step_of_not_isRun (h : run.isRun evaluator = false) :
    run.step progress evaluator = (progress, none) := by
  rw [step, if_pos (size_eq_zero_iff.mpr h)]

/-- A step that the caller cancels ends the run.  The caller has been asked, and the evaluator has
not been called. -/
theorem step_of_cancelled (h : run.isRun evaluator = true)
    (hcancel : run.isCancelled progress.polls = true) :
    ∃ log, run.step progress evaluator =
      ({ progress with polls := run.pollsAfter progress.polls, log },
        some (.cancelled run.unit.path)) := by
  rw [step, if_neg (size_ne_zero_of_isRun h)]
  simp only [hcancel, if_true]
  exact ⟨_, rfl⟩

/-- **A step that is not cancelled calls its evaluator once** and adds the contribution of this
evaluator, or ends with its fault. -/
theorem step_of_contribution (h : run.isRun evaluator = true)
    (hcancel : run.isCancelled progress.polls = false) :
    match run.contribution evaluator with
    | .ok added => ∃ log, run.step progress evaluator =
        (⟨progress.findings ++ added, run.pollsAfter progress.polls,
          progress.evaluated ++ [evaluator], log⟩, none)
    | .error fault => ∃ log, run.step progress evaluator =
        (⟨progress.findings, run.pollsAfter progress.polls,
          progress.evaluated ++ [evaluator], log⟩, some fault) := by
  have hattempt : run.attempt evaluator = run.answer evaluator := by rw [attempt, if_pos h]
  rw [step, if_neg (size_ne_zero_of_isRun h)]
  simp only [hcancel, Bool.false_eq_true, if_false, contribution, hattempt, collect_run]
  cases run.answer evaluator with
  | ok batch => exact ⟨_, rfl⟩
  | error failure =>
    simp only [reportFailure_run]
    cases run.report evaluator.category failure <;> exact ⟨_, rfl⟩

theorem contribution_of_not_isRun (h : run.isRun evaluator = false) :
    run.contribution evaluator = .ok [] := by
  rw [contribution, attempt, if_neg (by simp [h])]

/-- What an evaluator adds is the batch that it answers with, the report of its failure, or
nothing. -/
theorem of_contribution_eq_ok {added : Findings} (h : run.contribution evaluator = .ok added) :
    added = [] ∨ evaluator.evaluate (run.context evaluator.category) = .ok added ∨
      ∃ failure f, run.internalFinding evaluator.category failure = .ok f ∧ added = [f] := by
  cases hrun : run.isRun evaluator with
  | false =>
    rw [contribution_of_not_isRun hrun] at h
    exact Or.inl (Except.ok.inj h).symm
  | true =>
    rw [contribution, attempt, if_pos hrun] at h
    cases hanswer : run.answer evaluator with
    | ok batch =>
      rw [hanswer] at h
      obtain rfl := Except.ok.inj h
      exact Or.inr (Or.inl (answer_eq_ok.mp hanswer).1)
    | error failure =>
      rw [hanswer] at h
      obtain ⟨f, hf, -, rfl⟩ := report_eq_ok.mp h
      exact Or.inr (Or.inr ⟨failure, f, hf, rfl⟩)

/-- A step that does not end the run adds what its evaluator contributes. -/
theorem findings_of_step (h : run.step progress evaluator = (progress', none)) :
    ∃ added, run.contribution evaluator = .ok added ∧
      progress'.findings = progress.findings ++ added := by
  cases hrun : run.isRun evaluator with
  | false =>
    rw [step_of_not_isRun hrun] at h
    obtain ⟨rfl, -⟩ := Prod.mk.inj h
    exact ⟨[], contribution_of_not_isRun hrun, (List.append_nil _).symm⟩
  | true =>
    cases hcancel : run.isCancelled progress.polls with
    | true =>
      obtain ⟨log, hstep⟩ := step_of_cancelled hrun hcancel
      simp [hstep] at h
    | false =>
      have hstep := step_of_contribution hrun hcancel
      cases hcontribution : run.contribution evaluator with
      | error fault =>
        rw [hcontribution] at hstep
        obtain ⟨log, hstep⟩ := hstep
        simp [hstep] at h
      | ok added =>
        rw [hcontribution] at hstep
        obtain ⟨log, hstep⟩ := hstep
        obtain ⟨rfl, -⟩ := Prod.mk.inj (hstep.symm.trans h)
        exact ⟨added, rfl, rfl⟩

/-! ## All steps -/

/-- **What holds of all batches and reports holds of all findings gathered.** -/
theorem forall_mem_findings {evaluators : List Evaluator} {P : Finding → Prop}
    (hbatch : ∀ evaluator ∈ evaluators, ∀ batch,
      evaluator.evaluate (run.context evaluator.category) = .ok batch → ∀ f ∈ batch, P f)
    (hreport : ∀ category failure f, run.internalFinding category failure = .ok f → P f)
    (h : run.evaluateAll progress evaluators = (progress', none))
    (hbefore : ∀ f ∈ progress.findings, P f) : ∀ f ∈ progress'.findings, P f := by
  induction evaluators generalizing progress with
  | nil =>
    obtain ⟨rfl, -⟩ := Prod.mk.inj h
    exact hbefore
  | cons evaluator evaluators ih =>
    rw [evaluateAll] at h
    split at h
    case h_1 middle hstep =>
      refine ih (fun e he => hbatch e (List.mem_cons_of_mem _ he)) h fun f hf => ?_
      obtain ⟨added, hadded, heq⟩ := findings_of_step hstep
      rw [heq] at hf
      rcases List.mem_append.mp hf with hf | hf
      · exact hbefore f hf
      rcases of_contribution_eq_ok hadded with rfl | hevaluate | ⟨failure, g, hg, rfl⟩
      · cases hf
      · exact hbatch evaluator List.mem_cons_self added hevaluate f hf
      · exact List.mem_singleton.mp hf ▸ hreport _ failure g hg
    case h_2 => simp at h

end Run

/-- A run has a result when no evaluator ends it, and the result is made from what it gathers. -/
theorem analyze_eq_ok {run : Run} {result : FileResult} :
    analyze run = .ok result ↔
      ∃ progress, run.evaluateAll { log := run.openingLog } run.evaluators = (progress, none) ∧
        result = progress.findings.result run.unit := by
  unfold analyze Run.outcome
  split
  case h_1 progress fault heq => simp [heq]
  case h_2 progress heq => simp [heq, eq_comm]

end GoConventions
