import GoConventions.Proofs.Analysis.Run

/-!
# What each evaluator adds to a run

A run goes through its evaluators with the findings gathered so far, but an evaluator does not see
them: it adds its batch, or the report of its failure, or nothing if no rule of its category is
enabled.  So a run has a result when it is not cancelled and every evaluator can add its part, and
the result is made from these parts in the order of the evaluators (`analyze_eq_ok_iff`).

This is the form in which runs with other evaluators, or with the same ones in another order, are
compared: what an evaluator adds depends on the file, the rules and the settings of the run, and not
on the evaluators beside it.

## Main definitions

* `Run.failure?`: why an evaluator that is run fails.
* `Run.added`, `Run.gathered`: what an evaluator adds, and what all of them add.
* `Run.Proceeds`: the caller does not cancel the run at one of its evaluators.

## Main results

* `Run.evaluateAll_eq_none_iff`: what all steps together do.
* `analyze_eq_ok_iff`: the result of a run from the contributions of its evaluators.
-/

namespace GoConventions

namespace Run

variable (run : Run)

/-- Why an evaluator fails when it is run, if it does. -/
def failure? (evaluator : Evaluator) : Option EvaluatorFailure :=
  match run.attempt evaluator with
  | .ok _ => none
  | .error failure => some failure

/-- What an evaluator adds to the findings; nothing if the run ends with it. -/
def added (evaluator : Evaluator) : Findings :=
  match run.contribution evaluator with
  | .ok added => added
  | .error _ => []

/-- What the evaluators add, one after the other. -/
def gathered : Findings :=
  run.evaluators.flatMap run.added

/-- The number of evaluators that are run. -/
def evaluations (evaluators : List Evaluator) : Nat :=
  (evaluators.filter run.isRun).length

/-- No poll is answered by a cancellation from the given one on, while evaluators are run. -/
def Proceeds (polls : Nat) (evaluators : List Evaluator) : Prop :=
  ∀ k < run.evaluations evaluators, run.isCancelled (polls + k) = false

variable {run} {evaluator : Evaluator} {progress progress' : Progress}

theorem added_of_contribution {added : Findings} (h : run.contribution evaluator = .ok added) :
    run.added evaluator = added := by
  rw [Run.added, h]

/-! ## All steps -/

/-- A poll that has not been asked for has not been cancelled. -/
theorem isCancelled_pollsAfter (polls k : Nat) :
    run.isCancelled (run.pollsAfter polls + k) = run.isCancelled (polls + (k + 1)) := by
  unfold isCancelled pollsAfter
  cases run.cancelled? with
  | none => rfl
  | some cancelled => simp [Nat.add_assoc, Nat.add_comm 1 k]

theorem proceeds_cons_of_isRun {evaluators : List Evaluator} {polls : Nat}
    (h : run.isRun evaluator = true) :
    run.Proceeds polls (evaluator :: evaluators) ↔
      run.isCancelled polls = false ∧ run.Proceeds (run.pollsAfter polls) evaluators := by
  unfold Proceeds evaluations
  rw [List.filter_cons_of_pos h, List.length_cons]
  constructor
  · intro hproceeds
    refine ⟨hproceeds 0 (Nat.succ_pos _), fun k hk => ?_⟩
    rw [isCancelled_pollsAfter]
    exact hproceeds (k + 1) (Nat.succ_lt_succ hk)
  · rintro ⟨hfirst, hrest⟩ (_ | k) hk
    · exact hfirst
    · rw [← isCancelled_pollsAfter]
      exact hrest k (Nat.lt_of_succ_lt_succ hk)

theorem proceeds_cons_of_not_isRun {evaluators : List Evaluator} {polls : Nat}
    (h : run.isRun evaluator = false) :
    run.Proceeds polls (evaluator :: evaluators) ↔ run.Proceeds polls evaluators := by
  unfold Proceeds evaluations
  rw [List.filter_cons_of_neg (by simp [h])]

/-- **All steps together**: the run goes to its end when it is not cancelled and every evaluator has
a contribution, and then it has gathered the contributions. -/
theorem evaluateAll_eq_none_iff {evaluators : List Evaluator} {gathered : Findings} :
    (∃ progress', run.evaluateAll progress evaluators = (progress', none) ∧
        progress'.findings = gathered) ↔
      run.Proceeds progress.polls evaluators ∧
        (∀ evaluator ∈ evaluators, ∃ added, run.contribution evaluator = .ok added) ∧
        gathered = progress.findings ++ evaluators.flatMap run.added := by
  -- Each step goes on from the progress of the one before, so the progress varies.
  induction evaluators generalizing progress with
  | nil =>
    simp only [evaluateAll, Proceeds, evaluations, List.filter_nil, List.length_nil,
      Nat.not_lt_zero, false_imp_iff, implies_true, List.not_mem_nil, List.flatMap_nil,
      List.append_nil, true_and, Prod.mk.injEq, and_true, exists_eq_left', eq_comm]
  | cons evaluator evaluators ih =>
    rw [List.forall_mem_cons, List.flatMap_cons, ← List.append_assoc, evaluateAll]
    cases hrun : run.isRun evaluator with
    | false =>
      -- The evaluator adds nothing, and the caller is not asked.
      have hnone := contribution_of_not_isRun hrun
      have hadded : ∃ added, run.contribution evaluator = .ok added := ⟨[], hnone⟩
      rw [step_of_not_isRun hrun, proceeds_cons_of_not_isRun hrun, added_of_contribution hnone,
        List.append_nil, and_iff_right hadded]
      exact ih
    | true =>
      rw [proceeds_cons_of_isRun hrun]
      cases hcancel : run.isCancelled progress.polls with
      | true =>
        -- The run ends here, and so does what the right side asks of the first poll.
        obtain ⟨log, hstep⟩ := step_of_cancelled hrun hcancel
        rw [hstep]
        simp
      | false =>
        have hstep := step_of_contribution hrun hcancel
        cases hcontribution : run.contribution evaluator with
        | error fault =>
          -- The run ends here too, for want of a contribution.
          rw [hcontribution] at hstep
          obtain ⟨log, hstep⟩ := hstep
          rw [hstep]
          simp
        | ok added =>
          rw [hcontribution] at hstep
          obtain ⟨log, hstep⟩ := hstep
          have hrest := @ih ⟨progress.findings ++ added, run.pollsAfter progress.polls,
            progress.evaluated ++ [evaluator], log⟩
          rw [hstep, added_of_contribution hcontribution]
          simpa using hrest

end Run

/-- **The result of a run is made from what its evaluators add**, in their order. -/
theorem analyze_eq_ok_iff {run : Run} {result : FileResult} :
    analyze run = .ok result ↔
      run.Proceeds 0 run.evaluators ∧
        (∀ evaluator ∈ run.evaluators, ∃ added, run.contribution evaluator = .ok added) ∧
        result = run.gathered.result run.unit := by
  have hall := @Run.evaluateAll_eq_none_iff run { log := run.openingLog } run.evaluators
  rw [analyze_eq_ok]
  constructor
  · rintro ⟨progress, hrun, rfl⟩
    obtain ⟨hproceeds, hadded, hgathered⟩ := hall.mp ⟨progress, hrun, rfl⟩
    exact ⟨hproceeds, hadded, by rw [hgathered]; rfl⟩
  · rintro ⟨hproceeds, hadded, rfl⟩
    obtain ⟨progress, hrun, hgathered⟩ := hall.mpr ⟨hproceeds, hadded, rfl⟩
    exact ⟨progress, hrun, by rw [hgathered]; rfl⟩

end GoConventions
