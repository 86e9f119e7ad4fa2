import GoConventions.Proofs.Analysis.Patches
import GoConventions.Proofs.Analysis.Reports

/-!
# Cancelling a run

The caller is asked before each evaluator that is run, and only then.  So a caller who first says
yes at a poll stops the run just before the evaluator that this poll is about: the evaluators before
it have been called, it and those after it have not, and there is no result.  A caller who would say
yes later than the last poll has only been asked; the outcome is otherwise that of the same run
without a caller (`cancels_exactly`).

An outcome tells how often the caller was asked and which evaluators were called, also where an
answer is lost later, so both are counted along the run (`Run.evaluateAll_uncancelled`).

## Main definitions

* `Run.uncancelled`: the run without a caller.
* `Run.CancelsFirstAt`, `Run.SurvivesFailures`: what is known of the caller and of the failures.

## Main results

* `Run.evaluateAll_uncancelled`: what a part of a run does that goes through.
* `cancels_exactly`: what a run with a caller does.
-/

namespace GoConventions

namespace Run

variable (run : Run)

/-- The run without a caller who is asked. -/
def uncancelled : Run :=
  { run with cancelled? := none }

/-- The caller, who is asked from poll zero on, first says yes at the given poll. -/
def CancelsFirstAt (poll : Nat) : Prop :=
  ∃ cancelled, run.cancelled? = some cancelled ∧
    (∀ earlier < poll, cancelled earlier = false) ∧ cancelled poll = true

/-- Every failure of an evaluator can be reported, so that no failure ends the run. -/
def SurvivesFailures : Prop :=
  ∀ evaluator ∈ run.evaluators, ∀ failure, run.failure? evaluator = some failure →
    ∃ reported, run.report evaluator.category failure = .ok reported

variable {run} {evaluator : Evaluator} {evaluators before rest : List Evaluator}
  {progress progress' : Progress} {n : Nat}

/-! ## Parts of a run -/

theorem evaluations_cons_of_isRun (h : run.isRun evaluator = true) :
    run.evaluations (evaluator :: evaluators) = run.evaluations evaluators + 1 := by
  rw [evaluations, evaluations, List.filter_cons_of_pos h, List.length_cons]

theorem evaluations_cons_of_not_isRun (h : run.isRun evaluator = false) :
    run.evaluations (evaluator :: evaluators) = run.evaluations evaluators := by
  rw [evaluations, evaluations, List.filter_cons_of_neg (by simp [h])]

theorem evaluateAll_append (progress : Progress) (before rest : List Evaluator) :
    run.evaluateAll progress (before ++ rest) =
      match run.evaluateAll progress before with
      | (reached, none) => run.evaluateAll reached rest
      | (ended, some fault) => (ended, some fault) := by
  induction before generalizing progress with
  | nil => rfl
  | cons evaluator before ih =>
    rw [List.cons_append, evaluateAll, evaluateAll]
    split
    · exact ih _
    · rfl

/-- A step that does not end the run asks and calls its evaluator if this is run, and does the rest
as it would without a caller. -/
theorem step_uncancelled (h : run.step progress evaluator = (progress', none)) (polls : Nat) :
    progress'.polls = (if run.isRun evaluator then run.pollsAfter progress.polls
      else progress.polls) ∧
    progress'.evaluated = progress.evaluated ++ [evaluator].filter run.isRun ∧
    run.uncancelled.step { progress with polls } evaluator = ({ progress' with polls }, none) := by
  cases hrun : run.isRun evaluator with
  | false =>
    rw [step_of_not_isRun hrun] at h
    obtain ⟨rfl, -⟩ := Prod.mk.inj h
    exact ⟨rfl, by simp [hrun], step_of_not_isRun hrun⟩
  | true =>
    have hother : run.uncancelled.isRun evaluator = true := hrun
    -- Neither the answer nor the report of a failure sees the caller.
    have hanswer : run.uncancelled.answer evaluator = run.answer evaluator := rfl
    have hreport (failure : EvaluatorFailure) :
      run.uncancelled.report evaluator.category failure =
        run.report evaluator.category failure := rfl
    have hcancel' : run.uncancelled.isCancelled polls = false := rfl
    rw [step, if_neg (size_ne_zero_of_isRun hrun)] at h
    rw [step, if_neg (size_ne_zero_of_isRun hother), List.filter_cons_of_pos hrun, List.filter_nil]
    simp only [collect_run, hanswer, hcancel', Bool.false_eq_true, if_false] at h ⊢
    cases hcancel : run.isCancelled progress.polls with
    | true => simp [hcancel] at h
    | false =>
      simp only [hcancel, Bool.false_eq_true, if_false] at h
      cases hanswered : run.answer evaluator with
      | ok batch =>
        simp only [hanswered] at h
        obtain ⟨rfl, -⟩ := Prod.mk.inj h
        exact ⟨rfl, rfl, rfl⟩
      | error failure =>
        simp only [hanswered, reportFailure_run, hreport] at h ⊢
        cases hreported : run.report evaluator.category failure with
        | ok reported =>
          simp only [hreported] at h ⊢
          obtain ⟨rfl, -⟩ := Prod.mk.inj h
          exact ⟨rfl, rfl, rfl⟩
        | error fault => simp [hreported] at h

/-- **A part of the run that goes through** asks once for each evaluator that is run and calls it
once, in their order, and does the rest as it would without a caller. -/
theorem evaluateAll_uncancelled (h : run.evaluateAll progress evaluators = (progress', none))
    (polls : Nat) :
    progress'.polls =
        progress.polls + (if run.cancelled?.isSome then run.evaluations evaluators else 0) ∧
      progress'.evaluated = progress.evaluated ++ evaluators.filter run.isRun ∧
      run.uncancelled.evaluateAll { progress with polls } evaluators =
        ({ progress' with polls }, none) := by
  induction evaluators generalizing progress with
  | nil =>
    obtain ⟨rfl, -⟩ := Prod.mk.inj h
    exact ⟨by simp [evaluations], by simp, rfl⟩
  | cons evaluator evaluators ih =>
    rw [evaluateAll] at h
    split at h
    case h_2 => simp at h
    case h_1 middle hstep =>
      obtain ⟨hpolls, hevaluated, hsame⟩ := step_uncancelled hstep polls
      obtain ⟨ihpolls, ihevaluated, ihsame⟩ := ih h
      refine ⟨?_, ?_, by rw [evaluateAll, hsame]; exact ihsame⟩
      · rw [ihpolls, hpolls, pollsAfter]
        cases hrun : run.isRun evaluator with
        | false => rw [evaluations_cons_of_not_isRun hrun]; rfl
        | true =>
          rw [evaluations_cons_of_isRun hrun, if_pos rfl]
          split <;> omega
      · rw [ihevaluated, hevaluated, List.append_assoc, ← List.filter_append, List.singleton_append]

/-- A part of a run in which no poll is answered by yes goes through if failures do not end it. -/
theorem exists_evaluateAll_of_survives (progress : Progress) (hsurvives : run.SurvivesFailures)
    (hsub : ∀ evaluator ∈ evaluators, evaluator ∈ run.evaluators)
    (hproceeds : run.Proceeds progress.polls evaluators) :
    ∃ reached, run.evaluateAll progress evaluators = (reached, none) := by
  have hcontributes : ∀ evaluator ∈ evaluators,
      ∃ added, run.contribution evaluator = .ok added := by
    intro evaluator he
    cases hfailure : run.failure? evaluator with
    | none => exact ⟨_, contribution_of_failure_eq_none hfailure⟩
    | some failure =>
      obtain ⟨report, hreport⟩ := hsurvives evaluator (hsub evaluator he) failure hfailure
      exact ⟨report, (contribution_of_failure_eq_some hfailure).trans hreport⟩
  obtain ⟨reached, hreached, -⟩ := evaluateAll_eq_none_iff.mpr ⟨hproceeds, hcontributes, rfl⟩
  exact ⟨reached, hreached⟩

/-! ## Where a caller stops the run -/

/-- Each poll of a run is about one evaluator, before which as many are run as there are polls
before this one. -/
theorem exists_append_of_lt_evaluations (h : n < run.evaluations evaluators) :
    ∃ before evaluator rest, evaluators = before ++ evaluator :: rest ∧
      run.isRun evaluator = true ∧ run.evaluations before = n := by
  induction evaluators generalizing n with
  | nil => simp [evaluations] at h
  | cons first evaluators ih =>
    cases hrun : run.isRun first with
    | false =>
      rw [evaluations_cons_of_not_isRun hrun] at h
      obtain ⟨before, evaluator, rest, rfl, hevaluator, hbefore⟩ := ih h
      exact ⟨first :: before, evaluator, rest, rfl, hevaluator,
        by rw [evaluations_cons_of_not_isRun hrun, hbefore]⟩
    | true =>
      rw [evaluations_cons_of_isRun hrun] at h
      cases n with
      | zero => exact ⟨[], first, evaluators, rfl, hrun, rfl⟩
      | succ n =>
        obtain ⟨before, evaluator, rest, rfl, hevaluator, hbefore⟩ := ih (Nat.lt_of_succ_lt_succ h)
        exact ⟨first :: before, evaluator, rest, rfl, hevaluator,
          by rw [evaluations_cons_of_isRun hrun, hbefore]⟩

theorem CancelsFirstAt.isSome (h : run.CancelsFirstAt n) : run.cancelled?.isSome = true := by
  obtain ⟨cancelled, hcancelled, -⟩ := h
  rw [hcancelled, Option.isSome_some]

theorem CancelsFirstAt.isCancelled_eq_false (h : run.CancelsFirstAt n) {poll : Nat}
    (hpoll : poll < n) : run.isCancelled poll = false := by
  obtain ⟨cancelled, hcancelled, hbefore, -⟩ := h
  rw [isCancelled, hcancelled]
  exact hbefore poll hpoll

theorem CancelsFirstAt.isCancelled_self (h : run.CancelsFirstAt n) : run.isCancelled n = true := by
  obtain ⟨cancelled, hcancelled, -, hself⟩ := h
  rw [isCancelled, hcancelled]
  exact hself

/-- A part of the run in which no more evaluators are run than polls are answered by no goes
through. -/
theorem CancelsFirstAt.exists_evaluateAll (h : run.CancelsFirstAt n)
    (hsurvives : run.SurvivesFailures) (hevaluators : run.evaluators = before ++ rest)
    (hle : run.evaluations before ≤ n) :
    ∃ reached, run.evaluateAll { log := run.openingLog } before = (reached, none) ∧
      reached.polls = run.evaluations before ∧ reached.evaluated = before.filter run.isRun := by
  have hproceeds : run.Proceeds 0 before := fun k hk =>
    h.isCancelled_eq_false (by omega)
  have hsub : ∀ evaluator ∈ before, evaluator ∈ run.evaluators := fun evaluator he =>
    hevaluators ▸ List.mem_append_left rest he
  obtain ⟨reached, hreached⟩ :=
    exists_evaluateAll_of_survives { log := run.openingLog } hsurvives hsub hproceeds
  obtain ⟨hpolls, hevaluated, -⟩ := evaluateAll_uncancelled hreached 0
  rw [if_pos h.isSome] at hpolls
  exact ⟨reached, hreached, hpolls.trans (Nat.zero_add _), hevaluated⟩

/-- A caller who says yes before all evaluators have been run gets no result, and the evaluators
have been called about which the polls before were. -/
theorem CancelsFirstAt.outcome_of_lt (h : run.CancelsFirstAt n) (hsurvives : run.SurvivesFailures)
    (hlt : n < run.evaluations run.evaluators) :
    analyze run = .error (.cancelled run.unit.path) ∧ run.outcome.polls = n + 1 ∧
      run.outcome.evaluated = (run.evaluators.filter run.isRun).take n := by
  obtain ⟨before, evaluator, rest, hevaluators, hrun, rfl⟩ := exists_append_of_lt_evaluations hlt
  obtain ⟨reached, hreached, hpolls, hevaluated⟩ :=
    h.exists_evaluateAll hsurvives hevaluators (Nat.le_refl _)
  have hcancel : run.isCancelled reached.polls = true := hpolls ▸ h.isCancelled_self
  obtain ⟨log, hstep⟩ := step_of_cancelled hrun hcancel
  have hall : run.evaluateAll { log := run.openingLog } run.evaluators =
      ({ reached with polls := run.pollsAfter reached.polls, log },
        some (.cancelled run.unit.path)) := by
    rw [hevaluators, evaluateAll_append, hreached]
    simp only [evaluateAll, hstep]
  have houtcome : run.outcome = ⟨.error (.cancelled run.unit.path), run.pollsAfter reached.polls,
      reached.evaluated, log⟩ := by
    rw [outcome, hall]
  refine ⟨by rw [analyze, houtcome], ?_, ?_⟩
  · rw [houtcome, hpolls, pollsAfter, if_pos h.isSome]
  · rw [houtcome, hevaluated, hevaluators, List.filter_append, evaluations, List.take_left]

/-- A caller who would say yes after all evaluators have been run is asked and has no effect. -/
theorem CancelsFirstAt.outcome_of_le (h : run.CancelsFirstAt n) (hsurvives : run.SurvivesFailures)
    (hle : run.evaluations run.evaluators ≤ n) :
    (∃ result, analyze run = .ok result ∧ analyze run.uncancelled = .ok result) ∧
      run.outcome = { run.uncancelled.outcome with polls := run.evaluations run.evaluators } ∧
      run.outcome.evaluated = run.evaluators.filter run.isRun := by
  have hevaluators : run.evaluators = run.evaluators ++ [] := (List.append_nil _).symm
  obtain ⟨reached, hreached, hpolls, hevaluated⟩ :=
    h.exists_evaluateAll hsurvives hevaluators hle
  have huncancelled : run.uncancelled.evaluateAll { log := run.uncancelled.openingLog }
      run.uncancelled.evaluators = ({ reached with polls := 0 }, none) :=
    (evaluateAll_uncancelled hreached 0).2.2
  refine ⟨⟨_, analyze_eq_ok.mpr ⟨_, hreached, rfl⟩, analyze_eq_ok.mpr ⟨_, huncancelled, rfl⟩⟩,
    ?_, ?_⟩
  · rw [outcome, outcome, hreached, huncancelled, ← hpolls]
    rfl
  · rw [outcome, hreached]
    exact hevaluated

end Run

/-- **A run is cancelled exactly where its caller says so.**  Say the caller first says yes when it
has been asked `n` times before, and the failures of the evaluators can be reported.

* If more than `n` evaluators are run, there is no result, the caller has been asked `n + 1` times,
  and `n` evaluators have been called: the first of those that are run, each of them once.
* Otherwise the caller has been asked once for each evaluator that is run, each of these has been
  called once, and the outcome is otherwise that of the run without a caller. -/
theorem cancels_exactly {run : Run} {n : Nat} (hcancels : run.CancelsFirstAt n)
    (hsurvives : run.SurvivesFailures) :
    (n < run.evaluations run.evaluators →
      analyze run = .error (.cancelled run.unit.path) ∧ run.outcome.polls = n + 1 ∧
        run.outcome.evaluated.length = n ∧
        run.outcome.evaluated = (run.evaluators.filter run.isRun).take n) ∧
    (run.evaluations run.evaluators ≤ n →
      (∃ result, analyze run = .ok result ∧ analyze run.uncancelled = .ok result) ∧
        run.outcome.polls = run.evaluations run.evaluators ∧
        run.outcome.evaluated.length = run.evaluations run.evaluators ∧
        run.outcome.evaluated = run.evaluators.filter run.isRun ∧
        run.outcome = { run.uncancelled.outcome with
          polls := run.evaluations run.evaluators }) := by
  constructor
  · intro hlt
    obtain ⟨hresult, hpolls, hevaluated⟩ := hcancels.outcome_of_lt hsurvives hlt
    refine ⟨hresult, hpolls, ?_, hevaluated⟩
    rw [hevaluated, List.length_take]
    exact Nat.min_eq_left (Nat.le_of_lt hlt)
  · intro hle
    obtain ⟨hresult, houtcome, hevaluated⟩ := hcancels.outcome_of_le hsurvives hle
    exact ⟨hresult, by rw [houtcome], by rw [hevaluated, Run.evaluations], hevaluated, houtcome⟩

/-- A run of four evaluators, of which the first is not run and the third fails, with a caller who
says yes from a given poll on. -/
def impatientRun (poll : Nat) : Run where
  unit := rivalRun.unit
  exclude := [internalRuleId]
  cancelled? := some (poll ≤ ·)
  evaluators := [
    .failing .internal "idle",
    .ofRemarks .naming fun _ => [⟨"NAM001", plainText.spanOf 8 9, "named", none, none⟩],
    .failing .imports "stuck",
    .ofRemarks .documentation fun _ => [⟨"DOC001", plainText.spanOf 0 9, "silent", none, none⟩]]

theorem cancels_exactly_impatientRun :
    (analyze (impatientRun 2) = .error (.cancelled "a.go") ∧ (impatientRun 2).outcome.polls = 3 ∧
      (impatientRun 2).outcome.evaluated.map (·.category) = [.naming, .imports]) ∧
    ∃ result, analyze (impatientRun 3) = .ok result ∧
      analyze (impatientRun 3).uncancelled = .ok result ∧ (impatientRun 3).outcome.polls = 3 ∧
      (impatientRun 3).outcome.evaluated.length = 3 := by
  have hcancels (poll : Nat) : (impatientRun poll).CancelsFirstAt poll :=
    ⟨_, rfl, fun earlier hearlier => by simpa using hearlier, by simp⟩
  have hsurvives (poll : Nat) : (impatientRun poll).SurvivesFailures := by
    intro evaluator _ failure hfailure
    obtain ⟨rule, hrule⟩ : ∃ rule, (impatientRun poll).registry.get? internalRuleId = some rule :=
      ⟨_, rfl⟩
    have hspan : rivalRun.unit.containsSpan rivalRun.unit.packageSpan = true := by decide +kernel
    obtain ⟨added, hadded⟩ :=
      @Run.exists_contribution (impatientRun poll) rule hspan hrule evaluator
    exact ⟨added, (Run.contribution_of_failure_eq_some hfailure) ▸ hadded⟩
  have hmore : 2 < (impatientRun 2).evaluations (impatientRun 2).evaluators := by decide +kernel
  have hall : (impatientRun 3).evaluations (impatientRun 3).evaluators = 3 := by decide +kernel
  have hfirst : (((impatientRun 2).evaluators.filter (impatientRun 2).isRun).take 2).map
      (·.category) = [.naming, .imports] := by decide +kernel
  obtain ⟨hcut, -⟩ := cancels_exactly (hcancels 2) (hsurvives 2)
  obtain ⟨-, hwhole⟩ := cancels_exactly (hcancels 3) (hsurvives 3)
  obtain ⟨hnone, hpolls, -, hevaluated⟩ := hcut hmore
  obtain ⟨⟨result, hresult, huncancelled⟩, hpolls', hlength, -⟩ :=
    hwhole (Nat.le_of_eq hall)
  exact ⟨⟨hnone, hpolls, hevaluated ▸ hfirst⟩, result, hresult, huncancelled, hpolls'.trans hall,
    hlength.trans hall⟩

end GoConventions
