import GoConventions.Proofs.Analysis.Patches
import GoConventions.Proofs.Analysis.Reports

/-!
# Failing evaluators are isolated

An evaluator that fails leaves its report and nothing else.  Where the internal rule is in the
internal category, the findings of a run fall apart into two lists that do not touch each other: the
reports of its failures, and what the other evaluators state.

* No duplicate is found across the two lists, because duplicates are not looked for among internal
  findings.
* Sorting and choosing commute, so each list is sorted as if it were alone.
* A report asks for nothing, so the patches of the other findings are chosen as if the reports were
  not there.

What is left for the two to share is the numbering.  So a run without the evaluators that fail has
the same result apart from the reports and the numbers (`isolates_failures`).

## Main definitions

* `Run.withoutFailing`: the run without the evaluators that fail.

## Main results

* `Run.filter_isInternal_gathered`, `Run.filter_not_isInternal_gathered`: the two lists.
* `isolates_failures`: a failing evaluator adds its report and changes nothing else.
-/

namespace GoConventions

/-! ## Reports and statements -/

namespace Run

variable {run : Run} {rule : Rule}

/-- The run without the evaluators that fail in it. -/
def withoutFailing (run : Run) : Run :=
  { run with evaluators := run.evaluators.filter fun evaluator => (run.failure? evaluator).isNone }

section Stated

variable (hspan : run.unit.containsSpan run.unit.packageSpan = true)
  (hrule : run.registry.get? internalRuleId = some rule) (hinternal : rule.category = .internal)
  (hstated : ∀ evaluator ∈ run.evaluators,
    evaluator.category ≠ .internal ∧ run.StatesRemarks evaluator)

include hspan hrule hinternal hstated

/-- Of what an evaluator adds, the internal findings are the report of its failure. -/
theorem filter_isInternal_added {evaluator : Evaluator} (he : evaluator ∈ run.evaluators) :
    ((run.added evaluator).filter fun f => f.isInternal) =
      ((run.failure? evaluator).map (run.failureReport rule evaluator.category)).toList := by
  obtain ⟨hcategory, hremarks⟩ := hstated evaluator he
  cases hfailure : run.failure? evaluator with
  | some failure =>
    rw [added_of_failure hspan hrule hfailure]
    exact List.filter_eq_self.mpr fun f hf => by
      rw [List.mem_singleton.mp hf, isInternal_failureReport.mpr hinternal]
  | none =>
    exact List.filter_eq_nil_iff.mpr fun f hf => by
      simp [(stated_of_mem_added hremarks hfailure hf).isInternal_eq_false hcategory]

/-- The others are all that it adds, unless it fails. -/
theorem filter_not_isInternal_added {evaluator : Evaluator} (he : evaluator ∈ run.evaluators) :
    ((run.added evaluator).filter fun f => !f.isInternal) =
      if (run.failure? evaluator).isNone then run.added evaluator else [] := by
  obtain ⟨hcategory, hremarks⟩ := hstated evaluator he
  cases hfailure : run.failure? evaluator with
  | some failure =>
    rw [added_of_failure hspan hrule hfailure]
    exact List.filter_eq_nil_iff.mpr fun f hf => by
      simp [List.mem_singleton.mp hf, isInternal_failureReport.mpr hinternal]
  | none =>
    exact List.filter_eq_self.mpr fun f hf => by
      simp [(stated_of_mem_added hremarks hfailure hf).isInternal_eq_false hcategory]

/-- **The internal findings that a run gathers are its reports**, in the order of the evaluators. -/
theorem filter_isInternal_gathered :
    (run.gathered.filter fun f => f.isInternal) = run.reports rule := by
  rw [gathered, List.filter_flatMap, reports, List.filterMap_eq_flatMap_toList]
  exact List.flatMap_congr fun evaluator he =>
    filter_isInternal_added hspan hrule hinternal hstated he

/-- **The others are what the run gathers without the evaluators that fail.** -/
theorem filter_not_isInternal_gathered :
    (run.gathered.filter fun f => !f.isInternal) = run.withoutFailing.gathered := by
  -- To leave an evaluator out is to let it add nothing.
  have hchoose : ∀ evaluators : List Evaluator,
      (evaluators.filter fun evaluator => (run.failure? evaluator).isNone).flatMap run.added =
        evaluators.flatMap fun evaluator =>
          if (run.failure? evaluator).isNone then run.added evaluator else [] := by
    intro evaluators
    induction evaluators with
    | nil => rfl
    | cons evaluator evaluators ih =>
      rw [List.filter_cons, List.flatMap_cons, ← ih]
      split <;> rfl
  rw [gathered, List.filter_flatMap]
  exact (List.flatMap_congr fun evaluator he =>
    filter_not_isInternal_added hspan hrule hinternal hstated he).trans (hchoose _).symm

/-- A finding gathered is internal exactly when it stands under the internal rule. -/
theorem isInternal_eq_of_mem_gathered {f : Finding} (hf : f ∈ run.gathered) :
    f.isInternal = (f.ruleId == internalRuleId) := by
  obtain ⟨evaluator, he, hadded⟩ := List.mem_flatMap.mp hf
  obtain ⟨hcategory, hremarks⟩ := hstated evaluator he
  cases hfailure : run.failure? evaluator with
  | some failure =>
    rw [added_of_failure hspan hrule hfailure] at hadded
    obtain rfl := List.mem_singleton.mp hadded
    rw [isInternal_failureReport.mpr hinternal, eq_comm, beq_iff_eq]
    exact run.registry.id_of_get? hrule
  | none =>
    -- A remark is not internal, and its rule is of a category that is checked.
    have hf := stated_of_mem_added hremarks hfailure hadded
    rw [hf.isInternal_eq_false hcategory, eq_comm, beq_eq_false_iff_ne]
    intro hid
    exact hcategory (hf.category_eq hid hrule ▸ hinternal)

/-- In order, the findings under the internal rule are the reports. -/
theorem filter_internalRule_ordered :
    (run.gathered.ordered.filter fun f => f.ruleId == internalRuleId) = run.reports rule := by
  calc (run.gathered.ordered.filter fun f => f.ruleId == internalRuleId)
      = run.gathered.ordered.filter fun f => f.isInternal :=
        List.filter_congr fun f hf => (isInternal_eq_of_mem_gathered hspan hrule hinternal hstated
          (Findings.mem_of_mem_ordered hf)).symm
    _ = sortBy Finding.order (run.gathered.filter fun f => f.isInternal) :=
        Findings.filter_isInternal_ordered
    _ = run.reports rule := by
        rw [filter_isInternal_gathered hspan hrule hinternal hstated, sortBy_order_reports]

/-- The others are those of the run without the evaluators that fail, in the same order. -/
theorem filter_otherRules_ordered :
    (run.gathered.ordered.filter fun f => f.ruleId != internalRuleId) =
      run.withoutFailing.gathered.ordered := by
  calc (run.gathered.ordered.filter fun f => f.ruleId != internalRuleId)
      = run.gathered.ordered.filter fun f => !f.isInternal :=
        List.filter_congr fun f hf => by
          rw [isInternal_eq_of_mem_gathered hspan hrule hinternal hstated
            (Findings.mem_of_mem_ordered hf)]
          rfl
    _ = Findings.ordered (run.gathered.filter fun f => !f.isInternal) :=
        Findings.ordered_filter_not_isInternal.symm
    _ = run.withoutFailing.gathered.ordered := by
        rw [filter_not_isInternal_gathered hspan hrule hinternal hstated]

end Stated

end Run

/-- **A failing evaluator is isolated.**  Where the internal rule is internal and the package clause
lies in the file, a run of evaluators that state remarks has a result.  Under the internal rule it
shows one report for every evaluator that fails, in the order in which they run, and apart from
these reports and from the numbers it is the result of the run without the evaluators that fail. -/
theorem isolates_failures {run : Run} {rule : Rule}
    (hspan : run.unit.containsSpan run.unit.packageSpan = true)
    (hrule : run.registry.get? internalRuleId = some rule) (hinternal : rule.category = .internal)
    (hstated : ∀ evaluator ∈ run.evaluators,
      evaluator.category ≠ .internal ∧ run.StatesRemarks evaluator)
    (hproceeds : ∀ poll, run.isCancelled poll = false) :
    ∃ result healthy, analyze run = .ok result ∧ analyze run.withoutFailing = .ok healthy ∧
      (result.byRule internalRuleId).map Finding.unnumbered = run.reports rule ∧
      (result.findings.filter fun f => f.ruleId != internalRuleId).map Finding.unnumbered =
        healthy.findings.map Finding.unnumbered := by
  have hanalyze := Run.analyze_eq_ok_gathered hspan hrule hproceeds
  have hhealthy : analyze run.withoutFailing =
      .ok (run.withoutFailing.gathered.result run.unit) :=
    Run.analyze_eq_ok_gathered hspan hrule hproceeds
  have hreports := Run.filter_internalRule_ordered hspan hrule hinternal hstated
  have hothers := Run.filter_otherRules_ordered hspan hrule hinternal hstated
  -- Whatever stands under the internal rule is a report, and asks for nothing.
  have hplain : ∀ f ∈ run.gathered.ordered, (f.ruleId == internalRuleId) = true →
      f.fix = none ∧ f.patch = none := by
    intro f hf hid
    have hmem : f ∈ run.reports rule := hreports ▸ List.mem_filter.mpr ⟨hf, hid⟩
    exact (Run.plain_of_mem_reports hmem).1
  refine ⟨_, _, hanalyze, hhealthy, ?_, ?_⟩
  · rw [FileResult.byRule, Findings.map_unnumbered_filter_result (· == internalRuleId),
      filter_synthesize_of_fix_none (· == internalRuleId) run.unit hplain, hreports]
    refine (List.map_congr_left fun f hf => ?_).trans (List.map_id _)
    exact Finding.unnumbered_eq_self (Run.plain_of_mem_reports hf).2
  · have hnone : ∀ f ∈ run.gathered.ordered, (f.ruleId != internalRuleId) = false →
        (withPatch run.unit f).patch = none := by
      intro f hf hid
      obtain ⟨hfix, hpatch⟩ := hplain f hf (by simpa using hid)
      rw [withPatch_of_fix_none _ hfix, hpatch]
    rw [Findings.map_unnumbered_filter_result (· != internalRuleId),
      synthesize_filter (· != internalRuleId) run.unit hnone, hothers]
    exact (Findings.map_unnumbered_numbered _).symm

/-! ## Failures among findings -/

/-- A run of four evaluators, of which the second fails and the third reports a span outside the
file. -/
def mixedRun : Run where
  unit := rivalRun.unit
  evaluators := [
    .ofRemarks .naming fun _ => [⟨"NAM001", plainText.spanOf 8 9, "named", none, none⟩],
    .failing .imports "stuck",
    .ofRemarks .formatting fun _ => [⟨"FMT001", plainText.spanOf 0 99, "long", none, none⟩],
    .ofRemarks .documentation fun _ => [⟨"DOC001", plainText.spanOf 0 9, "silent", none, none⟩]]

theorem isolates_failures_mixedRun : ∃ result healthy,
    analyze mixedRun = .ok result ∧ analyze mixedRun.withoutFailing = .ok healthy ∧
      (result.byRule internalRuleId).map (·.message) =
        ["imports evaluator failed: RuntimeError: stuck",
          "formatting evaluator failed: ValueError: FMT001 reported span 0-99 outside a.go"] ∧
      (result.findings.filter fun f => f.ruleId != internalRuleId).map Finding.unnumbered =
        healthy.findings.map Finding.unnumbered := by
  obtain ⟨rule, hrule, hinternal⟩ : ∃ rule, mixedRun.registry.get? internalRuleId = some rule ∧
      rule.category = .internal := ⟨_, rfl, rfl⟩
  have hstated : ∀ evaluator ∈ mixedRun.evaluators,
      evaluator.category ≠ .internal ∧ mixedRun.StatesRemarks evaluator := by
    intro evaluator he
    simp only [mixedRun, List.mem_cons, List.not_mem_nil, or_false] at he
    rcases he with rfl | rfl | rfl | rfl
    · exact ⟨by decide, Run.statesRemarks_ofRemarks _⟩
    · exact ⟨by decide, Run.statesRemarks_failing _⟩
    · exact ⟨by decide, Run.statesRemarks_ofRemarks _⟩
    · exact ⟨by decide, Run.statesRemarks_ofRemarks _⟩
  obtain ⟨result, healthy, hresult, hhealthy, hreports, hothers⟩ :=
    isolates_failures (by decide +kernel) hrule hinternal hstated fun _ => rfl
  refine ⟨result, healthy, hresult, hhealthy, ?_, hothers⟩
  have hmessages : (result.byRule internalRuleId).map (·.message) =
      ((result.byRule internalRuleId).map Finding.unnumbered).map (·.message) := by
    rw [List.map_map]
    rfl
  rw [hmessages, hreports, Run.map_message_reports]
  decide +kernel

end GoConventions
