import GoConventions.Proofs.Analysis.Contributions
import GoConventions.Proofs.Finding.Listing
import GoConventions.Proofs.Result
import GoConventions.Proofs.Rule.Catalog

/-!
# Remarks and reports

The findings of a run come from two sources.  An evaluator that states remarks answers findings of
rules of its own category, which carry neither a patch nor a number.  An evaluator that fails adds
one finding in its stead, the report of its failure, which stands under the internal rule at the
package clause and asks for nothing.

So where a finding comes from can mostly be seen from its rule: rules have one category, hence
evaluators of two categories never report under one rule.  The one rule under which findings of two
evaluators may meet is the internal rule, and only if the catalog puts it into a category that an
evaluator checks.

## Main definitions

* `Run.StatesRemarks`: the findings of an evaluator stand for remarks.
* `Run.failureReport`, `Run.reports`: the report of a failure, and the reports of a run.
* `Finding.Stated`: what is known of a finding that stands for a remark.

## Main results

* `Run.stated_of_mem_added`: an evaluator that does not fail adds findings of its category.
* `Run.contribution_of_failure`: an evaluator that fails adds the report.
-/

namespace GoConventions

/-! ## Remarks -/

/-- What is known of a finding that stands for a remark on a rule of a category. -/
structure Finding.Stated (registry : Registry) (category : Category) (f : Finding) : Prop where
  rule : ∃ rule, registry.get? f.ruleId = some rule ∧ rule.category = category
  label : f.category = category.label
  patch : f.patch = none
  ordinal : f.ordinal = 0

namespace Finding.Stated

variable {registry : Registry} {c d : Category} {f g : Finding}

theorem isInternal_eq_false (h : f.Stated registry c) (hc : c ≠ .internal) :
    f.isInternal = false := by
  have hlabel : c.label ≠ Category.internal.label := fun heq => hc (Category.label_inj.mp heq)
  rw [isInternal, h.label]
  simpa using hlabel

/-- A rule has one category. -/
theorem category_eq {id : String} {rule : Rule} (h : f.Stated registry c) (hid : f.ruleId = id)
    (hrule : registry.get? id = some rule) : rule.category = c := by
  obtain ⟨stated, hstated, rfl⟩ := h.rule
  subst hid
  rw [Option.some.inj (hrule.symm.trans hstated)]

/-- Findings of one rule are stated in one category. -/
theorem category_eq_of_ruleId (hf : f.Stated registry c) (hg : g.Stated registry d)
    (h : f.ruleId = g.ruleId) : c = d := by
  obtain ⟨rule, hrule, rfl⟩ := hf.rule
  exact hg.category_eq h.symm hrule

end Finding.Stated

/-- An evaluator that fails in its own words, whatever it sees. -/
def Evaluator.failing (category : Category) (text : String) : Evaluator where
  category
  evaluate _ := .error (.raised text)

namespace Run

variable {run : Run} {evaluator : Evaluator} {category : Category}

/-- The findings that an evaluator answers in a run stand for remarks. -/
def StatesRemarks (run : Run) (evaluator : Evaluator) : Prop :=
  ∀ batch, evaluator.evaluate (run.context evaluator.category) = .ok batch →
    ∀ f ∈ batch, ∃ remark, (run.context evaluator.category).finding remark = .ok f

/-- The evaluators that are made of their remarks state remarks. -/
theorem statesRemarks_ofRemarks (remarks : Context → List Remark) :
    run.StatesRemarks (.ofRemarks category remarks) := by
  intro batch hbatch f hf
  obtain ⟨remark, -, hremark⟩ := of_mem_mapM hbatch hf
  exact ⟨remark, hremark⟩

/-- An evaluator that never answers states nothing but remarks. -/
theorem statesRemarks_failing (text : String) :
    run.StatesRemarks (.failing category text) :=
  fun _ hbatch => nomatch hbatch

theorem stated_of_finding {remark : Remark} {f : Finding}
    (h : (run.context category).finding remark = .ok f) : f.Stated run.registry category := by
  unfold Context.finding at h
  cases hrule : (run.context category).rules.get? remark.ruleId with
  | none => simp [hrule] at h
  | some rule =>
    rw [hrule] at h
    obtain rfl := Except.ok.inj h
    -- The rules that an evaluator sees are those of its category, from the registry.
    obtain ⟨henabled, hcategory⟩ := List.mem_filter.mp (RuleSet.mem_of_get? _ hrule)
    have hmem : rule ∈ run.registry.rules := (List.mem_filter.mp henabled).1
    have hcategory : rule.category = category := by simpa using hcategory
    exact {
      rule := ⟨rule, RuleSet.get?_eq_some_iff.mpr ⟨hmem, rfl⟩, hcategory⟩
      label := congrArg Category.label hcategory
      patch := rfl
      ordinal := rfl }

/-! ## Evaluators that do not fail -/

theorem failure?_eq_none_iff :
    run.failure? evaluator = none ↔ ∃ batch, run.attempt evaluator = .ok batch := by
  unfold failure?
  cases run.attempt evaluator <;> simp

/-- An evaluator that does not fail adds its batch. -/
theorem contribution_of_failure_eq_none (h : run.failure? evaluator = none) :
    run.contribution evaluator = .ok (run.added evaluator) := by
  obtain ⟨batch, hbatch⟩ := failure?_eq_none_iff.mp h
  simp only [added, contribution, hbatch]

/-- A run in which nothing fails and that nobody cancels has a result. -/
theorem analyze_eq_ok_of_failure_eq_none (hproceeds : ∀ poll, run.isCancelled poll = false)
    (h : ∀ evaluator ∈ run.evaluators, run.failure? evaluator = none) :
    analyze run = .ok (run.gathered.result run.unit) :=
  analyze_eq_ok_iff.mpr ⟨fun _ _ => hproceeds _,
    fun evaluator he => ⟨_, contribution_of_failure_eq_none (h evaluator he)⟩, rfl⟩

theorem mem_batch_of_mem_added {f : Finding} (h : run.failure? evaluator = none)
    (hf : f ∈ run.added evaluator) :
    ∃ batch, evaluator.evaluate (run.context evaluator.category) = .ok batch ∧ f ∈ batch := by
  obtain ⟨batch, hattempt⟩ := failure?_eq_none_iff.mp h
  simp only [added, contribution, hattempt] at hf
  by_cases hrun : run.isRun evaluator = true
  · rw [attempt, if_pos hrun] at hattempt
    exact ⟨batch, (answer_eq_ok.mp hattempt).1, hf⟩
  · -- An evaluator that is not run adds nothing.
    rw [attempt, if_neg hrun] at hattempt
    obtain rfl := Except.ok.inj hattempt
    cases hf

/-- **An evaluator that does not fail adds findings of its category.** -/
theorem stated_of_mem_added {f : Finding} (hremarks : run.StatesRemarks evaluator)
    (h : run.failure? evaluator = none) (hf : f ∈ run.added evaluator) :
    f.Stated run.registry evaluator.category := by
  obtain ⟨batch, hbatch, hmem⟩ := mem_batch_of_mem_added h hf
  obtain ⟨remark, hremark⟩ := hremarks batch hbatch f hmem
  exact stated_of_finding hremark

/-! ## Evaluators that fail -/

/-- The report of a failure, under a rule. -/
def failureReport (run : Run) (rule : Rule) (category : Category) (failure : EvaluatorFailure) :
    Finding where
  ruleId := rule.id
  category := rule.category.label
  severity := rule.severity
  path := run.unit.path
  span := run.unit.packageSpan
  message := failureMessage category failure
  guidance := rule.guidance

variable {rule : Rule} {failure : EvaluatorFailure}

theorem isInternal_failureReport :
    (run.failureReport rule category failure).isInternal = true ↔ rule.category = .internal := by
  rw [Finding.isInternal, beq_iff_eq]
  exact Category.label_inj

theorem failure?_failing {text : String} (h : run.isRun (.failing category text) = true) :
    run.failure? (.failing category text) = some (.raised text) := by
  rw [failure?, attempt, if_pos h]
  rfl

/-- A report stands under the internal rule at the package clause. -/
theorem key_failureReport (hrule : run.registry.get? internalRuleId = some rule) :
    (run.failureReport rule category failure).key =
      (internalRuleId, run.unit.packageSpan.start.offset, run.unit.packageSpan.stop.offset) := by
  rw [← run.registry.id_of_get? hrule]
  rfl

/-- Where a remark stands under the key of a report, the report is not internal. -/
theorem category_ne_internal_of_stated {c : Category} {f : Finding}
    (hf : f.Stated run.registry c) (hc : c ≠ .internal)
    (hrule : run.registry.get? internalRuleId = some rule)
    (hkey : f.key = (run.failureReport rule category failure).key) : rule.category ≠ .internal := by
  rw [key_failureReport hrule] at hkey
  have hid : f.ruleId = internalRuleId := congrArg Prod.fst hkey
  rw [hf.category_eq hid hrule]
  exact hc

/-- The reports of a run compare equal. -/
theorem order_failureReport {category' : Category} {failure' : EvaluatorFailure} :
    (run.failureReport rule category failure).order
      (run.failureReport rule category' failure') = .eq :=
  Finding.order_eq_iff.mpr ⟨rfl, rfl⟩

theorem contribution_of_failure_eq_some (h : run.failure? evaluator = some failure) :
    run.contribution evaluator = run.report evaluator.category failure := by
  unfold failure? at h
  cases hattempt : run.attempt evaluator with
  | ok batch => simp [hattempt] at h
  | error reason =>
    rw [hattempt] at h
    obtain rfl := Option.some.inj h
    rw [contribution, hattempt]

/-- **An evaluator that fails adds the report of its failure**, where the catalog has the internal
rule and the package clause lies in the file; otherwise the run ends with it. -/
theorem contribution_of_failure (h : run.failure? evaluator = some failure) {added : Findings} :
    run.contribution evaluator = .ok added ↔
      run.unit.containsSpan run.unit.packageSpan = true ∧
        ∃ rule, run.registry.get? internalRuleId = some rule ∧
          added = [run.failureReport rule evaluator.category failure] := by
  rw [contribution_of_failure_eq_some h, report_eq_ok]
  constructor
  · rintro ⟨report, hreport, hin, rfl⟩
    obtain ⟨rule, hrule, rfl⟩ := internalFinding_eq_ok.mp hreport
    exact ⟨hin, rule, hrule, rfl⟩
  · rintro ⟨hspan, rule, hrule, rfl⟩
    exact ⟨_, internalFinding_eq_ok.mpr ⟨rule, hrule, rfl⟩, hspan, rfl⟩

theorem added_of_failure (hspan : run.unit.containsSpan run.unit.packageSpan = true)
    (hrule : run.registry.get? internalRuleId = some rule)
    (h : run.failure? evaluator = some failure) :
    run.added evaluator = [run.failureReport rule evaluator.category failure] :=
  added_of_contribution ((contribution_of_failure h).mpr ⟨hspan, rule, hrule, rfl⟩)

/-- A report that is not internal is what its evaluator finds under its key. -/
theorem first?_added_of_failure (hspan : run.unit.containsSpan run.unit.packageSpan = true)
    (hrule : run.registry.get? internalRuleId = some rule) (hnot : rule.category ≠ .internal)
    (h : run.failure? evaluator = some failure) :
    Findings.first? (run.added evaluator)
        (run.failureReport rule evaluator.category failure).key =
      some (run.failureReport rule evaluator.category failure) := by
  rw [added_of_failure hspan hrule h]
  apply Findings.first?_singleton
  rw [← Bool.not_eq_true, isInternal_failureReport]
  exact hnot

/-- Where a finding that an evaluator adds comes from. -/
theorem of_mem_added {f : Finding} (hremarks : run.StatesRemarks evaluator)
    (hf : f ∈ run.added evaluator) :
    run.failure? evaluator = none ∧ f.Stated run.registry evaluator.category ∨
      ∃ failure rule, run.failure? evaluator = some failure ∧
        run.registry.get? internalRuleId = some rule ∧
        f = run.failureReport rule evaluator.category failure := by
  cases hfailure : run.failure? evaluator with
  | none => exact Or.inl ⟨rfl, stated_of_mem_added hremarks hfailure hf⟩
  | some failure =>
    right
    cases hcontribution : run.contribution evaluator with
    | error fault =>
      -- The run ends with the evaluator, which then adds nothing.
      simp [added, hcontribution] at hf
    | ok added =>
      obtain ⟨-, rule, hrule, rfl⟩ := (contribution_of_failure hfailure).mp hcontribution
      rw [added_of_contribution hcontribution] at hf
      exact ⟨failure, rule, rfl, hrule, List.mem_singleton.mp hf⟩

/-- An evaluator that fails has its contribution too, so no failure ends the run. -/
theorem exists_contribution (hspan : run.unit.containsSpan run.unit.packageSpan = true)
    (hrule : run.registry.get? internalRuleId = some rule) (evaluator : Evaluator) :
    ∃ added, run.contribution evaluator = .ok added := by
  cases hfailure : run.failure? evaluator with
  | none => exact ⟨_, contribution_of_failure_eq_none hfailure⟩
  | some failure => exact ⟨_, (contribution_of_failure hfailure).mpr ⟨hspan, rule, hrule, rfl⟩⟩

/-- A run that nobody cancels has a result, made from what it gathers. -/
theorem analyze_eq_ok_gathered (hspan : run.unit.containsSpan run.unit.packageSpan = true)
    (hrule : run.registry.get? internalRuleId = some rule)
    (hproceeds : ∀ poll, run.isCancelled poll = false) :
    analyze run = .ok (run.gathered.result run.unit) :=
  analyze_eq_ok_iff.mpr ⟨fun _ _ => hproceeds _,
    fun evaluator _ => exists_contribution hspan hrule evaluator, rfl⟩

/-- A result of a run with a failure tells that the failure could be reported. -/
theorem of_analyze_of_failure {result : FileResult} (h : analyze run = .ok result)
    {evaluator : Evaluator} (he : evaluator ∈ run.evaluators) {failure : EvaluatorFailure}
    (hfailure : run.failure? evaluator = some failure) :
    run.unit.containsSpan run.unit.packageSpan = true ∧
      ∃ rule, run.registry.get? internalRuleId = some rule := by
  obtain ⟨-, hcontributes, -⟩ := analyze_eq_ok_iff.mp h
  obtain ⟨added, hadded⟩ := hcontributes evaluator he
  obtain ⟨hspan, rule, hrule, -⟩ := (contribution_of_failure hfailure).mp hadded
  exact ⟨hspan, rule, hrule⟩

/-! ## The reports of a run -/

/-- The reports of the failures of a run under a rule, in the order in which the evaluators run. -/
def reports (run : Run) (rule : Rule) : List Finding :=
  run.evaluators.filterMap fun evaluator =>
    (run.failure? evaluator).map (run.failureReport rule evaluator.category)

/-- The texts of the failures of a run, in the order in which the evaluators run. -/
def failureMessages (run : Run) : List String :=
  run.evaluators.filterMap fun evaluator =>
    (run.failure? evaluator).map (failureMessage evaluator.category)

theorem map_message_reports : (run.reports rule).map (·.message) = run.failureMessages := by
  rw [reports, List.map_filterMap, failureMessages]
  congr 1
  funext evaluator
  rw [Option.map_map]
  rfl

theorem mem_reports {f : Finding} :
    f ∈ run.reports rule ↔ ∃ evaluator ∈ run.evaluators, ∃ failure,
      run.failure? evaluator = some failure ∧
        f = run.failureReport rule evaluator.category failure := by
  rw [reports, List.mem_filterMap]
  simp only [Option.map_eq_some_iff, @eq_comm _ f]

theorem isInternal_of_mem_reports (hinternal : rule.category = .internal) {f : Finding}
    (hf : f ∈ run.reports rule) : f.isInternal = true := by
  obtain ⟨_, -, _, -, rfl⟩ := mem_reports.mp hf
  exact isInternal_failureReport.mpr hinternal

/-- A report asks for nothing and has no number yet. -/
theorem plain_of_mem_reports {f : Finding} (hf : f ∈ run.reports rule) :
    (f.fix = none ∧ f.patch = none) ∧ f.ordinal = 0 := by
  obtain ⟨_, -, _, -, rfl⟩ := mem_reports.mp hf
  exact ⟨⟨rfl, rfl⟩, rfl⟩

theorem order_of_mem_reports {f g : Finding} (hf : f ∈ run.reports rule)
    (hg : g ∈ run.reports rule) : f.order g = .eq := by
  obtain ⟨_, -, _, -, rfl⟩ := mem_reports.mp hf
  obtain ⟨_, -, _, -, rfl⟩ := mem_reports.mp hg
  exact order_failureReport

/-- The reports stay in the order of the evaluators when they are sorted. -/
theorem sortBy_order_reports : sortBy Finding.order (run.reports rule) = run.reports rule :=
  sortBy_eq_self (List.pairwise_of_forall_mem_list fun _ hf _ hg => by
    rw [order_of_mem_reports hf hg]
    rfl)

end Run

end GoConventions
