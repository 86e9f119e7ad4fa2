import GoConventions.Proofs.Analysis.Reports
import GoConventions.Proofs.Tree.Positions
import Mathlib.Data.List.Flatten

/-!
# Failures are reported

The failure of an evaluator is not to end a run, but to be reported in its result.  The report is
itself a finding, so it needs a rule and a place.  The rule is looked up in the catalog of the
caller, and the place is the package clause of a tree that the caller has supplied; neither is
checked when the catalog and the tree are accepted.

* Without the internal rule, the run ends with a fault of the catalog at the first failure.
* With a package clause that ends before it starts, it ends with a finding outside the file.
* With the internal rule in another category than the internal one, the reports of two failures are
  duplicates of each other, and only the first is shown.

Otherwise every failure is reported (`forall_reportsFailures_iff`): the positions that a tree states
lie in the file, and internal findings are never dropped and stay in the order of the evaluators.

## Main definitions

* `Run.ReportsFailures`: the run has a result that reports all failures.

## Main results

* `Run.reports_sublist_ordered`: internal reports are all shown, in order.
* `forall_reportsFailures_iff`: for which documents and catalogs no failure is lost.
-/

namespace GoConventions

/-! ## The reports of a result -/

/-- The messages of a result under the internal rule. -/
def FileResult.failureMessages (result : FileResult) : List String :=
  (result.byRule internalRuleId).map (·.message)

/-- The run has a result, and there every evaluator that fails has a report of its own. -/
def Run.ReportsFailures (run : Run) : Prop :=
  ∃ result, analyze run = .ok result ∧ run.failureMessages.Sublist result.failureMessages

/-- Neither rules nor messages change between ordering and listing. -/
theorem Findings.failureMessages_result (unit : SourceUnit) (findings : Findings) :
    (findings.result unit).failureMessages =
      (findings.ordered.filter fun f => f.ruleId == internalRuleId).map (·.message) := by
  have hframes : ∀ xs : List Finding,
      ((xs.filter fun f => f.ruleId == internalRuleId).map (·.message)) =
        ((xs.map Finding.frame).filter fun f => f.ruleId == internalRuleId).map (·.message) := by
    intro xs
    rw [List.filter_map, List.map_map]
    rfl
  rw [FileResult.failureMessages, FileResult.byRule, hframes, map_frame_result, ← hframes]

namespace Run

variable {run : Run} {rule : Rule}

/-! ## Where every failure is reported -/

theorem reports_sublist_gathered (hspan : run.unit.containsSpan run.unit.packageSpan = true)
    (hrule : run.registry.get? internalRuleId = some rule) :
    (run.reports rule).Sublist run.gathered := by
  rw [reports, List.filterMap_eq_flatMap_toList, gathered]
  refine List.Sublist.flatMap_right _ fun evaluator _ => ?_
  cases hfailure : run.failure? evaluator with
  | none => exact List.nil_sublist _
  | some failure =>
    rw [added_of_failure hspan hrule hfailure]
    exact List.Sublist.refl _

/-- **Internal reports are all shown**, in the order of the evaluators. -/
theorem reports_sublist_ordered (hspan : run.unit.containsSpan run.unit.packageSpan = true)
    (hrule : run.registry.get? internalRuleId = some rule) (hinternal : rule.category = .internal) :
    (run.reports rule).Sublist run.gathered.ordered := by
  have hself : ((run.reports rule).filter fun f => f.isInternal) = run.reports rule :=
    List.filter_eq_self.mpr fun f hf => isInternal_of_mem_reports hinternal hf
  have hchosen := (reports_sublist_gathered hspan hrule).filter fun f => f.isInternal
  rw [hself] at hchosen
  -- They compare equal, so sorting keeps them in order, and it drops no internal finding.
  have hsorted := sublist_sortBy hchosen fun f hf g hg => order_of_mem_reports hf hg
  rw [← Findings.filter_isInternal_ordered] at hsorted
  exact hsorted.trans List.filter_sublist

theorem reportsFailures_of_internal
    (hspan : run.unit.containsSpan run.unit.packageSpan = true)
    (hrule : run.registry.get? internalRuleId = some rule) (hinternal : rule.category = .internal)
    (hproceeds : ∀ poll, run.isCancelled poll = false) : run.ReportsFailures := by
  refine ⟨_, analyze_eq_ok_gathered hspan hrule hproceeds, ?_⟩
  have hself : ((run.reports rule).filter fun f => f.ruleId == internalRuleId) =
      run.reports rule := by
    refine List.filter_eq_self.mpr fun f hf => ?_
    obtain ⟨_, -, _, -, rfl⟩ := mem_reports.mp hf
    exact beq_iff_eq.mpr (run.registry.id_of_get? hrule)
  have hshown := (reports_sublist_ordered hspan hrule hinternal).filter
    fun f => f.ruleId == internalRuleId
  rw [hself] at hshown
  rw [Findings.failureMessages_result, ← map_message_reports]
  exact hshown.map _

/-! ## Where a failure is fatal or lost -/

/-- Where reports are not internal, no more than one of them is shown. -/
theorem length_ordered_le_one (hreports : run.gathered ⊆ run.reports rule)
    (hinternal : rule.category ≠ .internal) : run.gathered.ordered.length ≤ 1 := by
  have hmem : ∀ f ∈ run.gathered.ordered, f ∈ run.reports rule := fun f hf =>
    hreports (Findings.mem_of_mem_ordered hf)
  have hself : (run.gathered.ordered.filter fun f => !f.isInternal) = run.gathered.ordered := by
    refine List.filter_eq_self.mpr fun f hf => ?_
    obtain ⟨_, -, _, -, rfl⟩ := mem_reports.mp (hmem f hf)
    rw [Bool.not_eq_true', ← Bool.not_eq_true, isInternal_failureReport]
    exact hinternal
  have hstrict : run.gathered.ordered.Pairwise fun f g => f.order g = .lt :=
    hself ▸ Findings.pairwise_lt_ordered
  rcases hordered : run.gathered.ordered with _ | ⟨f, _ | ⟨g, rest⟩⟩
  · exact Nat.zero_le 1
  · exact Nat.le_refl 1
  · -- Two of them would compare equal, but the order is strict.
    rw [hordered] at hstrict hmem
    have hlt := (List.pairwise_cons.mp hstrict).1 g List.mem_cons_self
    rw [order_of_mem_reports (hmem f (by simp)) (hmem g (by simp))] at hlt
    cases hlt

end Run

/-! ## Two failures -/

/-- A run of two evaluators of names that fail, with all rules of a registry enabled. -/
def failingRun (unit : SourceUnit) (registry : Registry) : Run where
  unit
  registry
  evaluators := [.failing .naming "one", .failing .naming "two"]

section FailingRun

variable {unit : SourceUnit} {catalog : Json} {registry : Registry} {rule : Rule}

/-- An accepted catalog has rules of names, so both evaluators are run. -/
theorem failure?_failingRun (hcatalog : Registry.ofJson catalog = .ok registry) (text : String) :
    (failingRun unit registry).failure? (.failing .naming text) = some (.raised text) := by
  -- Nothing is excluded, so the rules of names are those of the catalog.
  have hrules : (failingRun unit registry).rules.rules = registry.rules :=
    List.filter_eq_self.mpr fun _ _ => rfl
  have hsize : leastRules ≤ (registry.ofCategory .naming).size :=
    (Registry.size_ofCategory_of_ofJson hcatalog (by decide)).1
  have hnaming : ((failingRun unit registry).rules.ofCategory .naming).size =
      (registry.ofCategory .naming).size := by
    rw [RuleSet.size, RuleSet.size, RuleSet.ofCategory, RuleSet.ofCategory, RuleSet.rules_filter,
      RuleSet.rules_filter, hrules]
  apply Run.failure?_failing
  rw [Run.isRun, bne_iff_ne]
  show ((failingRun unit registry).rules.ofCategory .naming).size ≠ 0
  rw [hnaming]
  exact Nat.ne_of_gt (Nat.lt_of_lt_of_le (by decide) hsize)

theorem length_failureMessages_failingRun (hcatalog : Registry.ofJson catalog = .ok registry) :
    (failingRun unit registry).failureMessages.length = 2 := by
  rw [Run.failureMessages, show (failingRun unit registry).evaluators =
    [.failing .naming "one", .failing .naming "two"] from rfl]
  simp [failure?_failingRun hcatalog]

theorem gathered_failingRun_subset (hcatalog : Registry.ofJson catalog = .ok registry)
    (hspan : unit.containsSpan unit.packageSpan = true)
    (hrule : registry.get? internalRuleId = some rule) :
    (failingRun unit registry).gathered ⊆ (failingRun unit registry).reports rule := by
  intro f hf
  obtain ⟨evaluator, he, hadded⟩ := List.mem_flatMap.mp hf
  have hfailing : ∃ text, evaluator = .failing .naming text := by
    rcases List.mem_pair.mp he with rfl | rfl
    · exact ⟨_, rfl⟩
    · exact ⟨_, rfl⟩
  obtain ⟨text, rfl⟩ := hfailing
  have hfailure : (failingRun unit registry).failure? (.failing .naming text) =
      some (.raised text) := failure?_failingRun hcatalog text
  rw [Run.added_of_failure hspan hrule hfailure, List.mem_singleton] at hadded
  exact Run.mem_reports.mpr ⟨_, he, _, hfailure, hadded⟩

/-- What it takes to report two failures. -/
theorem of_reportsFailures_failingRun (hcatalog : Registry.ofJson catalog = .ok registry)
    (h : (failingRun unit registry).ReportsFailures) :
    unit.containsSpan unit.packageSpan = true ∧
      ∃ rule, registry.get? internalRuleId = some rule ∧ rule.category = .internal := by
  obtain ⟨result, hresult, hshown⟩ := h
  obtain ⟨hspan, rule, hrule⟩ := Run.of_analyze_of_failure hresult List.mem_cons_self
    (failure?_failingRun hcatalog "one")
  refine ⟨hspan, rule, hrule, ?_⟩
  by_contra hinternal
  -- Two messages are to be listed, but only one report would be.
  have hone : (failingRun unit registry).gathered.ordered.length ≤ 1 :=
    Run.length_ordered_le_one (gathered_failingRun_subset hcatalog hspan hrule) hinternal
  have hlisted := hshown.length_le
  obtain ⟨-, -, rfl⟩ := analyze_eq_ok_iff.mp hresult
  rw [Findings.failureMessages_result, List.length_map,
    length_failureMessages_failingRun hcatalog] at hlisted
  have hfiltered := List.length_filter_le (fun f => f.ruleId == internalRuleId)
    (failingRun unit registry).gathered.ordered
  omega

end FailingRun

/-- **When no failure of an evaluator is fatal or lost.**  For a document and a catalog that are
accepted, every run reports all failures exactly when the package clause does not end before it
starts and the catalog has the internal rule in the internal category. -/
theorem forall_reportsFailures_iff {path text : String} {tree : Members} {unit : SourceUnit}
    {catalog : Json} {registry : Registry} (htree : readTree path text tree = .ok unit)
    (hcatalog : Registry.ofJson catalog = .ok registry) :
    (∀ settings exclude evaluators,
      Run.ReportsFailures { unit, registry, settings, exclude, evaluators }) ↔
      unit.packageSpan.start.offset ≤ unit.packageSpan.stop.offset ∧
        ∃ rule, registry.get? internalRuleId = some rule ∧ rule.category = .internal := by
  obtain ⟨-, -, history, htells⟩ := exists_history_of_readTree htree
  obtain ⟨hstart, hstop⟩ := isCanonical_of_statesSpan htells.package
  -- The ends of the package clause lie in the file.
  have hspan : unit.containsSpan unit.packageSpan = true ↔
      unit.packageSpan.start.offset ≤ unit.packageSpan.stop.offset := by
    simp [SourceText.containsSpan, hstart.nonneg, hstop.le_length]
  rw [← hspan]
  constructor
  · intro hall
    exact of_reportsFailures_failingRun hcatalog (hall {} [] _)
  · rintro ⟨hspan, rule, hrule, hinternal⟩ settings exclude evaluators
    exact Run.reportsFailures_of_internal hspan hrule hinternal fun _ => rfl

/-! ## A catalog with and without the internal rule -/

/-- A file with nothing but its package clause. -/
def emptyFileTree : Members :=
  lineNode "File" 0 9 [
    ("package", .obj (lineNode "Ident" 8 9 [("name", .str "a")])),
    ("decls", .arr [])]

theorem exists_unit_emptyFileTree : ∃ unit, readTree "a.go" "package a" emptyFileTree = .ok unit ∧
    unit.packageSpan.start.offset ≤ unit.packageSpan.stop.offset := by
  have hspan : ((readTree "a.go" "package a" emptyFileTree).toOption.map fun unit =>
      (unit.packageSpan.start.offset, unit.packageSpan.stop.offset)) = some (0, 9) := by
    decide +kernel
  obtain ⟨unit, hunit, hoffsets⟩ := Option.map_eq_some_iff.mp hspan
  obtain ⟨hstart, hstop⟩ := Prod.mk.inj hoffsets
  exact ⟨unit, toOption_eq_some.mp hunit, by omega⟩

theorem forall_reportsFailures_plainCatalog : ∃ unit registry,
    readTree "a.go" "package a" emptyFileTree = .ok unit ∧
      Registry.ofJson (plainCatalog [plainEntry "INT001" .internal]) = .ok registry ∧
      ∀ settings exclude evaluators,
        Run.ReportsFailures { unit, registry, settings, exclude, evaluators } := by
  have hread : ((Registry.ofJson (plainCatalog [plainEntry "INT001" .internal])).toOption.bind
      fun registry => (registry.get? internalRuleId).map (·.category)) = some .internal := by
    decide +kernel
  obtain ⟨registry, hregistry, hget⟩ := Option.bind_eq_some_iff.mp hread
  obtain ⟨unit, htree, hspan⟩ := exists_unit_emptyFileTree
  have hcatalog := toOption_eq_some.mp hregistry
  exact ⟨unit, registry, htree, hcatalog,
    (forall_reportsFailures_iff htree hcatalog).mpr ⟨hspan, Option.map_eq_some_iff.mp hget⟩⟩

/-- **The failure of an evaluator may be fatal**, if the catalog has no internal rule. -/
theorem not_forall_reportsFailures :
    ¬ ∀ (path text : String) (tree : Members) (unit : SourceUnit) (catalog : Json)
      (registry : Registry), readTree path text tree = .ok unit →
      Registry.ofJson catalog = .ok registry → ∀ settings exclude evaluators,
        Run.ReportsFailures { unit, registry, settings, exclude, evaluators } := by
  intro hall
  have hread : ((Registry.ofJson (plainCatalog [])).toOption.map fun registry =>
      registry.contains internalRuleId) = some false := by decide +kernel
  obtain ⟨registry, hregistry, hmissing⟩ := Option.map_eq_some_iff.mp hread
  obtain ⟨unit, htree, -⟩ := exists_unit_emptyFileTree
  have hcatalog := toOption_eq_some.mp hregistry
  obtain ⟨-, rule, hrule, -⟩ := of_reportsFailures_failingRun hcatalog
    (hall _ _ _ unit _ registry htree hcatalog {} [] _)
  have hcontains := registry.contains_iff.mpr
    ⟨rule, registry.mem_of_get? hrule, registry.id_of_get? hrule⟩
  rw [hmissing] at hcontains
  cases hcontains

end GoConventions
