import GoConventions.Proofs.Analysis.Patches
import GoConventions.Proofs.Analysis.Reports

/-!
# The order of the evaluators

The result of a run is made from the first finding of each key and from the internal findings, so
the order in which evaluators run can show in two ways only: two evaluators have found something
under one key, or two internal findings compare equal.  Neither happens among evaluators of
different categories that state remarks, because a key names a rule, and a rule has one category.

A failure adds one more finding, under the internal rule.  In the internal category it is alone.
But a catalog may put the internal rule into a category that an evaluator checks, and then this
evaluator may state a remark under that rule at the package clause, where the failure of another
one is reported.  Of the two only that is shown which comes first (`Run.HidesReport`), and this is
the one case in which the order matters (`orderIrrelevant_iff`).

## Main definitions

* `Run.OrderIrrelevant`: a run has the same result with its evaluators in any order.
* `Run.HidesReport`: an evaluator finds something else in the place of a report.

## Main results

* `Run.first?_added_unique`: what different evaluators find under one key.
* `orderIrrelevant_iff`: when the order does not matter.
-/

namespace GoConventions

/-- Where no two elements have different answers, the first answer does not depend on the order. -/
theorem findSome?_eq_of_perm {α β : Type} {f : α → Option β} {xs ys : List α} (h : xs.Perm ys)
    (hunique : ∀ x ∈ xs, ∀ y ∈ xs, ∀ a b, f x = some a → f y = some b → a = b) :
    xs.findSome? f = ys.findSome? f := by
  cases hx : xs.findSome? f with
  | none =>
    have hnone := List.findSome?_eq_none_iff.mp hx
    exact (List.findSome?_eq_none_iff.mpr fun y hy => hnone y (h.mem_iff.mpr hy)).symm
  | some a =>
    obtain ⟨x, hmem, hfx⟩ := List.exists_of_findSome?_eq_some hx
    cases hy : ys.findSome? f with
    | none =>
      have hnone := List.findSome?_eq_none_iff.mp hy x (h.mem_iff.mp hmem)
      rw [hfx] at hnone
      cases hnone
    | some b =>
      obtain ⟨y, hmem', hfy⟩ := List.exists_of_findSome?_eq_some hy
      rw [hunique x hmem y (h.mem_iff.mpr hmem') a b hfx hfy]

/-! ## Evaluators of different categories -/

namespace Run

variable {run : Run}

/-- The run has the same result, if any, with its evaluators in any order. -/
def OrderIrrelevant (run : Run) : Prop :=
  ∀ evaluators : List Evaluator, evaluators.Perm run.evaluators → ∀ result,
    analyze { run with evaluators } = .ok result ↔ analyze run = .ok result

/-- The report of a failure is found under a key under which another evaluator finds something else
first, so that which of the two is shown depends on which evaluator comes first. -/
def HidesReport (run : Run) : Prop :=
  ∃ failing ∈ run.evaluators, ∃ other ∈ run.evaluators, ∃ failure rule f,
    run.failure? failing = some failure ∧ run.registry.get? internalRuleId = some rule ∧
      Findings.first? (run.added other) (run.failureReport rule failing.category failure).key =
        some f ∧ f ≠ run.failureReport rule failing.category failure

section Apart

variable (hdistinct : run.evaluators.Pairwise fun d e => d.category ≠ e.category)
  (hstated : ∀ evaluator ∈ run.evaluators,
    evaluator.category ≠ .internal ∧ run.StatesRemarks evaluator)
  (hsingle : (run.evaluators.filter fun evaluator =>
    (run.failure? evaluator).isSome).length ≤ 1)

include hdistinct in
theorem eq_of_category_eq {d e : Evaluator} (hd : d ∈ run.evaluators) (he : e ∈ run.evaluators)
    (h : d.category = e.category) : d = e :=
  List.inj_on_of_nodup_map (List.pairwise_map.mpr hdistinct) hd he h

include hsingle in
theorem eq_of_failure {d e : Evaluator} (hd : d ∈ run.evaluators) (he : e ∈ run.evaluators)
    {failure failure' : EvaluatorFailure} (hfd : run.failure? d = some failure)
    (hfe : run.failure? e = some failure') : d = e := by
  -- Both are in a list of at most one element.
  have hmem : ∀ {x : Evaluator} {failure : EvaluatorFailure}, x ∈ run.evaluators →
      run.failure? x = some failure →
        x ∈ run.evaluators.filter fun evaluator => (run.failure? evaluator).isSome := by
    intro x failure hx hfailure
    exact List.mem_filter.mpr ⟨hx, by rw [hfailure]; rfl⟩
  have hd := hmem hd hfd
  have he := hmem he hfe
  rcases hfailing : run.evaluators.filter fun evaluator => (run.failure? evaluator).isSome with
    _ | ⟨x, _ | ⟨y, rest⟩⟩
  · rw [hfailing] at hd
    cases hd
  · rw [hfailing] at hd he
    rw [List.mem_singleton.mp hd, List.mem_singleton.mp he]
  · rw [hfailing] at hsingle
    simp at hsingle

include hstated

/-- What another evaluator finds first under the key of a report is this report. -/
theorem eq_report_of_not_hidesReport (hhides : ¬ run.HidesReport) {failing other : Evaluator}
    (hfailing : failing ∈ run.evaluators) (hother : other ∈ run.evaluators)
    {failure : EvaluatorFailure} (hfailure : run.failure? failing = some failure)
    {key : String × Int × Int} {f g : Finding}
    (hf : Findings.first? (run.added failing) key = some f)
    (hg : Findings.first? (run.added other) key = some g) : g = f := by
  obtain ⟨hmem, -, rfl⟩ := Findings.isInternal_of_first? hf
  rcases of_mem_added (hstated failing hfailing).2 hmem with
    ⟨hnone, -⟩ | ⟨reason, rule, hreason, hrule, rfl⟩
  · rw [hfailure] at hnone
    cases hnone
  · by_contra hne
    exact hhides ⟨failing, hfailing, other, hother, reason, rule, g, hreason, hrule, hg, hne⟩

include hsingle in
/-- No two internal findings compare equal, since the only one is the report of the one failure. -/
theorem eq_of_isInternal_of_order {f g : Finding} (hf : f ∈ run.gathered)
    (hinternal : f.isInternal = true) (hg : g ∈ run.gathered) (h : f.order g = .eq) : f = g := by
  obtain ⟨d, hd, hfd⟩ := List.mem_flatMap.mp hf
  obtain ⟨e, he, hge⟩ := List.mem_flatMap.mp hg
  obtain ⟨hcategory, hremarks⟩ := hstated d hd
  rcases of_mem_added hremarks hfd with ⟨-, hf'⟩ | ⟨failure, rule, hfailure, hrule, rfl⟩
  · rw [hf'.isInternal_eq_false hcategory] at hinternal
    cases hinternal
  have hrule' : rule.category = .internal := isInternal_failureReport.mp hinternal
  obtain ⟨hcategory', hremarks'⟩ := hstated e he
  rcases of_mem_added hremarks' hge with ⟨-, hg'⟩ | ⟨failure', other, hfailure', hother, rfl⟩
  · -- No remark stands under the key of an internal report.
    have hkey := (Finding.order_eq_iff.mp h).1
    exact absurd hrule' (category_ne_internal_of_stated hg' hcategory' hrule hkey.symm)
  · obtain rfl := eq_of_failure hsingle hd he hfailure hfailure'
    rw [Option.some.inj (hrule.symm.trans hother),
      Option.some.inj (hfailure.symm.trans hfailure')]

include hdistinct

/-- **Evaluators of different categories do not find different things under one key**, unless a
report is hidden. -/
theorem first?_added_unique (hhides : ¬ run.HidesReport) {d e : Evaluator}
    (hd : d ∈ run.evaluators) (he : e ∈ run.evaluators) {key : String × Int × Int}
    {f g : Finding} (hf : Findings.first? (run.added d) key = some f)
    (hg : Findings.first? (run.added e) key = some g) : f = g := by
  cases hfd : run.failure? d with
  | some failure =>
    exact (eq_report_of_not_hidesReport hstated hhides hd he hfd hf hg).symm
  | none =>
    cases hfe : run.failure? e with
    | some failure => exact eq_report_of_not_hidesReport hstated hhides he hd hfe hg hf
    | none =>
      obtain ⟨hfmem, -, hfkey⟩ := Findings.isInternal_of_first? hf
      obtain ⟨hgmem, -, hgkey⟩ := Findings.isInternal_of_first? hg
      have hf' := stated_of_mem_added (hstated d hd).2 hfd hfmem
      have hg' := stated_of_mem_added (hstated e he).2 hfe hgmem
      -- A key names a rule, a rule has one category, and only one evaluator is of it.
      have hrule : f.ruleId = g.ruleId := congrArg Prod.fst (hfkey.trans hgkey.symm)
      obtain rfl := eq_of_category_eq hdistinct hd he (hf'.category_eq_of_ruleId hg' hrule)
      exact Option.some.inj (hf.symm.trans hg)

include hsingle

/-- **The findings that a run gathers are put in the same order**, whichever way they come, unless a
report is hidden. -/
theorem ordered_gathered_eq_of_perm (hhides : ¬ run.HidesReport) {evaluators : List Evaluator}
    (hperm : evaluators.Perm run.evaluators) :
    run.gathered.ordered = Findings.ordered (evaluators.flatMap run.added) := by
  refine Findings.ordered_eq_of_first?_eq (fun key => ?_) ?_ fun f hf hinternal g hg h => ?_
  · rw [gathered, Findings.first?_flatMap, Findings.first?_flatMap]
    exact findSome?_eq_of_perm hperm.symm fun d hd e he _ _ hf hg =>
      first?_added_unique hdistinct hstated hhides hd he hf hg
  · exact (hperm.symm.flatMap_right run.added).filter _
  · exact eq_of_isInternal_of_order hstated hsingle (Findings.mem_of_mem_ordered hf)
      hinternal (Findings.mem_of_mem_ordered hg) h

end Apart

/-- What an evaluator finds first is found first by the run when the evaluator comes first. -/
theorem exists_perm_first? {evaluator : Evaluator} (he : evaluator ∈ run.evaluators)
    {key : String × Int × Int} {f : Finding}
    (hf : Findings.first? (run.added evaluator) key = some f) :
    ∃ evaluators : List Evaluator, evaluators.Perm run.evaluators ∧
      Findings.first? (evaluators.flatMap run.added) key = some f := by
  obtain ⟨before, after, hsplit⟩ := List.append_of_mem he
  refine ⟨evaluator :: (before ++ after), ?_, ?_⟩
  · rw [hsplit]
    exact List.perm_middle.symm
  · rw [Findings.first?_flatMap, List.findSome?_cons, hf]

/-- Whether a run has a result does not depend on the order of its evaluators. -/
theorem analyze_eq_ok_iff_of_perm {evaluators : List Evaluator}
    (hperm : evaluators.Perm run.evaluators) {result : FileResult} :
    analyze { run with evaluators } = .ok result ↔
      (run.Proceeds 0 run.evaluators ∧
        ∀ evaluator ∈ run.evaluators, ∃ added, run.contribution evaluator = .ok added) ∧
      result = Findings.result run.unit (evaluators.flatMap run.added) := by
  have hproceeds : run.Proceeds 0 evaluators ↔ run.Proceeds 0 run.evaluators := by
    rw [Proceeds, Proceeds, evaluations, evaluations, (hperm.filter _).length_eq]
  rw [analyze_eq_ok_iff, and_assoc, ← hproceeds]
  refine and_congr_right fun _ => and_congr_left fun _ => ?_
  exact forall_congr' fun evaluator => imp_congr_left hperm.mem_iff

/-- The internal rule does not hide reports when it is internal. -/
theorem not_hidesReport_of_internal
    (hstated : ∀ evaluator ∈ run.evaluators,
      evaluator.category ≠ .internal ∧ run.StatesRemarks evaluator)
    (hinternal : ∀ rule, run.registry.get? internalRuleId = some rule →
      rule.category = .internal) : ¬ run.HidesReport := by
  rintro ⟨failing, -, other, hother, failure, rule, f, -, hrule, hf, -⟩
  obtain ⟨hmem, hnot, hkey⟩ := Findings.isInternal_of_first? hf
  obtain ⟨hcategory, hremarks⟩ := hstated other hother
  rcases of_mem_added hremarks hmem with ⟨-, hf'⟩ | ⟨failure', rule', -, hrule', rfl⟩
  · exact category_ne_internal_of_stated hf' hcategory hrule hkey (hinternal rule hrule)
  · rw [isInternal_failureReport.mpr (hinternal rule' hrule')] at hnot
    cases hnot

/-- A hidden report shows: the result depends on which of the two evaluators comes first. -/
theorem not_hidesReport_of_orderIrrelevant {result : FileResult}
    (hstated : ∀ evaluator ∈ run.evaluators,
      evaluator.category ≠ .internal ∧ run.StatesRemarks evaluator)
    (hsingle : (run.evaluators.filter fun evaluator =>
      (run.failure? evaluator).isSome).length ≤ 1)
    (hresult : analyze run = .ok result) (hirrelevant : run.OrderIrrelevant) :
    ¬ run.HidesReport := by
  rintro ⟨failing, hfailing, other, hother, failure, rule, f, hfailure, hrule, hf, hne⟩
  obtain ⟨hmem, hnot, hkey⟩ := Findings.isInternal_of_first? hf
  obtain ⟨hcategory, hremarks⟩ := hstated other hother
  rcases of_mem_added hremarks hmem with ⟨-, hf'⟩ | ⟨failure', rule', hfailure', hrule', rfl⟩
  · -- One order shows the report and another one shows `f`.
    obtain ⟨hspan, -⟩ := of_analyze_of_failure hresult hfailing hfailure
    have hreport := first?_added_of_failure hspan hrule
      (category_ne_internal_of_stated hf' hcategory hrule hkey) hfailure
    obtain ⟨front, hfront, hreportFirst⟩ := exists_perm_first? hfailing hreport
    obtain ⟨front', hfront', hotherFirst⟩ := exists_perm_first? hother hf
    have hall : ∀ {evaluators : List Evaluator}, evaluators.Perm run.evaluators →
        result = Findings.result run.unit (evaluators.flatMap run.added) := by
      intro evaluators hperm
      exact ((analyze_eq_ok_iff_of_perm hperm).mp
        ((hirrelevant evaluators hperm result).mpr hresult)).2
    have hsame := (hall hfront).symm.trans (hall hfront')
    exact hne (Findings.eq_of_result_eq hsame hreportFirst hotherFirst rfl ⟨rfl, hf'.patch⟩
      hf'.ordinal.symm).symm
  · -- The other evaluator fails too, so it is the same one.
    obtain rfl := eq_of_failure hsingle hfailing hother hfailure hfailure'
    rw [Option.some.inj (hrule.symm.trans hrule'),
      Option.some.inj (hfailure.symm.trans hfailure')] at hne
    exact hne rfl

end Run

/-- **When the order of the evaluators does not matter.**  A run of evaluators of different
categories that state remarks, of which at most one fails, has the same result in every order,
unless the report of the failure is hidden; and it is not hidden where the internal rule is
internal. -/
theorem orderIrrelevant_iff {run : Run}
    (hdistinct : run.evaluators.Pairwise fun d e => d.category ≠ e.category)
    (hstated : ∀ evaluator ∈ run.evaluators,
      evaluator.category ≠ .internal ∧ run.StatesRemarks evaluator)
    (hsingle : (run.evaluators.filter fun evaluator =>
      (run.failure? evaluator).isSome).length ≤ 1) :
    (run.OrderIrrelevant ↔ ((∃ result, analyze run = .ok result) → ¬ run.HidesReport)) ∧
      ((∀ rule, run.registry.get? internalRuleId = some rule → rule.category = .internal) →
        run.OrderIrrelevant) := by
  have hsame : ((∃ result, analyze run = .ok result) → ¬ run.HidesReport) →
      run.OrderIrrelevant := by
    intro hhides evaluators hperm result
    rw [Run.analyze_eq_ok_iff_of_perm hperm, analyze_eq_ok_iff, ← and_assoc]
    refine and_congr_right fun ⟨hproceeds, hcontributes⟩ => ?_
    have hnot := hhides ⟨_, analyze_eq_ok_iff.mpr ⟨hproceeds, hcontributes, rfl⟩⟩
    rw [Findings.result, Findings.result,
      Run.ordered_gathered_eq_of_perm hdistinct hstated hsingle hnot hperm]
  refine ⟨⟨?_, hsame⟩, fun hinternal => ?_⟩
  · rintro hirrelevant ⟨result, hresult⟩
    exact Run.not_hidesReport_of_orderIrrelevant hstated hsingle hresult hirrelevant
  · exact hsame fun _ => Run.not_hidesReport_of_internal hstated hinternal

/-! ## A report under the rule of another evaluator -/

/-- The packaged rules with the internal rule among those of the layout, which leaves them within
the bounds of a catalog. -/
def misfiledRegistry : Registry where
  rules := packagedRules.map fun rule =>
    if rule.id == internalRuleId then { rule with category := .formatting } else rule
  nodup_ids := by decide +kernel
  version := 1

/-- An evaluator of the layout with one remark, at the package clause. -/
def strayEvaluator (ruleId : String) : Evaluator :=
  .ofRemarks .formatting fun _ => [⟨ruleId, plainText.wholeSpan, "stray", none, none⟩]

/-- A run of this evaluator, and of one that fails. -/
def stuckRun (registry : Registry) (ruleId : String) : Run where
  unit := rivalRun.unit
  registry
  evaluators := [strayEvaluator ruleId, .failing .imports "stuck"]

theorem stated_stuckRun (registry : Registry) (ruleId : String) :
    ∀ evaluator ∈ (stuckRun registry ruleId).evaluators,
      evaluator.category ≠ .internal ∧ (stuckRun registry ruleId).StatesRemarks evaluator := by
  intro evaluator he
  simp only [stuckRun, List.mem_cons, List.not_mem_nil, or_false] at he
  rcases he with rfl | rfl
  · exact ⟨by simp [strayEvaluator, Evaluator.ofRemarks], Run.statesRemarks_ofRemarks _⟩
  · exact ⟨by simp [Evaluator.failing], Run.statesRemarks_failing _⟩

theorem pairwise_category_stuckRun (registry : Registry) (ruleId : String) :
    (stuckRun registry ruleId).evaluators.Pairwise fun d e => d.category ≠ e.category := by
  simp [stuckRun, strayEvaluator, Evaluator.ofRemarks, Evaluator.failing]

/-- The remark stands where the failure is reported. -/
theorem hidesReport_stuckRun : (stuckRun misfiledRegistry "INT001").HidesReport := by
  obtain ⟨rule, hrule⟩ : ∃ rule, misfiledRegistry.get? internalRuleId = some rule := ⟨_, rfl⟩
  have hstray : (Findings.first? ((stuckRun misfiledRegistry "INT001").added
      (strayEvaluator "INT001")) (internalRuleId, 0, 9)).map (·.message) = some "stray" := by
    decide +kernel
  obtain ⟨f, hf, hmessage⟩ := Option.map_eq_some_iff.mp hstray
  refine ⟨.failing .imports "stuck", by simp [stuckRun],
    strayEvaluator "INT001", by simp [stuckRun], .raised "stuck", rule, f, by decide +kernel,
    hrule, ?_, ?_⟩
  · rw [Run.key_failureReport hrule]
    exact hf
  · rintro rfl
    have hdiffer : failureMessage .imports (.raised "stuck") ≠ "stray" := by decide +kernel
    exact hdiffer hmessage

theorem exists_result_stuckRun :
    ∃ result, analyze (stuckRun misfiledRegistry "INT001") = .ok result := by
  obtain ⟨rule, hrule⟩ : ∃ rule, misfiledRegistry.get? internalRuleId = some rule := ⟨_, rfl⟩
  exact ⟨_, Run.analyze_eq_ok_gathered (by decide +kernel) hrule fun _ => rfl⟩

theorem orderIrrelevant_stuckRun :
    (stuckRun packagedRegistry "FMT001").OrderIrrelevant ∧
      ¬ (stuckRun misfiledRegistry "INT001").OrderIrrelevant := by
  constructor
  · refine (orderIrrelevant_iff (pairwise_category_stuckRun _ _) (stated_stuckRun _ _)
      (by decide +kernel)).2 fun rule hrule => ?_
    obtain rfl := Option.some.inj hrule
    rfl
  · intro hirrelevant
    exact (orderIrrelevant_iff (pairwise_category_stuckRun _ _) (stated_stuckRun _ _)
      (by decide +kernel)).1.mp hirrelevant exists_result_stuckRun hidesReport_stuckRun

/-- **The order of evaluators may show**, if a catalog puts the internal rule into a category that
is checked. -/
theorem not_forall_orderIrrelevant :
    ¬ ∀ run : Run, (run.evaluators.Pairwise fun d e => d.category ≠ e.category) →
      (∀ evaluator ∈ run.evaluators,
        evaluator.category ≠ .internal ∧ run.StatesRemarks evaluator) →
      (run.evaluators.filter fun evaluator => (run.failure? evaluator).isSome).length ≤ 1 →
        run.OrderIrrelevant := by
  intro hall
  have hsingle : ((stuckRun misfiledRegistry "INT001").evaluators.filter fun evaluator =>
      ((stuckRun misfiledRegistry "INT001").failure? evaluator).isSome).length ≤ 1 := by
    decide +kernel
  have hirrelevant := hall _ (pairwise_category_stuckRun misfiledRegistry "INT001")
    (stated_stuckRun _ _) hsingle
  obtain ⟨result, hresult⟩ := exists_result_stuckRun
  exact Run.not_hidesReport_of_orderIrrelevant (stated_stuckRun _ _) hsingle hresult hirrelevant
    hidesReport_stuckRun

end GoConventions
