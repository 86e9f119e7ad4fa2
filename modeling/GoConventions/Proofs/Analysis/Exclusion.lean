import GoConventions.Proofs.Analysis.Soundness
import GoConventions.Proofs.Convention.Restriction

/-!
# Excluding rules

A run with further exclusions is the run with fewer rules.  Where no evaluator fails, its findings
are those of the run without the exclusions, less those under the excluded rules
(`analyze_excluding`), with an exception at the places where a rule of documentation has its turn
because another is excluded (`Run.fallbackKeys`).  At these places nothing gets lost either, but a
finding may come up that the other run did not have.  There are no such places when with each of the
two rules that are tried first the rule is excluded that is tried next
(`analyze_excluding_of_closed`).

On the way from the findings of the evaluators to those of the result, duplicates are dropped and
the rest is put in order.  Both look at the key of a finding only, or at what the key determines, so
both may be done before or after a choice of keys (`ordered_filter_key`).

## Main definitions

* `Run.excluding`: a run with further rules excluded.
* `Finding.entry`: what is compared of two findings.

## Main results

* `analyze_excluding`: the findings of a run with further exclusions.
* `not_forall_excluding`: they need not be a choice from those of the run without.
-/

namespace GoConventions

/-- What is compared of findings in two runs: rule, place, severity and text. -/
def Finding.entry (f : Finding) : String × Span × Severity × String :=
  (f.ruleId, f.span, f.severity, f.message)

/-! ## Choosing by keys -/

namespace Findings

variable {findings : Findings} {unit : SourceUnit}

/-- Duplicates may be dropped after a choice of keys.  The keys seen may differ in those that are
not chosen. -/
theorem separateDuplicates_filter_key (chooses : String × Int × Int → Bool)
    {seen seen' : List (String × Int × Int)}
    (hseen : ∀ key, chooses key = true → (key ∈ seen ↔ key ∈ seen')) (findings : List Finding) :
    (separateDuplicates seen (findings.filter fun f => chooses f.key)).1 =
      (separateDuplicates seen' findings).1.filter fun f => chooses f.key := by
  induction findings generalizing seen seen' with
  | nil => rfl
  | cons f findings ih =>
    cases hchosen : chooses f.key with
    | false =>
      -- However `f` is treated, no finding with its key is chosen.
      have hseen' : ∀ key, chooses key = true → (key ∈ seen ↔ key ∈ f.key :: seen') := by
        intro key hkey
        rw [List.mem_cons, or_iff_right, hseen key hkey]
        rintro rfl
        rw [hchosen] at hkey
        cases hkey
      rw [List.filter_cons_of_neg (by simp [hchosen]), separateDuplicates]
      split
      · exact ih hseen
      · rw [List.filter_cons_of_neg (by simp [hchosen])]
        exact ih hseen'
    | true =>
      rw [List.filter_cons_of_pos (by simp [hchosen]), separateDuplicates, separateDuplicates]
      by_cases hmem : f.key ∈ seen
      · have hmem' := (hseen _ hchosen).mp hmem
        rw [if_pos (List.contains_iff_mem.mpr hmem), if_pos (List.contains_iff_mem.mpr hmem')]
        exact ih hseen
      · have hmem' : f.key ∉ seen' := fun h => hmem ((hseen _ hchosen).mpr h)
        rw [if_neg (fun h => hmem (List.contains_iff_mem.mp h)),
          if_neg (fun h => hmem' (List.contains_iff_mem.mp h)),
          List.filter_cons_of_pos (by simp [hchosen])]
        refine congrArg (f :: ·) (ih fun key hkey => ?_)
        rw [List.mem_cons, List.mem_cons, hseen key hkey]

/-- Findings may be put in order after a choice of keys. -/
theorem ordered_filter_key (chooses : String × Int × Int → Bool) :
    ordered (findings.filter fun f => chooses f.key) =
      findings.ordered.filter fun f => chooses f.key := by
  have hswap : ∀ p : Finding → Bool, (findings.filter fun f => chooses f.key).filter p =
      (findings.filter p).filter fun f => chooses f.key := by
    intro p
    rw [List.filter_filter, List.filter_filter]
    simp only [Bool.and_comm]
  rw [ordered, ordered, ← sortBy_filter, List.filter_append, separated, separated, hswap, hswap,
    separateDuplicates_filter_key chooses fun _ _ => Iff.rfl]

/-- What is compared of a result are the ordered findings. -/
theorem map_entry_filter_result (chooses : String × Int × Int → Bool) :
    ((findings.result unit).findings.filter fun f => chooses f.key).map Finding.entry =
      (findings.ordered.filter fun f => chooses f.key).map Finding.entry := by
  have hframe : ∀ xs : List Finding, (xs.filter fun f => chooses f.key).map Finding.entry =
      ((xs.map Finding.frame).filter fun f => chooses f.key).map Finding.entry := by
    intro xs
    rw [List.filter_map, List.map_map]
    rfl
  rw [hframe, map_frame_result, ← hframe]

/-- A finding that a result shows has been gathered. -/
theorem exists_mem_of_mem_result {f : Finding} (h : f ∈ (findings.result unit).findings) :
    ∃ g ∈ findings, g.key = f.key := by
  have hmem : f.frame ∈ (findings.result unit).findings.map Finding.frame := List.mem_map_of_mem h
  rw [map_frame_result] at hmem
  obtain ⟨g, hg, hframe⟩ := List.mem_map.mp hmem
  exact ⟨g, mem_of_mem_ordered hg, show g.frame.key = f.frame.key by rw [hframe]⟩

/-- Of a finding that has been gathered a result shows the key. -/
theorem exists_mem_result_of_mem {f : Finding} (h : f ∈ findings) :
    ∃ g ∈ (findings.result unit).findings, g.key = f.key := by
  obtain ⟨g, hg, hkey⟩ : ∃ g ∈ findings.ordered, g.key = f.key := by
    cases hinternal : f.isInternal with
    | true => exact ⟨f, mem_ordered.mpr (Or.inl ⟨h, hinternal⟩), rfl⟩
    | false =>
      cases hfirst : findings.first? f.key with
      | none =>
        have hmem : f ∈ findings.filter fun f => !f.isInternal :=
          List.mem_filter.mpr ⟨h, by simp [hinternal]⟩
        simpa using List.find?_eq_none.mp hfirst f hmem
      | some g =>
        have hkey := (isInternal_of_first? hfirst).2.2
        exact ⟨g, mem_ordered.mpr (Or.inr (by rw [hkey]; exact hfirst)), hkey⟩
  have hmem : g.frame ∈ (findings.result unit).findings.map Finding.frame :=
    map_frame_result ▸ List.mem_map_of_mem hg
  obtain ⟨listed, hlisted, hframe⟩ := List.mem_map.mp hmem
  exact ⟨listed, hlisted, (congrArg Finding.key hframe).trans hkey⟩

end Findings

/-! ## Findings under fewer rules -/

namespace Findings.Restricts

variable {keeps : String → Bool} {looksAt : String × Int × Int → Bool} {full restricted : Findings}

theorem flatMap {α : Type} {f f' : α → Findings} {xs : List α}
    (h : ∀ x ∈ xs, (f' x).Restricts keeps looksAt (f x)) :
    Findings.Restricts keeps looksAt (xs.flatMap f') (xs.flatMap f) where
  filtered := by
    rw [List.filter_flatMap, List.filter_flatMap]
    exact List.flatMap_congr fun x hx => (h x hx).filtered
  subset g hg hkeeps := by
    obtain ⟨x, hx, hmem⟩ := List.mem_flatMap.mp hg
    exact List.mem_flatMap.mpr ⟨x, hx, (h x hx).subset g hmem hkeeps⟩
  kept g hg := by
    obtain ⟨x, hx, hmem⟩ := List.mem_flatMap.mp hg
    exact (h x hx).kept g hmem

/-- Where no finding is under a rule that is kept, nothing has to be found. -/
theorem nil (h : ∀ f ∈ full, keeps f.ruleId = false) :
    Findings.Restricts keeps looksAt [] full where
  filtered := (List.filter_eq_nil_iff.mpr fun f hf => by simp [h f hf]).symm
  subset f hf hkeeps := by
    rw [h f hf] at hkeeps
    cases hkeeps
  kept _ hf := nomatch hf

end Findings.Restricts

/-! ## Further exclusions -/

/-- Rule sets with the same rules are the same. -/
theorem RuleSet.eq_of_rules_eq {s t : RuleSet} (h : s.rules = t.rules) : s = t := by
  cases s
  cases t
  cases h
  rfl

theorem exclusionIds_append (ids ids' : List String) :
    exclusionIds (ids ++ ids') = exclusionIds ids ++ exclusionIds ids' := by
  rw [exclusionIds, List.filter_append, List.map_append]
  rfl

/-- The identifiers of the packaged rules are read as they are. -/
theorem exclusionIds_of_packaged {ids : List String} (h : ∀ id ∈ ids, id ∈ packagedRegistry.ids) :
    exclusionIds ids = ids := by
  have hpackaged : ∀ id ∈ packagedRegistry.ids,
      (!Text.isBlankText id) = true ∧ Text.upper (Text.trim id) = id := by decide +kernel
  rw [exclusionIds, List.filter_eq_self.mpr fun id hid => (hpackaged id (h id hid)).1]
  exact (List.map_congr_left fun id hid => (hpackaged id (h id hid)).2).trans (List.map_id _)

namespace Run

variable {run : Run} {ids : List String} {evaluator : Evaluator}

/-- The run with further rules excluded. -/
def excluding (run : Run) (ids : List String) : Run :=
  { run with exclude := run.exclude ++ ids }

/-- The places at which one rule has its turn because another is excluded. -/
def fallbackKeys (run : Run) (ids : List String) : List (String × Int × Int) :=
  run.unit.fallbackKeys fun id => run.rules.contains id && ids.contains id

/-- Evaluators see the same file and settings, and the rules that are left. -/
theorem context_excluding (hids : exclusionIds ids = ids) (category : Category) :
    (run.excluding ids).context category =
      (run.context category).restrict fun id => !ids.contains id := by
  have hrules : (run.excluding ids).rules.ofCategory category =
      (run.rules.ofCategory category).filter fun rule => !ids.contains rule.id := by
    apply RuleSet.eq_of_rules_eq
    simp only [rules, excluding, Registry.without, RuleSet.ofCategory, RuleSet.rules_filter,
      List.filter_filter, ← List.append_assoc, exclusionIds_append _ ids, hids]
    refine List.filter_congr fun rule _ => ?_
    rw [List.contains_append, Bool.not_or]
    grind
  rw [context, hrules]
  rfl

/-- An evaluator that is run and does not fail adds what it answers. -/
theorem evaluate_eq_ok_of_isRun (hrun : run.isRun evaluator = true)
    (h : run.failure? evaluator = none) :
    evaluator.evaluate (run.context evaluator.category) = .ok (run.added evaluator) := by
  obtain ⟨batch, hattempt⟩ := failure?_eq_none_iff.mp h
  have hadded : run.added evaluator = batch := by simp only [added, contribution, hattempt]
  rw [attempt, if_pos hrun] at hattempt
  rw [hadded]
  exact (answer_eq_ok.mp hattempt).1

theorem added_of_not_isRun (hrun : run.isRun evaluator = false) : run.added evaluator = [] :=
  added_of_contribution (contribution_of_not_isRun hrun)

theorem enabled_of_mem_added {f : Finding} (hbuiltin : evaluator ∈ builtinEvaluators)
    (h : run.failure? evaluator = none) (hf : f ∈ run.added evaluator) :
    (run.context evaluator.category).enabled f.ruleId = true := by
  obtain ⟨batch, hbatch, hmem⟩ := mem_batch_of_mem_added h hf
  obtain ⟨remark, -, hfinding⟩ := exists_accepts_of_builtin hbuiltin hbatch f hmem
  obtain ⟨-, -, -, -, henabled⟩ := Context.of_finding_eq_ok hfinding
  exact henabled

section Excluding

variable {looksAt : String × Int × Int → Bool}

/-- What a built-in evaluator adds to a run with further exclusions. -/
theorem restricts_added_excluding (hids : exclusionIds ids = ids)
    (hlooks : ∀ key ∈ run.fallbackKeys ids, looksAt key = false)
    (hbuiltin : evaluator ∈ builtinEvaluators) (hfull : run.failure? evaluator = none)
    (hexcluding : (run.excluding ids).failure? evaluator = none) :
    ((run.excluding ids).added evaluator).Restricts (fun id => !ids.contains id) looksAt
      (run.added evaluator) := by
  have hcontext : (run.excluding ids).context evaluator.category = _ := context_excluding hids _
  cases hrun' : (run.excluding ids).isRun evaluator with
  | false =>
    -- No rule is left for the evaluator, so whatever it found before is excluded.
    rw [added_of_not_isRun hrun']
    refine .nil fun f hf => ?_
    have hleft : ((run.excluding ids).context evaluator.category).enabled f.ruleId = false := by
      have hnone := List.length_eq_zero_iff.mp (size_eq_zero_iff.mpr hrun')
      simp [Context.enabled, context, RuleSet.contains, RuleSet.ids, hnone]
    rw [hcontext, Context.enabled_restrict, enabled_of_mem_added hbuiltin hfull hf,
      Bool.true_and] at hleft
    exact hleft
  | true =>
    -- Rules that are left were there before, so the evaluator was run before as well.
    have hrun : run.isRun evaluator = true := by
      by_contra hnot
      have hnone := size_eq_zero_iff.mpr (Bool.eq_false_iff.mpr hnot)
      have hrules := congrArg (fun context => context.rules.rules) hcontext
      simp only [context, Context.restrict, RuleSet.rules_filter,
        List.length_eq_zero_iff.mp hnone, List.filter_nil] at hrules
      have hsize := size_eq_zero_iff.mp (List.length_eq_zero_iff.mpr hrules)
      rw [hrun'] at hsize
      cases hsize
    have hevaluate := evaluate_eq_ok_of_isRun hrun' hexcluding
    rw [hcontext] at hevaluate
    have hlooks : ∀ key ∈ (run.context evaluator.category).unit.fallbackKeys
        fun id => run.rules.contains id && ids.contains id, looksAt key = false := hlooks
    refine restricts_of_builtin hbuiltin (fun id henabled hkeeps => ?_) hlooks
      (evaluate_eq_ok_of_isRun hrun hfull) hevaluate
    obtain ⟨rule, hmem, rfl⟩ := (RuleSet.contains_iff _).mp henabled
    have henabled : run.rules.contains rule.id = true :=
      (RuleSet.contains_iff _).mpr ⟨rule, (List.mem_filter.mp hmem).1, rfl⟩
    rw [henabled, Bool.true_and]
    simpa using hkeeps

/-- What a run with further exclusions gathers. -/
theorem restricts_gathered_excluding (hids : exclusionIds ids = ids)
    (hlooks : ∀ key ∈ run.fallbackKeys ids, looksAt key = false)
    (hbuiltin : run.evaluators = builtinEvaluators)
    (hfull : ∀ evaluator ∈ run.evaluators, run.failure? evaluator = none)
    (hexcluding : ∀ evaluator ∈ run.evaluators, (run.excluding ids).failure? evaluator = none) :
    (run.excluding ids).gathered.Restricts (fun id => !ids.contains id) looksAt run.gathered :=
  .flatMap fun evaluator he => restricts_added_excluding hids hlooks (hbuiltin ▸ he)
    (hfull evaluator he) (hexcluding evaluator he)

end Excluding

end Run

namespace Findings.Restricts

variable {keeps : String → Bool} {looksAt : String × Int × Int → Bool} {full restricted : Findings}
  {unit : SourceUnit}

/-- Results show the same at the places that are looked at. -/
theorem map_entry_result (h : restricted.Restricts keeps looksAt full) :
    ((restricted.result unit).findings.filter fun f => looksAt f.key).map Finding.entry =
      ((full.result unit).findings.filter fun f => keeps f.ruleId && looksAt f.key).map
        Finding.entry := by
  let chooses : String × Int × Int → Bool := fun key => keeps key.1 && looksAt key
  calc ((restricted.result unit).findings.filter fun f => looksAt f.key).map Finding.entry
      = (restricted.ordered.filter fun f => looksAt f.key).map Finding.entry :=
        Findings.map_entry_filter_result looksAt
    _ = (Findings.ordered (full.filter fun f => chooses f.key)).map Finding.entry := by
        rw [← Findings.ordered_filter_key, h.filtered]
        rfl
    _ = (full.ordered.filter fun f => chooses f.key).map Finding.entry := by
        rw [Findings.ordered_filter_key]
    _ = ((full.result unit).findings.filter fun f => chooses f.key).map Finding.entry :=
        (Findings.map_entry_filter_result chooses).symm

/-- Nothing that is kept gets lost. -/
theorem exists_mem_result (h : restricted.Restricts keeps looksAt full) {f : Finding}
    (hf : f ∈ (full.result unit).findings) (hkeeps : keeps f.ruleId = true) :
    ∃ g ∈ (restricted.result unit).findings, g.key = f.key := by
  obtain ⟨g, hg, hkey⟩ := Findings.exists_mem_of_mem_result hf
  have hrule : g.ruleId = f.ruleId := congrArg Prod.fst hkey
  rw [← hkey]
  exact Findings.exists_mem_result_of_mem (h.subset g hg (hrule ▸ hkeeps))

/-- All that is found is under a rule that is kept. -/
theorem keeps_of_mem_result (h : restricted.Restricts keeps looksAt full) {f : Finding}
    (hf : f ∈ (restricted.result unit).findings) : keeps f.ruleId = true := by
  obtain ⟨g, hg, hkey⟩ := Findings.exists_mem_of_mem_result hf
  have hrule : g.ruleId = f.ruleId := congrArg Prod.fst hkey
  exact hrule ▸ h.kept g hg

end Findings.Restricts

/-! ## Runs with further exclusions -/

section Runs

variable {run : Run} {ids : List String}

/-- The two runs, for any choice of places without those at which a rule has its turn because
another is excluded. -/
theorem exists_restricts_of_analyze (hids : exclusionIds ids = ids)
    {looksAt : String × Int × Int → Bool}
    (hlooks : ∀ key ∈ run.fallbackKeys ids, looksAt key = false)
    (hbuiltin : run.evaluators = builtinEvaluators)
    (hproceeds : ∀ poll, run.isCancelled poll = false)
    (hfull : ∀ evaluator ∈ run.evaluators, run.failure? evaluator = none)
    (hexcluding : ∀ evaluator ∈ run.evaluators, (run.excluding ids).failure? evaluator = none) :
    ∃ full restricted : Findings, analyze run = .ok (full.result run.unit) ∧
      analyze (run.excluding ids) = .ok (restricted.result run.unit) ∧
      restricted.Restricts (fun id => !ids.contains id) looksAt full :=
  ⟨_, _, Run.analyze_eq_ok_of_failure_eq_none hproceeds hfull,
    Run.analyze_eq_ok_of_failure_eq_none hproceeds hexcluding,
    Run.restricts_gathered_excluding hids hlooks hbuiltin hfull hexcluding⟩

/-- **Excluding rules is a filter, apart from the places at which one rule has its turn because
another is excluded.**  Where no built-in evaluator fails, both runs have a result; at all other
places the findings of the run with exclusions are those of the run without that are not under an
excluded rule, in the same order; and at the places apart nothing gets lost either. -/
theorem analyze_excluding (hregistry : run.registry = packagedRegistry)
    (hbuiltin : run.evaluators = builtinEvaluators)
    (hproceeds : ∀ poll, run.isCancelled poll = false)
    (hids : ∀ id ∈ ids, id ∈ run.registry.ids)
    (hfull : ∀ evaluator ∈ run.evaluators, run.failure? evaluator = none)
    (hexcluding : ∀ evaluator ∈ run.evaluators, (run.excluding ids).failure? evaluator = none) :
    ∃ full reduced, analyze run = .ok full ∧ analyze (run.excluding ids) = .ok reduced ∧
      (reduced.findings.filter fun f => !(run.fallbackKeys ids).contains f.key).map Finding.entry =
        (full.findings.filter fun f =>
          !ids.contains f.ruleId && !(run.fallbackKeys ids).contains f.key).map Finding.entry ∧
      (∀ f ∈ reduced.findings, f.ruleId ∉ ids) ∧
      ∀ f ∈ full.findings, f.ruleId ∉ ids → ∃ g ∈ reduced.findings, g.key = f.key := by
  rw [hregistry] at hids
  have hlooks : ∀ key ∈ run.fallbackKeys ids, (!(run.fallbackKeys ids).contains key) = false :=
    fun key hkey => by simpa using hkey
  obtain ⟨full, restricted, hanalyze, hanalyze', hrestricts⟩ := exists_restricts_of_analyze
    (exclusionIds_of_packaged hids) hlooks hbuiltin hproceeds hfull hexcluding
  refine ⟨_, _, hanalyze, hanalyze', hrestricts.map_entry_result, fun f hf => ?_,
    fun f hf hmem => ?_⟩
  · simpa using hrestricts.keeps_of_mem_result hf
  · exact hrestricts.exists_mem_result hf (by simpa using hmem)

/-- **Excluding rules is a filter** when with a rule of documentation that is tried first also the
one is excluded that is tried next. -/
theorem analyze_excluding_of_closed (hregistry : run.registry = packagedRegistry)
    (hbuiltin : run.evaluators = builtinEvaluators)
    (hproceeds : ∀ poll, run.isCancelled poll = false)
    (hids : ∀ id ∈ ids, id ∈ run.registry.ids)
    (hsentence : "DOC001" ∈ ids → "DOC003" ∈ ids) (hdetached : "DOC004" ∈ ids → "DOC001" ∈ ids)
    (hfull : ∀ evaluator ∈ run.evaluators, run.failure? evaluator = none)
    (hexcluding : ∀ evaluator ∈ run.evaluators, (run.excluding ids).failure? evaluator = none) :
    ∃ full reduced, analyze run = .ok full ∧ analyze (run.excluding ids) = .ok reduced ∧
      reduced.findings.map Finding.entry =
        (full.findings.filter fun f => !ids.contains f.ruleId).map Finding.entry := by
  rw [hregistry] at hids
  -- The rule that has its turn is excluded too, so it is enough to look at the other rules.
  have hlooks : ∀ key ∈ run.fallbackKeys ids, (!ids.contains key.1) = false := by
    intro key hkey
    obtain ⟨decl, -, hkey⟩ := List.mem_flatMap.mp hkey
    unfold Declaration.fallbackKeys at hkey
    grind
  obtain ⟨full, restricted, hanalyze, hanalyze', hrestricts⟩ := exists_restricts_of_analyze
    (exclusionIds_of_packaged hids) hlooks hbuiltin hproceeds hfull hexcluding
  refine ⟨_, _, hanalyze, hanalyze', ?_⟩
  have hall : (restricted.result run.unit).findings.filter (fun f => !ids.contains f.ruleId) =
      (restricted.result run.unit).findings :=
    List.filter_eq_self.mpr fun f hf => hrestricts.keeps_of_mem_result hf
  rw [← hall]
  refine hrestricts.map_entry_result.trans ?_
  simp only [Finding.key, Bool.and_self]

end Runs

/-! ## A comment that is read as a sentence -/

/-- A package with an exported constant, whose name has a low line and whose comment neither starts
with the name nor is a sentence. -/
def unnamedCommentText : SourceText where
  path := "p.go"
  text := "// Package p.\npackage p\n\n// holds one\nconst A_b = 1\n"

def unnamedCommentRun : Run where
  unit := {
    toSourceText := unnamedCommentText
    packageName := "p"
    packageSpan := unnamedCommentText.spanOf 14 23
    packageDoc := some ⟨unnamedCommentText.spanOf 0 13, ["// Package p."]⟩
    declarations :=
      [{ name := "p", kind := .package, exported := false, scope := 0
         span := unnamedCommentText.spanOf 14 23, nameSpan := unnamedCommentText.spanOf 22 23 },
       { name := "A_b", kind := .constant, exported := true, scope := 0
         span := unnamedCommentText.spanOf 38 51, nameSpan := unnamedCommentText.spanOf 44 47
         doc := some ⟨unnamedCommentText.spanOf 25 37, ["// holds one"]⟩ }]
    scopes := [⟨0, .file, unnamedCommentText.wholeSpan, none, 0, [], [0, 1]⟩]
    comments := [⟨unnamedCommentText.spanOf 0 13, ["// Package p."]⟩,
      ⟨unnamedCommentText.spanOf 25 37, ["// holds one"]⟩]
    imports := []
    identifiers := [⟨"A_b", unnamedCommentText.spanOf 44 47, false⟩]
    calls := [] }

/-- No evaluator fails, with and without the rule for the form of the comment. -/
theorem failure?_unnamedCommentRun : ∀ evaluator ∈ unnamedCommentRun.evaluators,
    unnamedCommentRun.failure? evaluator = none ∧
      (unnamedCommentRun.excluding ["DOC001"]).failure? evaluator = none := by
  have hspans : unnamedCommentRun.unit.SpansInside := by decide +kernel
  have hcomplete : unnamedCommentRun.unit.Complete := {
    package := ⟨_, List.mem_cons_self, rfl⟩
    declarationScopes := by decide +kernel
    callScopes := List.forall_mem_nil _
    parents := by decide +kernel
    literals := List.forall_mem_nil _
    commentLines := fun _ => CommentBlock.lines_ne_nil
    lineStarts := Text.length_lineStarts _ }
  have hbands : unnamedCommentRun.settings.scopeBands ≠ [] := List.cons_ne_nil _ _
  exact fun evaluator he => ⟨Run.failure?_eq_none_of_builtin hspans hcomplete hbands he,
    Run.failure?_eq_none_of_builtin hspans hcomplete hbands he⟩

/-- The comment is remarked upon for its form, and without that rule as a sentence. -/
theorem exists_results_unnamedCommentRun : ∃ full reduced, analyze unnamedCommentRun = .ok full ∧
    analyze (unnamedCommentRun.excluding ["DOC001"]) = .ok reduced ∧
    full.findings.map (·.ruleId) = ["DOC001", "NAM001"] ∧
    reduced.findings.map (·.ruleId) = ["DOC003", "NAM001"] := by
  have hrules : ((analyze unnamedCommentRun).toOption.map (·.findings.map (·.ruleId)),
      (analyze (unnamedCommentRun.excluding ["DOC001"])).toOption.map
        (·.findings.map (·.ruleId))) =
      (some ["DOC001", "NAM001"], some ["DOC003", "NAM001"]) := by decide +kernel
  obtain ⟨hfull, hreduced⟩ := Prod.mk.inj hrules
  obtain ⟨full, hfull, hrules⟩ := Option.map_eq_some_iff.mp hfull
  obtain ⟨reduced, hreduced, hrules'⟩ := Option.map_eq_some_iff.mp hreduced
  exact ⟨full, reduced, toOption_eq_some.mp hfull, toOption_eq_some.mp hreduced, hrules, hrules'⟩

theorem analyze_excluding_unnamedCommentRun : ∃ full reduced,
    analyze unnamedCommentRun = .ok full ∧
      analyze (unnamedCommentRun.excluding ["DOC001"]) = .ok reduced ∧
      full.findings.map (·.ruleId) = ["DOC001", "NAM001"] ∧
      reduced.findings.map (·.ruleId) = ["DOC003", "NAM001"] ∧
      (reduced.findings.filter fun f => f.key != ("DOC003", 25, 37)).map Finding.entry =
        (full.findings.filter fun f =>
          !(["DOC001"].contains f.ruleId) && f.key != ("DOC003", 25, 37)).map Finding.entry := by
  obtain ⟨full, reduced, hfull, hreduced, hrules, hrules'⟩ := exists_results_unnamedCommentRun
  obtain ⟨_, _, hanalyze, hanalyze', hentries, -⟩ :=
    analyze_excluding rfl rfl (fun _ => rfl) (by decide +kernel)
      (fun evaluator he => (failure?_unnamedCommentRun evaluator he).1)
      fun evaluator he => (failure?_unnamedCommentRun evaluator he).2
  obtain rfl := Except.ok.inj (hfull.symm.trans hanalyze)
  obtain rfl := Except.ok.inj (hreduced.symm.trans hanalyze')
  have hkeys : unnamedCommentRun.fallbackKeys ["DOC001"] = [("DOC003", 25, 37)] := by
    decide +kernel
  refine ⟨_, _, hfull, hreduced, hrules, hrules', ?_⟩
  simpa [hkeys, bne, beq_eq_decide] using hentries

/-- **Excluding a rule may make a finding of another rule come up.** -/
theorem not_forall_excluding :
    ¬ ∀ (unit : SourceUnit) (settings : Settings) (ids : List String) (full reduced : FileResult),
      (∀ id ∈ ids, id ∈ packagedRegistry.ids) →
      (∀ evaluator ∈ builtinEvaluators,
        Run.failure? { unit, settings } evaluator = none ∧
          Run.failure? { unit, settings, exclude := ids } evaluator = none) →
      analyze { unit, settings } = .ok full →
      analyze { unit, settings, exclude := ids } = .ok reduced →
      reduced.findings.map Finding.entry =
        (full.findings.filter fun f => !ids.contains f.ruleId).map Finding.entry := by
  intro hall
  obtain ⟨full, reduced, hfull, hreduced, hrules, hrules'⟩ := exists_results_unnamedCommentRun
  have heq := hall unnamedCommentRun.unit {} ["DOC001"] full reduced (by decide +kernel)
    failure?_unnamedCommentRun hfull hreduced
  -- The finding that comes up is not among those of the full run.
  have hmem : "DOC003" ∈ (reduced.findings.map Finding.entry).map Prod.fst := by
    rw [List.map_map]
    exact hrules' ▸ List.mem_cons_self
  rw [heq, List.map_map] at hmem
  obtain ⟨f, hf, hrule⟩ := List.mem_map.mp hmem
  have hfull : "DOC003" ∈ full.findings.map (·.ruleId) :=
    List.mem_map.mpr ⟨f, (List.mem_filter.mp hf).1, hrule⟩
  simp [hrules] at hfull

end GoConventions
