import GoConventions.Proofs.Convention.Restriction

/-!
# The rules that an evaluator states

A built-in evaluator asks about a rule before it states a remark under it, and it asks about a few
rules only.  So a finding tells by its rule which evaluator it comes from, whatever category the
catalog puts the rule in.

To see this the rules of an evaluator are left out: then nothing is left for it to state
(`evaluate_eq_nil_of_skips`), and of what it states otherwise, all that is not under these rules
would still be there.

## Main definitions

* `Category.statedRules`: the rules under which the evaluator of a category states its remarks.

## Main results

* `ruleId_mem_statedRules`: the findings of a built-in evaluator are under its rules.
-/

namespace GoConventions

/-- The rules under which the built-in evaluator of a category states its remarks. -/
def Category.statedRules : Category → List String
  | .naming =>
    ["NAM001", "NAM002", "NAM003", "NAM004", "NAM005", "NAM006", "NAM007", "NAM008"]
  | .errorHandling => ["ERR001", "ERR002", "ERR003", "ERR004", "ERR005", "ERR006"]
  | .imports => ["IMP001", "IMP002", "IMP003", "IMP004", "IMP005"]
  | .documentation => ["DOC001", "DOC002", "DOC003", "DOC004"]
  | .organization => ["ORG001", "ORG002", "ORG003", "ORG004", "ORG005"]
  | .formatting => ["FMT001", "FMT002", "FMT003"]
  | .internal => []

variable {context : Context} {evaluator : Evaluator} {findings : List Finding}

/-- None of the rules of a category is checked. -/
def Context.Skips (context : Context) (category : Category) : Prop :=
  ∀ id ∈ category.statedRules, context.enabled id = false

theorem Context.Skips.whenEnabled_eq_nil {category : Category} {id : String}
    (h : context.Skips category) (hid : id ∈ category.statedRules) {α : Type} (stated : List α) :
    context.whenEnabled id stated = [] := by
  rw [whenEnabled, h id hid, if_neg Bool.false_ne_true]

theorem Context.skips_restrict (context : Context) (category : Category) :
    (context.restrict fun id => !category.statedRules.contains id).Skips category := by
  intro id hid
  rw [enabled_restrict, List.contains_iff_mem.mpr hid, Bool.not_true, Bool.and_false]

section Silence

theorem namingChecks_eq_nil (h : context.Skips .naming) : namingChecks context = [] := by
  simp (disch := decide) [namingChecks, h.whenEnabled_eq_nil]

theorem errorChecks_eq_nil (h : context.Skips .errorHandling) : errorChecks context = [] := by
  have hcalls : ∀ names call, callChecks context names call = [] := by
    intro names call
    unfold callChecks
    split <;> split <;> simp (disch := decide) [h.whenEnabled_eq_nil]
  simp (disch := decide) [errorChecks, hcalls, h.whenEnabled_eq_nil]

theorem importDeclRemarks_eq_nil (h : context.Skips .imports) (decl : ImportDecl) :
    importDeclRemarks context decl = .ok [] := by
  have hentries : decl.entries.flatMap (entryRemarks context) = [] := by
    simp (disch := decide) [entryRemarks, h.whenEnabled_eq_nil]
  refine importDeclRemarks_eq_ok.mpr ⟨[], ?_, by rw [hentries, List.nil_append]⟩
  rw [h "IMP001" (by decide), Bool.false_and, if_neg Bool.false_ne_true]

theorem documentationRemarks_eq_nil (h : context.Skips .documentation) :
    documentationRemarks context = [] := by
  have hdecls : ∀ decl, declarationRemarks context decl = [] := by
    intro decl
    simp only [declarationRemarks, documentedRemarks, undocumentedRemarks, h "DOC001" (by decide),
      h "DOC004" (by decide), Bool.false_and, Bool.and_false, if_neg Bool.false_ne_true]
    split
    · exact h.whenEnabled_eq_nil (by decide) _
    · split <;> split <;> first | rfl | exact h.whenEnabled_eq_nil (by decide) _
  simp (disch := decide) [documentationRemarks, hdecls, h.whenEnabled_eq_nil]

theorem organizationChecks_eq_nil (h : context.Skips .organization) :
    organizationChecks context = [] := by
  simp (disch := decide) [organizationChecks, functionRemarks, h.whenEnabled_eq_nil]

theorem layoutRemarks_eq_nil (h : context.Skips .formatting) : layoutRemarks context = [] := by
  have hlines : ∀ comments number start line,
      lineRemark? context comments number start line = none := by
    intro comments number start line
    unfold lineRemark?
    dsimp only
    split
    · rfl
    · split <;> simp [h "FMT001" (by decide), h "FMT002" (by decide)]
  simp (disch := decide) [layoutRemarks, hlines, h.whenEnabled_eq_nil]

end Silence

/-- **An evaluator without its rules states nothing.** -/
theorem evaluate_eq_nil_of_skips (hbuiltin : evaluator ∈ builtinEvaluators)
    (h : context.Skips evaluator.category) : evaluator.evaluate context = .ok [] := by
  have hnothing : ∀ {remarks : List Remark}, remarks = [] → context.findings remarks = .ok [] := by
    rintro _ rfl
    rfl
  have hunchecked : ∀ {category : Category} {checks : Context → List Check}, checks context = [] →
      (Evaluator.ofChecks category checks).evaluate context = .ok [] := by
    intro category checks hchecks
    refine Evaluator.ofChecks_eq_ok.mpr ⟨?_, ?_⟩ <;> rw [hchecks]
    · exact .nil
    · rfl
  simp only [builtinEvaluators, List.mem_cons, List.not_mem_nil, or_false] at hbuiltin
  rcases hbuiltin with rfl | rfl | rfl | rfl | rfl | rfl
  case inr.inr.inl =>
    obtain ⟨remarks, hremarks⟩ := exists_mapM_eq_ok fun decl (_ : decl ∈ context.unit.imports) =>
      ⟨_, importDeclRemarks_eq_nil h decl⟩
    refine importsEvaluator_eq_ok.mpr ⟨remarks, hremarks, hnothing ?_⟩
    refine List.flatten_eq_nil_iff.mpr fun stated hstated => ?_
    obtain ⟨decl, -, hdecl⟩ := of_mem_mapM hremarks hstated
    exact Except.ok.inj (hdecl.symm.trans (importDeclRemarks_eq_nil h decl))
  · exact hunchecked (namingChecks_eq_nil h)
  · exact hunchecked (errorChecks_eq_nil h)
  · exact hnothing (documentationRemarks_eq_nil h)
  · exact hunchecked (organizationChecks_eq_nil h)
  · exact hnothing (layoutRemarks_eq_nil h)

/-- **The findings of a built-in evaluator are under its rules.** -/
theorem ruleId_mem_statedRules (hbuiltin : evaluator ∈ builtinEvaluators)
    (h : evaluator.evaluate context = .ok findings) {f : Finding} (hf : f ∈ findings) :
    f.ruleId ∈ evaluator.category.statedRules := by
  by_contra hother
  -- All other rules are kept, and the finding with them, though nothing is stated then.
  have hdropped : ∀ id, context.enabled id = true →
      (!evaluator.category.statedRules.contains id) = false → (fun _ => true) id = true :=
    fun _ _ _ => rfl
  have hlooks : ∀ key ∈ context.unit.fallbackKeys fun _ => true, (fun _ => false) key = false :=
    fun _ _ => rfl
  have hrestricts := restricts_of_builtin hbuiltin hdropped hlooks h
    (evaluate_eq_nil_of_skips hbuiltin (context.skips_restrict _))
  have hmem := hrestricts.subset f hf (by simpa using hother)
  cases hmem

end GoConventions
