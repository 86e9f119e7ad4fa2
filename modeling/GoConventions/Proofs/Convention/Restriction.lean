import GoConventions.Proofs.Convention.Remarks

/-!
# Evaluators under fewer rules

A remark is stated under one rule, and most evaluators ask about the rule just before they state the
remark.  Where some rules are left out, such an evaluator states what it stated before, without the
remarks under those rules (`Filtered`).

The documentation of an exported declaration is different: the rules are tried one after the other,
and the next one has its turn also when the one before it is left out.  That happens at few places,
which are known from the declaration alone (`Declaration.fallbackKeys`): at a comment that does not
start with the name of its declaration, and at a declaration whose comment is detached.  Everywhere
else leaving out rules is a filter here too (`filteredAt_documentationRemarks`).

## Main definitions

* `Context.restrict`: a context with some of its rules left out.
* `Filtered`: what is left of remarks under fewer rules.
* `FilteredAt`, `Findings.Restricts`: the same at some places, of remarks and of findings.
* `SourceUnit.fallbackKeys`: the places at which one rule has its turn because another is left out.

## Main results

* `restricts_of_builtin`: what a built-in evaluator finds under fewer rules.
-/

namespace GoConventions

variable {context : Context} {keeps : String → Bool} {id : String}

/-! ## Fewer rules -/

namespace Context

/-- The context with only those rules whose identifier is kept. -/
def restrict (context : Context) (keeps : String → Bool) : Context :=
  { context with rules := context.rules.filter fun rule => keeps rule.id }

@[simp] theorem restrict_unit : (context.restrict keeps).unit = context.unit := rfl

@[simp] theorem restrict_settings : (context.restrict keeps).settings = context.settings := rfl

theorem enabled_restrict (id : String) :
    (context.restrict keeps).enabled id = (context.enabled id && keeps id) := by
  rw [Bool.eq_iff_iff, Bool.and_eq_true]
  simp only [enabled, RuleSet.contains_iff, restrict, RuleSet.rules_filter, List.mem_filter]
  constructor
  · rintro ⟨rule, ⟨hmem, hkeeps⟩, rfl⟩
    exact ⟨⟨rule, hmem, rfl⟩, hkeeps⟩
  · rintro ⟨⟨rule, hmem, rfl⟩, hkeeps⟩
    exact ⟨rule, ⟨hmem, hkeeps⟩, rfl⟩

/-- A rule that is kept is found as before. -/
theorem get?_restrict (h : keeps id = true) :
    (context.restrict keeps).rules.get? id = context.rules.get? id := by
  refine Option.ext fun rule => ?_
  rw [RuleSet.get?_eq_some_iff, RuleSet.get?_eq_some_iff, restrict, RuleSet.rules_filter,
    List.mem_filter, and_assoc]
  refine and_congr_right fun _ => and_iff_right_of_imp ?_
  rintro rfl
  exact h

theorem finding_restrict {remark : Remark} (h : keeps remark.ruleId = true) :
    (context.restrict keeps).finding remark = context.finding remark := by
  rw [finding, finding, get?_restrict h]
  rfl

end Context

/-! ## Remarks under rules -/

/-- What is left of remarks when only the rules that are kept are checked. -/
def Filtered (keeps : String → Bool) (restricted full : List Remark) : Prop :=
  restricted = full.filter fun remark => keeps remark.ruleId

namespace Filtered

variable {xs xs' ys ys' : List Remark}

theorem append (hx : Filtered keeps xs' xs) (hy : Filtered keeps ys' ys) :
    Filtered keeps (xs' ++ ys') (xs ++ ys) := by
  rw [Filtered, List.filter_append, ← hx, ← hy]

theorem flatMap {α : Type} {f f' : α → List Remark} {xs : List α}
    (h : ∀ x ∈ xs, Filtered keeps (f' x) (f x)) :
    Filtered keeps (xs.flatMap f') (xs.flatMap f) := by
  rw [Filtered, List.filter_flatMap]
  exact List.flatMap_congr h

/-- Remarks that are stated only when their rule is enabled. -/
theorem whenEnabled {unit : SourceUnit} (h : AllMeet unit id xs) :
    Filtered keeps ((context.restrict keeps).whenEnabled id xs) (context.whenEnabled id xs) := by
  have hkeeps : (xs.filter fun remark => keeps remark.ruleId) = if keeps id then xs else [] := by
    rw [List.filter_congr fun remark hremark => by rw [(h remark hremark).ruleId_eq]]
    cases keeps id <;> simp
  unfold Filtered Context.whenEnabled
  rw [Context.enabled_restrict]
  cases context.enabled id <;> cases hid : keeps id <;> simp [hkeeps, hid]

theorem nil : Filtered keeps [] [] := rfl

end Filtered

/-! ## Naming and errors -/

theorem filtered_namingRemarks :
    Filtered keeps (remarksOf (namingChecks (context.restrict keeps)))
      (remarksOf (namingChecks context)) := by
  simp only [namingChecks, remarksOf_append, remarksOf_flatMap, remarksOf_whenEnabled,
    remarksOf_map_pure, List.filterMap_some]
  refine .append (.append (.append (.append ?_ ?_) (.append (.append ?_ ?_) ?_)) ?_) ?_
  · exact .whenEnabled allMeet_packageNameRemark?
  · refine .flatMap fun decl hdecl => ?_
    have hdeclares := SourceUnit.declares_of_isNamed hdecl
    exact .append (.whenEnabled (allMeet_mixedCapsRemark? hdeclares))
      (.whenEnabled (allMeet_initialismRemark? hdeclares))
  · exact .whenEnabled allMeet_stutterRemarks
  · exact .whenEnabled (allMeet_receiverRemarks _ _ context.unit.functions_subset)
  · exact .whenEnabled
      (.filterMap fun decl hdecl => allMeet_genericReceiverRemark? (List.mem_of_mem_filter hdecl))
  · exact .whenEnabled (.remarksOf_map fun decl hdecl =>
      allMeet_lengthRemark? (List.mem_of_mem_filter (List.mem_of_mem_filter hdecl)))
  · exact .whenEnabled (.remarksOf_map fun decl hdecl =>
      allMeet_getterRemark? (SourceUnit.declares_of_mem_functions hdecl))

theorem filtered_callRemarks (exportedNames : List String) {call : CallSite}
    (hcall : call ∈ context.unit.calls) :
    Filtered keeps (remarksOf (callChecks (context.restrict keeps) exportedNames call))
      (remarksOf (callChecks context exportedNames call)) := by
  rw [remarksOf_callChecks, remarksOf_callChecks]
  refine .append (.append (.whenEnabled (allMeet_discardRemark? hcall)) ?_) ?_
  · split
    case h_1 literal text htext =>
      have hliteral := mem_args_of_errorText? htext
      exact .append (.whenEnabled (allMeet_errorTextRemark? exportedNames text hcall hliteral))
        (.whenEnabled (allMeet_wrapRemark? text hcall hliteral))
    case h_2 => exact .nil
  · split
    · exact .whenEnabled (allMeet_panicRemark? hcall)
    · exact .nil

theorem filtered_errorRemarks :
    Filtered keeps (remarksOf (errorChecks (context.restrict keeps)))
      (remarksOf (errorChecks context)) := by
  simp only [errorChecks, remarksOf_append, remarksOf_flatMap, remarksOf_whenEnabled,
    remarksOf_map_pure]
  refine .append (.append ?_ ?_) (.flatMap fun call hcall => filtered_callRemarks _ hcall)
  · exact .whenEnabled
      (.filterMap fun decl hdecl => allMeet_errorLastRemark? (List.mem_of_mem_filter hdecl))
  · exact .whenEnabled (.filterMap fun decl hdecl => allMeet_sentinelRemark? hdecl)

/-! ## Imports -/

theorem filtered_entryRemarks {decl : ImportDecl} {entry : ImportEntry}
    (hdecl : decl ∈ context.unit.imports) (hentry : entry ∈ decl.entries) :
    Filtered keeps (entryRemarks (context.restrict keeps) entry) (entryRemarks context entry) :=
  .append (.append (.append (.whenEnabled (allMeet_dotImportRemark? hdecl hentry))
    (.whenEnabled (allMeet_sideEffectRemark? hdecl hentry)))
    (.whenEnabled (allMeet_redundantAliasRemark? hdecl hentry)))
    (.whenEnabled (allMeet_generatedAliasRemark? _ hdecl hentry))

/-- Where the groups of a declaration are not looked at, nothing fails. -/
theorem importDeclRemarks_restrict {decl : ImportDecl} {remarks : List Remark}
    (hdecl : decl ∈ context.unit.imports) (h : importDeclRemarks context decl = .ok remarks) :
    importDeclRemarks (context.restrict keeps) decl =
      .ok (remarks.filter fun remark => keeps remark.ruleId) := by
  obtain ⟨grouping, hgrouping, rfl⟩ := importDeclRemarks_eq_ok.mp h
  have hentries : Filtered keeps (decl.entries.flatMap (entryRemarks (context.restrict keeps)))
      (decl.entries.flatMap (entryRemarks context)) :=
    .flatMap fun entry hentry => filtered_entryRemarks hdecl hentry
  rw [List.filter_append, ← hentries]
  refine importDeclRemarks_eq_ok.mpr ⟨grouping.filter fun remark => keeps remark.ruleId, ?_, rfl⟩
  rw [Context.enabled_restrict]
  -- The groups are looked at when they were looked at before and their rule is kept.
  split at hgrouping
  case isTrue hcond =>
    obtain ⟨henabled, hparenthesized⟩ := Bool.and_eq_true_iff.mp hcond
    rw [henabled, hparenthesized, Bool.true_and, Bool.and_true]
    rw [List.filter_congr fun remark hremark => by
      rw [(allMeet_groupingRemarks hdecl hgrouping remark hremark).ruleId_eq]]
    cases keeps "IMP001" with
    | true =>
      rw [if_pos rfl, List.filter_true]
      exact hgrouping
    | false =>
      rw [if_neg Bool.false_ne_true, List.filter_false]
  case isFalse hcond =>
    obtain rfl := Except.ok.inj hgrouping
    have hnot : ¬ ((context.enabled "IMP001" && keeps "IMP001") && decl.parenthesized) = true := by
      intro hyes
      simp only [Bool.and_eq_true] at hyes hcond
      exact hcond ⟨hyes.1.1, hyes.2⟩
    rw [if_neg hnot]
    rfl

theorem mapM_importDeclRemarks_restrict {decls : List ImportDecl} {remarks : List (List Remark)}
    (hdecls : decls ⊆ context.unit.imports)
    (h : decls.mapM (importDeclRemarks context) = .ok remarks) :
    decls.mapM (importDeclRemarks (context.restrict keeps)) =
      .ok (remarks.map fun xs => xs.filter fun remark => keeps remark.ruleId) := by
  induction decls generalizing remarks with
  | nil =>
    obtain rfl := Except.ok.inj h
    rfl
  | cons decl decls ih =>
    obtain ⟨hdecl, hrest⟩ := List.cons_subset.mp hdecls
    obtain ⟨first, rest, hfirst, hok, rfl⟩ := mapM_cons_eq_ok.mp h
    exact mapM_cons_eq_ok.mpr
      ⟨_, _, importDeclRemarks_restrict hdecl hfirst, ih hrest hok, List.map_cons⟩

/-! ## Documentation -/

/-- What makes the findings for two remarks the same. -/
def Remark.key (remark : Remark) : String × Int × Int :=
  (remark.ruleId, remark.span.start.offset, remark.span.stop.offset)

/-- The place at which a rule has its turn on a declaration because one of the given rules is left
out: a comment is read as a sentence when it does not have to start with the name, and a comment is
asked for when the one that is detached does not count. -/
def Declaration.fallbackKeys (dropped : String → Bool) (decl : Declaration) :
    List (String × Int × Int) :=
  match decl.doc with
  | some doc =>
    if dropped "DOC001" && !startsWithName doc decl.name then
      [("DOC003", doc.span.start.offset, doc.span.stop.offset)]
    else []
  | none =>
    match decl.detachedDoc with
    | some detached =>
      if dropped "DOC004" && startsWithName detached decl.name then
        [("DOC001", decl.span.start.offset, decl.span.stop.offset)]
      else []
    | none => []

/-- The places in a file at which a rule has its turn because another one is left out. -/
def SourceUnit.fallbackKeys (unit : SourceUnit) (dropped : String → Bool) :
    List (String × Int × Int) :=
  unit.exportedDeclarations.flatMap (Declaration.fallbackKeys dropped)

theorem span_of_mem_sentenceRemark? {unit : SourceUnit} {comment : CommentBlock} {remark : Remark}
    (h : remark ∈ (sentenceRemark? unit comment).toList) : remark.span = comment.span := by
  grind [sentenceRemark?]

/-- What is left of remarks when only the rules that are kept are checked, at the places that are
looked at; elsewhere there may be more remarks than before, but not fewer. -/
structure FilteredAt (keeps : String → Bool) (looksAt : String × Int × Int → Bool)
    (restricted full : List Remark) : Prop where
  filtered : (restricted.filter fun remark => looksAt remark.key) =
    full.filter fun remark => keeps remark.ruleId && looksAt remark.key
  subset : ∀ remark ∈ full, keeps remark.ruleId = true → remark ∈ restricted

namespace FilteredAt

variable {looksAt : String × Int × Int → Bool} {xs xs' ys ys' : List Remark}

theorem of_filtered (h : Filtered keeps xs' xs) : FilteredAt keeps looksAt xs' xs where
  filtered := by
    rw [h, List.filter_filter]
    simp only [Bool.and_comm]
  subset remark hremark hkeeps := h ▸ List.mem_filter.mpr ⟨hremark, hkeeps⟩

theorem append (hx : FilteredAt keeps looksAt xs' xs) (hy : FilteredAt keeps looksAt ys' ys) :
    FilteredAt keeps looksAt (xs' ++ ys') (xs ++ ys) where
  filtered := by rw [List.filter_append, List.filter_append, hx.filtered, hy.filtered]
  subset remark hremark hkeeps :=
    List.mem_append.mpr ((List.mem_append.mp hremark).imp (hx.subset remark · hkeeps)
      (hy.subset remark · hkeeps))

theorem flatMap {α : Type} {f f' : α → List Remark} {xs : List α}
    (h : ∀ x ∈ xs, FilteredAt keeps looksAt (f' x) (f x)) :
    FilteredAt keeps looksAt (xs.flatMap f') (xs.flatMap f) where
  filtered := by
    rw [List.filter_flatMap, List.filter_flatMap]
    exact List.flatMap_congr fun x hx => (h x hx).filtered
  subset remark hremark hkeeps := by
    obtain ⟨x, hx, hmem⟩ := List.mem_flatMap.mp hremark
    exact List.mem_flatMap.mpr ⟨x, hx, (h x hx).subset remark hmem hkeeps⟩

end FilteredAt

section Documentation

variable {looksAt : String × Int × Int → Bool} {dropped : String → Bool} {decl : Declaration}

/-- Where a remark is left out with its rule, those that come instead are not looked at. -/
theorem FilteredAt.of_dropped {remark : Remark} {instead : List Remark}
    (hdropped : keeps remark.ruleId = false)
    (hinstead : ∀ other ∈ instead, looksAt other.key = false) :
    FilteredAt keeps looksAt instead [remark] where
  filtered := by
    rw [List.filter_eq_nil_iff.mpr fun other hother => by simp [hinstead other hother]]
    simp [hdropped]
  subset other hother hkeeps := by
    rw [List.mem_singleton.mp hother, hdropped] at hkeeps
    cases hkeeps

theorem filteredAt_documentedRemarks {doc : CommentBlock}
    (hdecl : decl ∈ context.unit.declarations) (hdoc : decl.doc = some doc)
    (hdropped : context.enabled "DOC001" = true → keeps "DOC001" = false → dropped "DOC001" = true)
    (hlooks : dropped "DOC001" = true → startsWithName doc decl.name = false →
      looksAt ("DOC003", doc.span.start.offset, doc.span.stop.offset) = false) :
    FilteredAt keeps looksAt (documentedRemarks (context.restrict keeps) decl doc)
      (documentedRemarks context decl doc) := by
  have hmeets : AllMeet context.unit "DOC003" (sentenceRemark? context.unit doc).toList :=
    allMeet_sentenceRemark? (·.doc hdecl hdoc)
  have hsentence : Filtered keeps
      ((context.restrict keeps).whenEnabled "DOC003" (sentenceRemark? context.unit doc).toList)
      (context.whenEnabled "DOC003" (sentenceRemark? context.unit doc).toList) :=
    .whenEnabled hmeets
  simp only [documentedRemarks, Context.enabled_restrict, Context.restrict_unit]
  cases hstarts : startsWithName doc decl.name with
  | true =>
    simp only [Bool.not_true, Bool.and_false, Bool.false_eq_true, if_false]
    exact .of_filtered hsentence
  | false =>
    cases henabled : context.enabled "DOC001" with
    | false =>
      simp only [Bool.false_and, Bool.false_eq_true, if_false]
      exact .of_filtered hsentence
    | true =>
      cases hkeeps : keeps "DOC001" with
      | true =>
        simp only [Bool.not_false, Bool.and_true, if_true]
        exact .of_filtered (by simp [Filtered, hkeeps])
      | false =>
        -- The comment is read as a sentence now, at a place that is not looked at.
        simp only [Bool.not_false, Bool.and_false, Bool.and_true, Bool.false_eq_true, if_false,
          if_true]
        refine .of_dropped hkeeps fun other hother => ?_
        have hmem := mem_of_mem_whenEnabled hother
        rw [Remark.key, (hmeets other hmem).ruleId_eq, span_of_mem_sentenceRemark? hmem]
        exact hlooks (hdropped henabled hkeeps) hstarts

theorem filtered_undocumentedRemarks (hdecl : decl ∈ context.unit.declarations) :
    Filtered keeps (undocumentedRemarks (context.restrict keeps) decl)
      (undocumentedRemarks context decl) := by
  unfold undocumentedRemarks
  by_cases hexempt : (decl.groupDoc.isSome &&
      context.settings.docExemptions.contains "group-comment") = true
  · rw [Context.restrict_settings, if_pos hexempt, if_pos hexempt]
    exact .nil
  · rw [Context.restrict_settings, if_neg hexempt, if_neg hexempt]
    exact .whenEnabled (.singleton (.of_fix_eq_none rfl rfl (·.declaration hdecl)))

theorem key_of_mem_undocumentedRemarks {remark : Remark}
    (h : remark ∈ undocumentedRemarks context decl) :
    remark.key = ("DOC001", decl.span.start.offset, decl.span.stop.offset) := by
  unfold undocumentedRemarks at h
  split at h
  · cases h
  · obtain rfl := List.mem_singleton.mp (mem_of_mem_whenEnabled h)
    rfl

theorem filteredAt_detachedRemarks {detached : CommentBlock}
    (hdecl : decl ∈ context.unit.declarations) (hdoc : decl.doc = none)
    (hdetached : decl.detachedDoc = some detached)
    (hdropped : context.enabled "DOC004" = true → keeps "DOC004" = false → dropped "DOC004" = true)
    (hlooks : dropped "DOC004" = true → startsWithName detached decl.name = true →
      looksAt ("DOC001", decl.span.start.offset, decl.span.stop.offset) = false) :
    FilteredAt keeps looksAt (declarationRemarks (context.restrict keeps) decl)
      (declarationRemarks context decl) := by
  simp only [declarationRemarks, hdoc, hdetached, Context.enabled_restrict, Context.restrict_unit]
  cases hstarts : startsWithName detached decl.name with
  | false =>
    simp only [Bool.false_and, Bool.false_eq_true, if_false]
    exact .of_filtered (filtered_undocumentedRemarks hdecl)
  | true =>
    cases henabled : context.enabled "DOC004" with
    | false =>
      simp only [Bool.false_and, Bool.and_false, Bool.false_eq_true, if_false]
      exact .of_filtered (filtered_undocumentedRemarks hdecl)
    | true =>
      cases hkeeps : keeps "DOC004" with
      | true =>
        simp only [Bool.and_true, if_true]
        exact .of_filtered (by simp [Filtered, hkeeps])
      | false =>
        -- A comment is asked for now, at a place that is not looked at.
        simp only [Bool.and_false, Bool.and_true, Bool.false_eq_true, if_false, if_true]
        refine .of_dropped hkeeps fun other hother => ?_
        rw [key_of_mem_undocumentedRemarks hother]
        exact hlooks (hdropped henabled hkeeps) hstarts

theorem filteredAt_declarationRemarks (hdecl : decl ∈ context.unit.declarations)
    (hdropped : ∀ id, context.enabled id = true → keeps id = false → dropped id = true)
    (hlooks : ∀ key ∈ decl.fallbackKeys dropped, looksAt key = false) :
    FilteredAt keeps looksAt (declarationRemarks (context.restrict keeps) decl)
      (declarationRemarks context decl) := by
  cases hdoc : decl.doc with
  | some doc =>
    simp only [declarationRemarks, hdoc]
    refine filteredAt_documentedRemarks hdecl hdoc (hdropped _) fun hdrop hstarts => hlooks _ ?_
    simp [Declaration.fallbackKeys, hdoc, hdrop, hstarts]
  | none =>
    cases hdetached : decl.detachedDoc with
    | some detached =>
      refine filteredAt_detachedRemarks hdecl hdoc hdetached (hdropped _)
        fun hdrop hstarts => hlooks _ ?_
      simp [Declaration.fallbackKeys, hdoc, hdetached, hdrop, hstarts]
    | none =>
      simp only [declarationRemarks, hdoc, hdetached]
      exact .of_filtered (filtered_undocumentedRemarks hdecl)

theorem filteredAt_documentationRemarks
    (hdropped : ∀ id, context.enabled id = true → keeps id = false → dropped id = true)
    (hlooks : ∀ key ∈ context.unit.fallbackKeys dropped, looksAt key = false) :
    FilteredAt keeps looksAt (documentationRemarks (context.restrict keeps))
      (documentationRemarks context) := by
  have hpackage : Filtered keeps
      ((context.restrict keeps).whenEnabled "DOC002" (packageCommentRemarks context) ++
        (context.restrict keeps).whenEnabled "DOC003"
          (context.unit.packageDoc.bind (sentenceRemark? context.unit)).toList)
      (context.whenEnabled "DOC002" (packageCommentRemarks context) ++
        context.whenEnabled "DOC003"
          (context.unit.packageDoc.bind (sentenceRemark? context.unit)).toList) :=
    .append (.whenEnabled allMeet_packageCommentRemarks) (.whenEnabled allMeet_packageSentence)
  unfold documentationRemarks
  cases hexempt : context.unit.isTestFile &&
      context.settings.docExemptions.contains "test-files" with
  | true =>
    simp only [Context.restrict_unit, Context.restrict_settings, hexempt, if_true]
    exact .of_filtered .nil
  | false =>
    simp only [Context.restrict_unit, Context.restrict_settings, hexempt, Bool.false_eq_true,
      if_false]
    refine .append (.of_filtered hpackage) (.flatMap fun decl hdecl => ?_)
    have hexported := List.mem_of_mem_filter hdecl
    refine filteredAt_declarationRemarks (List.mem_of_mem_filter hexported) hdropped
      fun key hkey => hlooks key ?_
    exact List.mem_flatMap.mpr ⟨decl, hexported, hkey⟩

end Documentation

/-! ## Organization and layout -/

theorem filtered_functionRemarks {decl : Declaration} (hdecl : decl ∈ context.unit.declarations) :
    Filtered keeps (functionRemarks (context.restrict keeps) decl)
      (functionRemarks context decl) := by
  refine .append (.append ?_ ?_) ?_ <;>
    exact .whenEnabled (.ite (.of_fix_eq_none rfl rfl (·.nameSpan hdecl)))

theorem filtered_organizationRemarks :
    Filtered keeps (remarksOf (organizationChecks (context.restrict keeps)))
      (remarksOf (organizationChecks context)) := by
  simp only [organizationChecks, remarksOf_append, remarksOf_whenEnabled, remarksOf_map_pure,
    List.filterMap_some]
  refine .append (.append (.flatMap fun decl hdecl => ?_) ?_) ?_
  · exact filtered_functionRemarks (List.mem_of_mem_filter hdecl)
  · exact .whenEnabled (.remarksOf_map fun scope hscope => allMeet_nestingRemark? hscope)
  · exact .whenEnabled
      (.filterMap fun decl hdecl => allMeet_globalRemark? (List.mem_of_mem_filter hdecl))

/-- A line is under one of two rules, and the remark on it asks about that one. -/
theorem filter_lineRemark?_restrict (comments : List CommentBlock) (number start : Nat)
    (line : String) :
    lineRemark? (context.restrict keeps) comments number start line =
      (lineRemark? context comments number start line).filter fun remark =>
        keeps remark.ruleId := by
  simp only [lineRemark?, Context.enabled_restrict, Context.restrict_settings]
  split
  · rfl
  · split <;> split <;> grind

theorem filtered_layoutRemarks :
    Filtered keeps (layoutRemarks (context.restrict keeps)) (layoutRemarks context) := by
  refine .append ?_ (.whenEnabled allMeet_spreadImportRemarks)
  rw [Filtered, List.filter_filterMap]
  refine List.filterMap_congr fun line _ => ?_
  obtain ⟨⟨text, start⟩, index⟩ := line
  exact filter_lineRemark?_restrict _ _ _ _

/-! ## From remarks to findings -/

/-- What a run finds when only some rules are kept, compared with what it finds under all of them:
the same at the places that are looked at, and nowhere less. -/
structure Findings.Restricts (keeps : String → Bool) (looksAt : String × Int × Int → Bool)
    (restricted full : Findings) : Prop where
  filtered : (restricted.filter fun f => looksAt f.key) =
    full.filter fun f => keeps f.ruleId && looksAt f.key
  subset : ∀ f ∈ full, keeps f.ruleId = true → f ∈ restricted
  kept : ∀ f ∈ restricted, keeps f.ruleId = true

section Findings

variable {looksAt : String × Int × Int → Bool} {dropped : String → Bool}
  {remarks remarks' : List Remark} {findings findings' : Findings}

/-- Remarks that all have their rule are turned into findings one by one. -/
theorem findings_eq_filterMap (h : context.findings remarks = .ok findings) :
    findings = remarks.filterMap fun remark => (context.finding remark).toOption := by
  induction remarks generalizing findings with
  | nil => exact (Except.ok.inj h).symm
  | cons remark remarks ih =>
    obtain ⟨first, rest, hfirst, hrest, rfl⟩ := mapM_cons_eq_ok.mp h
    rw [List.filterMap_cons_some (by rw [hfirst]; rfl), ← ih hrest]

/-- What is chosen of findings by rule and place is what is chosen of their remarks. -/
theorem filter_filterMap_finding (chooses : String → String × Int × Int → Bool)
    (remarks : List Remark) :
    (remarks.filterMap fun remark => (context.finding remark).toOption).filter
        (fun f => chooses f.ruleId f.key) =
      (remarks.filter fun remark => chooses remark.ruleId remark.key).filterMap
        fun remark => (context.finding remark).toOption := by
  rw [List.filter_filterMap, List.filterMap_filter]
  refine List.filterMap_congr fun remark _ => ?_
  cases hfinding : context.finding remark with
  | error failure => simp [Except.toOption]
  | ok f =>
    obtain ⟨hrule, hspan, -⟩ := Context.of_finding_eq_ok hfinding
    have hkey : f.key = remark.key := by rw [Finding.key, Remark.key, hrule, hspan]
    simp [Except.toOption, Option.filter, hrule, hkey]

/-- Remarks under fewer rules are found as their findings under fewer rules. -/
theorem restricts_of_filteredAt (h : FilteredAt keeps looksAt remarks' remarks)
    (hfull : context.findings remarks = .ok findings)
    (hrestricted : (context.restrict keeps).findings remarks' = .ok findings') :
    findings'.Restricts keeps looksAt findings where
  filtered := by
    rw [findings_eq_filterMap hfull, findings_eq_filterMap hrestricted,
      filter_filterMap_finding fun _ key => looksAt key, h.filtered,
      filter_filterMap_finding fun id key => keeps id && looksAt key]
    refine List.filterMap_congr fun remark hremark => ?_
    have hkeeps := (Bool.and_eq_true_iff.mp (List.mem_filter.mp hremark).2).1
    rw [Context.finding_restrict hkeeps]
  subset f hf hkeeps := by
    obtain ⟨remark, hremark, hfinding⟩ := of_mem_mapM hfull hf
    rw [(Context.of_finding_eq_ok hfinding).1] at hkeeps
    rw [findings_eq_filterMap hrestricted]
    refine List.mem_filterMap.mpr ⟨remark, h.subset remark hremark hkeeps, ?_⟩
    rw [Context.finding_restrict hkeeps, hfinding]
    rfl
  kept f hf := by
    obtain ⟨remark, -, hfinding⟩ := of_mem_mapM hrestricted hf
    obtain ⟨-, -, -, -, henabled⟩ := Context.of_finding_eq_ok hfinding
    rw [Context.enabled_restrict] at henabled
    exact (Bool.and_eq_true_iff.mp henabled).2

/-- **A built-in evaluator under fewer rules** finds what it found before, without the rules left
out, apart from the places at which one rule has its turn because another is left out. -/
theorem restricts_of_builtin {evaluator : Evaluator} (hbuiltin : evaluator ∈ builtinEvaluators)
    (hdropped : ∀ id, context.enabled id = true → keeps id = false → dropped id = true)
    (hlooks : ∀ key ∈ context.unit.fallbackKeys dropped, looksAt key = false)
    (hfull : evaluator.evaluate context = .ok findings)
    (hrestricted : evaluator.evaluate (context.restrict keeps) = .ok findings') :
    findings'.Restricts keeps looksAt findings := by
  simp only [builtinEvaluators, List.mem_cons, List.not_mem_nil, or_false] at hbuiltin
  rcases hbuiltin with rfl | rfl | rfl | rfl | rfl | rfl
  case inr.inr.inl =>
    obtain ⟨remarks, hremarks, hfull⟩ := importsEvaluator_eq_ok.mp hfull
    obtain ⟨remarks', hremarks', hrestricted⟩ := importsEvaluator_eq_ok.mp hrestricted
    have hkept : context.unit.imports.mapM (importDeclRemarks (context.restrict keeps)) = _ :=
      mapM_importDeclRemarks_restrict (List.Subset.refl _) hremarks
    obtain rfl := Except.ok.inj (hremarks'.symm.trans hkept)
    refine restricts_of_filteredAt (.of_filtered ?_) hfull hrestricted
    exact List.filter_flatten.symm
  case inr.inr.inr.inl =>
    exact restricts_of_filteredAt (filteredAt_documentationRemarks hdropped hlooks) hfull
      hrestricted
  case inr.inr.inr.inr.inr =>
    exact restricts_of_filteredAt (.of_filtered filtered_layoutRemarks) hfull hrestricted
  all_goals
    refine restricts_of_filteredAt (.of_filtered ?_) (Evaluator.ofChecks_eq_ok.mp hfull).2
      (Evaluator.ofChecks_eq_ok.mp hrestricted).2
  · exact filtered_namingRemarks
  · exact filtered_errorRemarks
  · exact filtered_organizationRemarks

end Findings

end GoConventions
