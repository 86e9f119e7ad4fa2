import GoConventions.Proofs.Analysis.Reports
import GoConventions.Proofs.Convention.Documented
import GoConventions.Proofs.Convention.StatedRules
import GoConventions.Proofs.Tree.Ranges

/-!
# Reports on missing comments

A result asks for a comment once for each exported declaration that is not documented, at the span
of the declaration.  In what a run gathers this is seen declaration by declaration
(`mem_gathered_iff`): each one that is not documented contributes one finding, and no other
evaluator finds anything under these rules.  Then the result has to keep every one of them.  What it
drops are findings of one key, which is a rule with the offsets of a span; where the spans of a
model are valid they are told apart by their offsets, so declarations of different spans do not
displace one another.

A name of a grouped specification starts where the specification does not, so different names of
one comment have different spans too.  If two declarations did share a span, one finding at it would
have to do for both.

## Main definitions

* `SourceUnit.HasCanonicalSpans`: the spans of a model are ranges between positions of the text.
* `Run.AsksAt`: the finding that asks for the comment of a declaration.
* `FileResult.AsksOnce`: a result asks once for each comment that is missing.

## Main results

* `hasCanonicalSpans_of_readTree`: models that have been read have such spans.
* `asksOnce_of_analyze`: the result of a run of the built-in evaluators does so.
-/

namespace GoConventions

/-! ## Valid spans -/

/-- The spans that a model has taken from a tree are ranges of the text, and their ends are the
positions of their offsets. -/
structure SourceUnit.HasCanonicalSpans (unit : SourceUnit) : Prop where
  contains : ∀ span ∈ unit.nodeSpans, unit.containsSpan span = true
  canonical : ∀ span ∈ unit.nodeSpans, unit.IsCanonical span.start ∧ unit.IsCanonical span.stop

/-- The ends of the spans that are read are positions of the text, so these spans are valid where
none is turned around. -/
theorem hasCanonicalSpans_of_readTree {path text : String} {tree : Members} {unit : SourceUnit}
    (h : readTree path text tree = .ok unit)
    (hordered : ∀ span ∈ unit.nodeSpans, span.start.offset ≤ span.stop.offset) :
    unit.HasCanonicalSpans := by
  obtain ⟨-, -, history, htells⟩ := exists_history_of_readTree h
  have hcanonical : ∀ span ∈ unit.nodeSpans,
      unit.IsCanonical span.start ∧ unit.IsCanonical span.stop := fun span hspan =>
    isCanonical_of_mem_spans htells (List.mem_append_left _ hspan)
  exact ⟨fun span hspan =>
    (SourceText.containsSpan_iff_le (hcanonical span hspan)).mpr (hordered span hspan), hcanonical⟩

theorem SourceUnit.HasCanonicalSpans.eq_of_offset_eq {unit : SourceUnit}
    (h : unit.HasCanonicalSpans) {span span' : Span} (hspan : span ∈ unit.nodeSpans)
    (hspan' : span' ∈ unit.nodeSpans)
    (hstart : span.start.offset = span'.start.offset)
    (hstop : span.stop.offset = span'.stop.offset) : span = span' := by
  obtain ⟨hs, ht⟩ := h.canonical span hspan
  obtain ⟨hs', ht'⟩ := h.canonical span' hspan'
  cases span
  cases span'
  rw [Span.mk.injEq]
  exact ⟨hs.eq_of_offset_eq hs' hstart, ht.eq_of_offset_eq ht' hstop⟩

/-! ## What is gathered -/

namespace Run

variable {run : Run} {evaluator : Evaluator} {decl : Declaration} {f g : Finding}

/-- A run that asks for comments: the built-in evaluators, with the two rules that ask for them and
without exemptions, on a model with valid spans. -/
structure AsksForComments (run : Run) : Prop where
  builtin : run.evaluators = builtinEvaluators
  exemptions : run.settings.docExemptions = []
  form : (run.context .documentation).enabled "DOC001" = true
  place : (run.context .documentation).enabled "DOC004" = true
  spans : run.unit.HasCanonicalSpans

/-- A finding asks for the comment of a declaration: it stands for the only remark on it. -/
def AsksAt (run : Run) (decl : Declaration) (f : Finding) : Prop :=
  ∃ remark, declarationRemarks (run.context .documentation) decl = [remark] ∧
    (run.context .documentation).finding remark = .ok f

theorem AsksAt.unique (hf : run.AsksAt decl f) (hg : run.AsksAt decl g) : f = g := by
  obtain ⟨remark, hremark, hfinding⟩ := hf
  obtain ⟨other, hother, hfinding'⟩ := hg
  obtain rfl := List.singleton_inj.mp (hremark.symm.trans hother)
  exact Except.ok.inj (hfinding.symm.trans hfinding')

/-- The evaluator of comments does not fail where spans are valid. -/
theorem exists_batch_of_hasCanonicalSpans (h : run.unit.HasCanonicalSpans) :
    ∃ batch, (run.context .documentation).findings
        (documentationRemarks (run.context .documentation)) = .ok batch ∧
      run.answer documentationEvaluator = .ok batch := by
  obtain ⟨batch, hbatch⟩ : ∃ batch, (run.context .documentation).findings
      (documentationRemarks (run.context .documentation)) = .ok batch :=
    acceptsAll_documentationRemarks.exists_findings
  refine ⟨batch, hbatch, answer_eq_ok.mpr ⟨hbatch, fun f hf => ?_⟩⟩
  obtain ⟨remark, hremark, hfinding⟩ := of_mem_mapM hbatch hf
  rw [(Context.of_finding_eq_ok hfinding).2.1]
  exact h.contains _ (span_mem_nodeSpans_of_mem_documentationRemarks hremark)

theorem isRun_of_enabled {id : String} (h : (run.context evaluator.category).enabled id = true) :
    run.isRun evaluator = true := by
  obtain ⟨rule, hrule, -⟩ := (RuleSet.contains_iff _).mp h
  rw [isRun, bne_iff_ne, RuleSet.size]
  exact Nat.ne_of_gt (List.length_pos_of_mem hrule)

theorem statesRemarks_of_builtin (hbuiltin : evaluator ∈ builtinEvaluators) :
    run.StatesRemarks evaluator := by
  intro batch hbatch f hf
  obtain ⟨remark, -, hfinding⟩ := exists_accepts_of_builtin hbuiltin hbatch f hf
  exact ⟨remark, hfinding⟩

/-- No other evaluator states the rules on comments. -/
theorem eq_documentationEvaluator (he : evaluator ∈ builtinEvaluators) {id : String}
    (hid : id ∈ evaluator.category.statedRules)
    (hcomments : id ∈ Category.documentation.statedRules) :
    evaluator = documentationEvaluator := by
  -- No other category has one of the rules among those of its evaluator.
  have hcategory : ∀ category, ∀ id ∈ Category.statedRules category,
      id ∈ Category.documentation.statedRules → category = .documentation := by
    intro category
    cases category <;> decide
  have hdocumentation := hcategory _ id hid hcomments
  simp only [builtinEvaluators, List.mem_cons, List.not_mem_nil, or_false] at he
  rcases he with rfl | rfl | rfl | rfl | rfl | rfl
  all_goals first | rfl | cases hdocumentation

/-- A finding under a rule on comments stands for a remark of their evaluator. -/
theorem exists_remark_of_mem_gathered (hbuiltin : run.evaluators = builtinEvaluators)
    (hf : f ∈ run.gathered) (hid : f.ruleId ∈ Category.documentation.statedRules) :
    ∃ remark ∈ documentationRemarks (run.context .documentation),
      (run.context .documentation).finding remark = .ok f := by
  obtain ⟨evaluator, he, hadded⟩ := List.mem_flatMap.mp hf
  rw [hbuiltin] at he
  rcases of_mem_added (statesRemarks_of_builtin he) hadded with
    ⟨hfailure, -⟩ | ⟨failure, rule, -, hrule, rfl⟩
  · obtain ⟨batch, hbatch, hmem⟩ := mem_batch_of_mem_added hfailure hadded
    obtain rfl := eq_documentationEvaluator he (ruleId_mem_statedRules he hbatch hmem) hid
    exact of_mem_mapM hbatch hmem
  · -- A failure is reported under another rule.
    have hinternal : (run.failureReport rule evaluator.category failure).ruleId = internalRuleId :=
      run.registry.id_of_get? hrule
    rw [hinternal] at hid
    exact absurd hid (by decide)

/-- A finding that asks for a comment stands for a remark on an exported declaration. -/
theorem exists_declaration_of_mem_gathered (hbuiltin : run.evaluators = builtinEvaluators)
    (hf : f ∈ run.gathered) (hasks : asksForComment f.ruleId = true) :
    ∃ decl ∈ run.unit.exportedDeclarations,
      ∃ remark ∈ declarationRemarks (run.context .documentation) decl,
        (run.context .documentation).finding remark = .ok f := by
  have hid : f.ruleId ∈ Category.documentation.statedRules := by
    rw [asksForComment, Bool.or_eq_true, beq_iff_eq, beq_iff_eq] at hasks
    rcases hasks with hid | hid <;> rw [hid] <;> decide
  obtain ⟨remark, hremark, hfinding⟩ := exists_remark_of_mem_gathered hbuiltin hf hid
  rw [(Context.of_finding_eq_ok hfinding).1] at hasks
  obtain ⟨decl, hdecl, hstated⟩ := exists_declaration_of_asksForComment hasks hremark
  exact ⟨decl, hdecl, remark, hstated, hfinding⟩

/-! ## The declarations that are asked for -/

namespace AsksForComments

variable (h : run.AsksForComments)
include h

/-- Each declaration that is not documented is asked for its comment. -/
theorem exists_asksAt (hdocumented : ¬ decl.IsDocumented) :
    ∃ f, run.AsksAt decl f ∧ f.span = decl.span ∧ asksForComment f.ruleId = true ∧
      (f.ruleId = "DOC004" ↔ decl.IsDetached) := by
  obtain ⟨remark, hremark, hspan, hasks, hdetached⟩ :=
    exists_declarationRemarks_eq h.exemptions h.form h.place hdocumented
  have henabled : (run.context .documentation).enabled remark.ruleId = true := by
    rw [asksForComment, Bool.or_eq_true, beq_iff_eq, beq_iff_eq] at hasks
    rcases hasks with hid | hid <;> rw [hid]
    · exact h.form
    · exact h.place
  obtain ⟨f, hf⟩ := Context.exists_finding henabled
  obtain ⟨hid, hplace, -⟩ := Context.of_finding_eq_ok hf
  refine ⟨f, ⟨remark, hremark, hf⟩, ?_⟩
  rw [hid, hplace]
  exact ⟨hspan, hasks, hdetached⟩

/-- **What a run gathers under these rules**: one finding for each exported declaration that is not
documented. -/
theorem mem_gathered_iff (hasks : asksForComment f.ruleId = true) :
    f ∈ run.gathered ↔
      ∃ decl ∈ run.unit.exportedDeclarations, ¬ decl.IsDocumented ∧ run.AsksAt decl f := by
  constructor
  · intro hf
    obtain ⟨decl, hdecl, remark, hremark, hfinding⟩ :=
      exists_declaration_of_mem_gathered h.builtin hf hasks
    have hdocumented : ¬ decl.IsDocumented := fun hdocumented => by
      rw [(Context.of_finding_eq_ok hfinding).1, asksForComment_eq_false hdocumented hremark]
        at hasks
      cases hasks
    obtain ⟨g, ⟨only, honly, hg⟩, -⟩ := h.exists_asksAt hdocumented
    rw [honly] at hremark
    obtain rfl := List.mem_singleton.mp hremark
    exact ⟨decl, hdecl, hdocumented, remark, honly, hfinding⟩
  · rintro ⟨decl, hdecl, -, remark, hremark, hfinding⟩
    obtain ⟨batch, hbatch, hanswer⟩ := exists_batch_of_hasCanonicalSpans h.spans
    have hrun : run.isRun documentationEvaluator = true := isRun_of_enabled h.form
    have hadded : run.added documentationEvaluator = batch := by
      rw [added, contribution, attempt, if_pos hrun, hanswer]
    refine List.mem_flatMap.mpr ⟨documentationEvaluator, ?_, ?_⟩
    · rw [h.builtin]
      simp [builtinEvaluators]
    · rw [hadded]
      have hstated : remark ∈ documentationRemarks (run.context .documentation) :=
        mem_documentationRemarks h.exemptions hdecl (by rw [hremark]; exact List.mem_cons_self)
      rw [findings_eq_filterMap hbatch]
      exact List.mem_filterMap.mpr ⟨remark, hstated, by rw [hfinding]; rfl⟩

/-- Two declarations whose findings have one key have one span. -/
theorem eq_of_key_eq (hspans : (run.unit.exportedDeclarations.map (·.span)).Nodup)
    {other : Declaration} (hdecl : decl ∈ run.unit.exportedDeclarations)
    (hother : other ∈ run.unit.exportedDeclarations) (hf : f.span = decl.span)
    (hg : g.span = other.span) (hkey : f.key = g.key) : decl = other := by
  have hmem : ∀ decl ∈ run.unit.exportedDeclarations, decl.span ∈ run.unit.nodeSpans :=
    fun decl hdecl => span_mem_nodeSpans_of_mem_declarations (List.mem_of_mem_filter hdecl)
      List.mem_cons_self
  simp only [Finding.key, Prod.mk.injEq, hf, hg] at hkey
  exact List.inj_on_of_nodup_map hspans hdecl hother
    (h.spans.eq_of_offset_eq (hmem decl hdecl) (hmem other hother) hkey.2.1 hkey.2.2)

theorem span_eq_of_asksAt (hdocumented : ¬ decl.IsDocumented) (hf : run.AsksAt decl f) :
    f.span = decl.span ∧ asksForComment f.ruleId = true := by
  obtain ⟨g, hg, hspan, hasks, -⟩ := h.exists_asksAt hdocumented
  obtain rfl := hf.unique hg
  exact ⟨hspan, hasks⟩

/-- **No declaration displaces another one**: the finding for a declaration is the first of its
key. -/
theorem first?_eq_of_asksAt (hspans : (run.unit.exportedDeclarations.map (·.span)).Nodup)
    (hdecl : decl ∈ run.unit.exportedDeclarations) (hdocumented : ¬ decl.IsDocumented)
    (hf : run.AsksAt decl f) : Findings.first? run.gathered f.key = some f := by
  obtain ⟨hspan, hasks⟩ := h.span_eq_of_asksAt hdocumented hf
  have hgathered : f ∈ run.gathered := (h.mem_gathered_iff hasks).mpr ⟨decl, hdecl, hdocumented, hf⟩
  have hinternal : f.isInternal = false := by
    obtain ⟨remark, -, hfinding⟩ := hf
    exact (stated_of_finding hfinding).isInternal_eq_false (by decide)
  -- Some finding of this key is the first, and it can only be this one.
  obtain ⟨g, hg⟩ : ∃ g, Findings.first? run.gathered f.key = some g := by
    rw [← Option.isSome_iff_exists, Findings.first?, List.find?_isSome]
    exact ⟨f, List.mem_filter.mpr ⟨hgathered, by rw [hinternal]; rfl⟩, beq_self_eq_true _⟩
  obtain ⟨hmem, -, hkey⟩ := Findings.isInternal_of_first? hg
  have hgasks : asksForComment g.ruleId = true := by
    rw [show g.ruleId = f.ruleId from congrArg Prod.fst hkey]
    exact hasks
  obtain ⟨other, hother, hundocumented, hasksAt⟩ := (h.mem_gathered_iff hgasks).mp hmem
  obtain rfl := h.eq_of_key_eq hspans hother hdecl
    (h.span_eq_of_asksAt hundocumented hasksAt).1 hspan hkey
  rw [hg, hasksAt.unique hf]

end AsksForComments

/-! ## The result -/

end Run

/-- The findings of a result that ask for a comment at a span. -/
def askingAt (span : Span) (findings : List Finding) : List Finding :=
  findings.filter fun f => asksForComment f.ruleId && f.span == span

/-- A result asks for a comment once at each exported declaration that is not documented, and at no
other exported declaration. -/
structure FileResult.AsksOnce (unit : SourceUnit) (result : FileResult) : Prop where
  missing : ∀ decl ∈ unit.exportedDeclarations, ¬ decl.IsDocumented →
    ∃ f, askingAt decl.span result.findings = [f] ∧ (f.ruleId = "DOC004" ↔ decl.IsDetached)
  documented : ∀ decl ∈ unit.exportedDeclarations, decl.IsDocumented →
    askingAt decl.span result.findings = []

/-- Listing does not change where comments are asked for. -/
theorem map_frame_askingAt_result (unit : SourceUnit) (findings : Findings) (span : Span) :
    (askingAt span (findings.result unit).findings).map Finding.frame =
      (askingAt span findings.ordered).map Finding.frame := by
  have hframes : ∀ xs : List Finding,
      (askingAt span xs).map Finding.frame = askingAt span (xs.map Finding.frame) := by
    intro xs
    rw [askingAt, askingAt, List.filter_map]
    rfl
  rw [hframes, hframes, Findings.map_frame_result]

namespace Run.AsksForComments

variable {run : Run} (h : run.AsksForComments)
include h

/-- What is asked for at the span of an exported declaration is asked for at this declaration. -/
theorem mem_askingAt_ordered_iff (hspans : (run.unit.exportedDeclarations.map (·.span)).Nodup)
    {decl : Declaration} (hdecl : decl ∈ run.unit.exportedDeclarations) {f : Finding} :
    f ∈ askingAt decl.span (Findings.ordered run.gathered) ↔
      ¬ decl.IsDocumented ∧ run.AsksAt decl f := by
  rw [askingAt, List.mem_filter, Bool.and_eq_true, beq_iff_eq]
  constructor
  · rintro ⟨hf, hasks, hspan⟩
    obtain ⟨other, hother, hdocumented, hasksAt⟩ :=
      (h.mem_gathered_iff hasks).mp (Findings.mem_of_mem_ordered hf)
    have hplace := (h.span_eq_of_asksAt hdocumented hasksAt).1
    obtain rfl : other = decl :=
      List.inj_on_of_nodup_map hspans hother hdecl (hplace.symm.trans hspan)
    exact ⟨hdocumented, hasksAt⟩
  · rintro ⟨hdocumented, hasksAt⟩
    obtain ⟨hspan, hasks⟩ := h.span_eq_of_asksAt hdocumented hasksAt
    exact ⟨Findings.mem_ordered.mpr
      (.inr (h.first?_eq_of_asksAt hspans hdecl hdocumented hasksAt)), hasks, hspan⟩

theorem nodup_askingAt_ordered (hspans : (run.unit.exportedDeclarations.map (·.span)).Nodup)
    {decl : Declaration} (hdecl : decl ∈ run.unit.exportedDeclarations) :
    (askingAt decl.span (Findings.ordered run.gathered)).Nodup := by
  have hnotInternal : (askingAt decl.span (Findings.ordered run.gathered)).filter
      (fun f => !f.isInternal) = askingAt decl.span (Findings.ordered run.gathered) := by
    refine List.filter_eq_self.mpr fun f hf => ?_
    obtain ⟨-, remark, -, hfinding⟩ := (h.mem_askingAt_ordered_iff hspans hdecl).mp hf
    rw [(stated_of_finding hfinding).isInternal_eq_false (by decide)]
    rfl
  -- Findings on the sources are listed in a strict order.
  have hstrict : ((Findings.ordered run.gathered).filter fun f => !f.isInternal).Nodup :=
    Findings.pairwise_lt_ordered.imp fun {f g} hlt heq => by
      have hself : Finding.order g g = .eq := Std.ReflCmp.compare_self
      rw [heq, hself] at hlt
      cases hlt
  rw [← hnotInternal, askingAt, List.filter_comm]
  exact hstrict.filter _

/-- **A result of the run asks once for each comment that is missing.** -/
theorem asksOnce_result (hspans : (run.unit.exportedDeclarations.map (·.span)).Nodup) :
    (Findings.result run.unit run.gathered).AsksOnce run.unit where
  missing decl hdecl hdocumented := by
    obtain ⟨f, hf, -, -, hdetached⟩ := h.exists_asksAt hdocumented
    have hordered : askingAt decl.span (Findings.ordered run.gathered) = [f] := by
      refine List.perm_singleton.mp ((List.perm_ext_iff_of_nodup
        (h.nodup_askingAt_ordered hspans hdecl) (List.nodup_singleton f)).mpr fun g => ?_)
      rw [h.mem_askingAt_ordered_iff hspans hdecl, and_iff_right hdocumented, List.mem_singleton]
      exact ⟨fun hg => hg.unique hf, fun heq => heq ▸ hf⟩
    have hframes := map_frame_askingAt_result run.unit run.gathered decl.span
    rw [hordered, List.map_singleton] at hframes
    obtain ⟨shown, rest, hshown, hframe, hrest⟩ := List.map_eq_cons_iff.mp hframes
    obtain rfl := List.map_eq_nil_iff.mp hrest
    have hid : shown.frame.ruleId = f.frame.ruleId := congrArg Finding.ruleId hframe
    exact ⟨shown, hshown, hid ▸ hdetached⟩
  documented decl hdecl hdocumented := by
    have hordered : askingAt decl.span (Findings.ordered run.gathered) = [] :=
      List.eq_nil_iff_forall_not_mem.mpr fun f hf =>
        ((h.mem_askingAt_ordered_iff hspans hdecl).mp hf).1 hdocumented
    have hframes := map_frame_askingAt_result run.unit run.gathered decl.span
    rw [hordered] at hframes
    exact List.map_eq_nil_iff.mp hframes

end Run.AsksForComments

/-- **Each undocumented export is reported once.**  On a model with valid spans, whose exported
declarations have different spans, a run of the built-in evaluators that asks for comments has a
result unless it is cancelled, and every result that it has asks for a comment once at each exported
declaration without one that starts with its name, and at no other. -/
theorem asksOnce_of_analyze {run : Run} (h : run.AsksForComments)
    (hspans : (run.unit.exportedDeclarations.map (·.span)).Nodup) :
    ((run.registry.get? internalRuleId).isSome = true → (∀ poll, run.isCancelled poll = false) →
      ∃ result, analyze run = .ok result) ∧
    ∀ result, analyze run = .ok result → result.AsksOnce run.unit := by
  constructor
  · intro hinternal hproceeds
    obtain ⟨rule, hrule⟩ := Option.isSome_iff_exists.mp hinternal
    have hpackage : run.unit.containsSpan run.unit.packageSpan = true :=
      h.spans.contains _ (by simp [SourceUnit.nodeSpans])
    exact ⟨_, Run.analyze_eq_ok_gathered hpackage hrule hproceeds⟩
  · intro result hresult
    obtain ⟨-, -, rfl⟩ := analyze_eq_ok_iff.mp hresult
    exact h.asksOnce_result hspans

/-! ## Four variables, one of them documented -/

def variablesText : SourceText where
  path := "p.go"
  text := "package p\n\n// A is.\nvar A int\n\n// wrong\nvar B int\n\n// C is.\n\nvar C, D int\n"

def variablesTree : Members :=
  node "File" 0 74 [
    ("package", name 8 9 "p"),
    ("comments", .arr [comment 11 19 "// A is.", comment 31 39 "// wrong",
      comment 51 59 "// C is."]),
    ("decls", .arr [
      declaration 20 29 [name 24 25 "A"], declaration 40 49 [name 44 45 "B"],
      declaration 61 73 [name 65 66 "C", name 68 69 "D"]])]
where
  node (kind : String) (start stop : Int) (parts : Members) : Members :=
    spannedNode kind (variablesText.spanOf start stop) parts
  name (start stop : Int) (text : String) : Json :=
    .obj (node "Ident" start stop [("name", .str text)])
  comment (start stop : Int) (text : String) : Json :=
    .obj (node "CommentGroup" start stop [
      ("list", .arr [.obj (node "Comment" start stop [("text", .str text)])])])
  declaration (start stop : Int) (names : List Json) : Json :=
    .obj (node "GenDecl" start stop [("tok", .str "var"), ("specs", .arr [
      .obj (node "ValueSpec" (start + 4) stop [("names", .arr names)])])])

/-- The second variable has another comment, that of the third one stands apart, and the fourth one
has none that starts with its name. -/
theorem asksOnce_variablesTree :
    ∃ unit result, readTree variablesText.path variablesText.text variablesTree = .ok unit ∧
      unit.exportedDeclarations.map (·.name) = ["A", "B", "C", "D"] ∧
      Run.AsksForComments { unit } ∧ (unit.exportedDeclarations.map (·.span)).Nodup ∧
      analyze { unit } = .ok result ∧
      (result.findings.filter fun f => asksForComment f.ruleId).map (·.ruleId) =
        ["DOC001", "DOC004", "DOC001"] ∧ result.AsksOnce unit := by
  have hfacts : ((readTree variablesText.path variablesText.text variablesTree).toOption.bind
      fun unit => (analyze { unit }).toOption.map fun result =>
        (unit.exportedDeclarations.map (·.name),
          decide (∀ span ∈ unit.nodeSpans, span.start.offset ≤ span.stop.offset),
          decide (unit.exportedDeclarations.map (·.span)).Nodup,
          (result.findings.filter fun f => asksForComment f.ruleId).map (·.ruleId))) =
      some (["A", "B", "C", "D"], true, true, ["DOC001", "DOC004", "DOC001"]) := by
    decide +kernel
  obtain ⟨unit, hunit, hfacts⟩ := Option.bind_eq_some_iff.mp hfacts
  obtain ⟨result, hresult, hfacts⟩ := Option.map_eq_some_iff.mp hfacts
  simp only [Prod.mk.injEq, decide_eq_true_eq] at hfacts
  obtain ⟨hnames, hordered, hspans, hrules⟩ := hfacts
  have hread := toOption_eq_some.mp hunit
  have hanalyze := toOption_eq_some.mp hresult
  have hrun : Run.AsksForComments { unit } := {
    builtin := rfl
    exemptions := rfl
    form := show (packagedRegistry.without []).ofCategory .documentation |>.contains "DOC001" by
      decide +kernel
    place := show (packagedRegistry.without []).ofCategory .documentation |>.contains "DOC004" by
      decide +kernel
    spans := hasCanonicalSpans_of_readTree hread hordered }
  exact ⟨unit, result, hread, hnames, hrun, hspans, hanalyze, hrules,
    (asksOnce_of_analyze hrun hspans).2 result hanalyze⟩

end GoConventions
