import GoConventions.Proofs.Analysis.DocReports
import GoConventions.Proofs.Convention.Sentences

/-!
# The completed sentences of a run

A run reports a comment that does not end like a sentence, and the patch of such a report puts a
period behind it.  It stands for a remark on the comment, and no other evaluator makes patches under
this rule, so what is known of the insertion (`lines_lengthened`) holds of the patches in a result.

After the patch the comment ends in a period and is not reported again.  That its text has only
been given the period is true exactly of those comments whose last line can take one.

## Main definitions

* `SourceUnit.PutsPeriod`: what a patch makes of a comment.

## Main results

* `completesSentence_iff_of_analyze`: what the patches make of the comments.
* `not_forall_completesSentence`: a period on a line of its own.
-/

namespace GoConventions

/-- **A patch puts a period into a comment** with a given last line: the patched comment is not
remarked on any more, and its text is the old one with a period exactly when the line can take
one. -/
structure SourceUnit.PutsPeriod (unit : SourceUnit) (comment : CommentBlock) (line : String)
    (patch : Patch) (patched : SourceText) : Prop where
  path : patched.path = unit.path
  edits : patch.edits = [⟨(periodRequest unit comment).span, "."⟩]
  applied : applyPatches unit.text [patch] = .ok patched.text
  silent : ∀ other : SourceUnit, sentenceRemark? other (comment.lengthened patched) = none
  completes_iff : (comment.lengthened patched).text = comment.text ++ "." ↔
    takesPeriod line = true

/-- **A patch for a comment** inserts or replaces what a remark on comments asks for. -/
theorem Run.exists_request_of_patch {run : Run} {result : FileResult}
    (hbuiltin : run.evaluators = builtinEvaluators) (hrun : analyze run = .ok result) {f : Finding}
    (hf : f ∈ result.findings) (hid : f.ruleId ∈ Category.documentation.statedRules) {patch : Patch}
    (hpatch : f.patch = some patch) :
    ∃ remark ∈ documentationRemarks (run.context .documentation),
      remark.ruleId = f.ruleId ∧ remark.span = f.span ∧
        ∃ request, remark.fix = some request ∧
          (request.template = FixTemplate.rename.label ∨ ∃ replacement,
            request.replacement = some replacement ∧
              patch.edits = [⟨request.span, replacement⟩]) := by
  obtain ⟨-, -, rfl⟩ := analyze_eq_ok_iff.mp hrun
  -- The finding as it was gathered, before its patch was kept or dropped.
  obtain ⟨g, hg, hmade, hlisted⟩ := Findings.of_mem_result hf
  obtain ⟨hruleId, hspan⟩ : f.ruleId = g.ruleId ∧ f.span = g.span := by
    rw [hlisted]
    exact ⟨rfl, rfl⟩
  obtain ⟨remark, hremark, hfinding⟩ := Run.exists_remark_of_mem_gathered hbuiltin
    (Findings.mem_of_mem_ordered hg) (hruleId ▸ hid)
  obtain ⟨hremarkId, hremarkSpan, hnone, hfix, -⟩ := Context.of_finding_eq_ok hfinding
  have hbuilt : (buildPatch run.unit g).1 = some patch := by
    rcases hmade with hmade | hmade
    · rw [hpatch] at hmade
      cases hmade
    · rw [← withPatch_patch hnone, ← hmade, hpatch]
  obtain ⟨request, hrequest, hcases⟩ := buildPatch_eq_some hbuilt
  refine ⟨remark, hremark, by rw [← hremarkId, hruleId], by rw [← hremarkSpan, hspan], request,
    hfix request hrequest, ?_⟩
  exact hcases.imp And.left And.right

/-- **What the patches for sentences make of comments.**  Each such patch of a run with the built-in
evaluators belongs to a comment that is checked, and puts a period into it if the source of the
comment ends with its last line. -/
theorem completesSentence_iff_of_analyze {run : Run} {result : FileResult} {path text : String}
    {tree : Members} (hread : readTree path text tree = .ok run.unit)
    (hbuiltin : run.evaluators = builtinEvaluators) (hrun : analyze run = .ok result) {f : Finding}
    (hf : f ∈ result.findings) (hid : f.ruleId = "DOC003") {patch : Patch}
    (hpatch : f.patch = some patch) :
    ∃ comment, run.unit.ChecksSentence comment ∧ f.span = comment.span ∧
      ∃ raws line, comment.lines = raws ++ [line] ∧
        (Text.endsWith (run.unit.textAt comment.span) line = true →
          ∃ patched, run.unit.PutsPeriod comment line patch patched) := by
  obtain ⟨remark, hremark, hremarkId, hspan, request, hfix, hedits⟩ :=
    run.exists_request_of_patch hbuiltin hrun hf (by rw [hid]; decide) hpatch
  obtain ⟨comment, hchecked, hsentence⟩ :=
    exists_comment_of_mem_documentationRemarks hremark (hremarkId.trans hid)
  obtain ⟨htext, hplace, hasked, raws, line, hlines, hline⟩ := sentenceRemark?_eq_some hsentence
  obtain rfl := Option.some.inj (hasked.symm.trans hfix)
  refine ⟨comment, hchecked, by rw [← hspan, hplace], raws, line, hlines, fun hends => ?_⟩
  obtain ⟨-, -, history, htells⟩ := exists_history_of_readTree hread
  have hcanonical := (isCanonical_of_mem_spans htells (List.mem_append_left _
    (hplace ▸ span_mem_nodeSpans_of_mem_documentationRemarks hremark))).2
  -- The request is no renaming, and there is one edit to be made.
  have hperiod : patch.edits = [⟨(periodRequest run.unit comment).span, "."⟩] := by
    rcases hedits with hrename | ⟨replacement, hreplacement, hedits⟩
    · exact absurd hrename
        (show FixTemplate.replace.label ≠ FixTemplate.rename.label by decide)
    · rw [hedits, ← Option.some.inj hreplacement]
      rfl
  obtain ⟨patched, hpath, hpatched⟩ : ∃ patched : SourceText, patched.path = run.unit.path ∧
      patched.text = (TextEdit.mk (periodRequest run.unit comment).span ".").apply run.unit.text :=
    ⟨{ path := run.unit.path, text := TextEdit.apply _ _ }, rfl, rfl⟩
  have happlied : applyPatches run.unit.text [patch] = .ok patched.text := by
    rw [applyPatches_of_pairwise _ (List.pairwise_singleton _ _), editsFromEnd,
      List.flatMap_singleton, hperiod, hpatched]
    rfl
  have hold : comment.text = commentText (raws ++ [line]) := by rw [CommentBlock.text, hlines]
  have hnew : (comment.lengthened patched).text = commentText (raws ++ [withPeriod line]) := by
    rw [CommentBlock.text,
      lines_lengthened hlines hline hcanonical.nonneg hcanonical.le_length hends hpatched]
  have hperiodChars : (comment.lengthened patched).text.toList =
      (charsAbove raws ++ (lineContent line).dropWhile Text.isBlank).dropWhile Text.isBlank ++
        ['.'] := by
    rw [hnew, toList_commentText_withPeriod hline]
  refine ⟨patched, hpath, hperiod, happlied, fun unit => sentenceRemark?_eq_none hperiodChars, ?_⟩
  rw [hnew, hold]
  exact commentText_withPeriod_eq_iff hline (hold ▸ htext)

/-! ## A sentence and an empty line -/

/-- The declaration of a type below a comment, given by its lines. -/
def squareText (lines : List String) : SourceText where
  path := "p.go"
  text := "package p\n\n" ++ Text.join "\n" lines ++ "\ntype Square int\n"

def squareTree (lines : List String) : Members :=
  node "File" 0 (stop + 17) [
    ("package", name 8 9 "p"),
    ("comments", .arr [.obj (node "CommentGroup" 11 stop [
      ("list", .arr (lines.map fun line =>
        .obj (node "Comment" 11 stop [("text", .str line)])))])]),
    ("decls", .arr [.obj (node "GenDecl" (stop + 1) (stop + 16) [
      ("tok", .str "type"), ("lparen", .bool false),
      ("specs", .arr [.obj (node "TypeSpec" (stop + 6) (stop + 16) [
        ("name", name (stop + 6) (stop + 12) "Square"),
        ("type", name (stop + 13) (stop + 16) "int")])])])])]
where
  stop : Int := 11 + (Text.join "\n" lines).length
  node (kind : String) (start stop : Int) (parts : Members) : Members :=
    spannedNode kind ((squareText lines).spanOf start stop) parts
  name (start stop : Int) (text : String) : Json :=
    .obj (node "Ident" start stop [("name", .str text)])

/-- The comment of two lines is given a period, in front of the space at its end. -/
theorem completesSentence_squareTree : ∃ unit result,
    readTree "p.go" (squareText ["// Square is a", "// square "]).text
        (squareTree ["// Square is a", "// square "]) = .ok unit ∧
      analyze { unit } = .ok result ∧
      (∃ f ∈ result.findings, f.ruleId = "DOC003" ∧ f.patch ≠ none) ∧
      ∀ f ∈ result.findings, f.ruleId = "DOC003" → ∀ patch, f.patch = some patch →
        ∃ comment, unit.ChecksSentence comment ∧ f.span = comment.span ∧
          ∃ raws line, comment.lines = raws ++ [line] ∧
            (Text.endsWith (unit.textAt comment.span) line = true →
              ∃ patched, unit.PutsPeriod comment line patch patched) := by
  have hpatches : ((readTree "p.go" (squareText ["// Square is a", "// square "]).text
      (squareTree ["// Square is a", "// square "])).toOption.bind fun unit =>
        (analyze { unit }).toOption.map fun result =>
          decide (∃ f ∈ result.findings, f.ruleId = "DOC003" ∧ f.patch ≠ none)) = some true := by
    decide +kernel
  obtain ⟨unit, hunit, hpatches⟩ := Option.bind_eq_some_iff.mp hpatches
  obtain ⟨result, hresult, hpatches⟩ := Option.map_eq_some_iff.mp hpatches
  let run : Run := { unit }
  have hread : readTree "p.go" (squareText ["// Square is a", "// square "]).text
      (squareTree ["// Square is a", "// square "]) = .ok run.unit := toOption_eq_some.mp hunit
  have hanalyze : analyze run = .ok result := toOption_eq_some.mp hresult
  exact ⟨unit, result, hread, hanalyze, of_decide_eq_true hpatches, fun f hf hid patch hpatch =>
    completesSentence_iff_of_analyze hread rfl hanalyze hf hid hpatch⟩

/-- **Not every sentence is completed**: below an empty line comment the period stands alone. -/
theorem not_forall_completesSentence :
    ¬ ∀ (run : Run) (result : FileResult) (path text : String) (tree : Members),
      readTree path text tree = .ok run.unit → run.evaluators = builtinEvaluators →
      analyze run = .ok result → ∀ f ∈ result.findings, f.ruleId = "DOC003" →
      ∀ patch, f.patch = some patch → ∀ comment, run.unit.ChecksSentence comment →
      f.span = comment.span → ∀ line, comment.lines.getLast? = some line →
      Text.endsWith (run.unit.textAt comment.span) line = true →
      ∀ patched : SourceText, applyPatches run.unit.text [patch] = .ok patched.text →
        (comment.lengthened patched).text = comment.text ++ "." := by
  intro hall
  have hperiod : ((readTree "p.go" (squareText ["// Square is a square", "//"]).text
      (squareTree ["// Square is a square", "//"])).toOption.bind fun unit =>
        (analyze { unit }).toOption.map fun result =>
          decide (∃ f ∈ result.findings, f.ruleId = "DOC003" ∧ ∃ patch ∈ f.patch,
            ∃ decl ∈ unit.exportedDeclarations, ∃ comment ∈ decl.doc, f.span = comment.span ∧
              ∃ line ∈ comment.lines.getLast?,
                Text.endsWith (unit.textAt comment.span) line = true ∧
                  ∃ text ∈ (applyPatches unit.text [patch]).toOption,
                    (comment.lengthened ⟨"p.go", text⟩).text ≠ comment.text ++ ".")) =
      some true := by
    decide +kernel
  obtain ⟨unit, hunit, hperiod⟩ := Option.bind_eq_some_iff.mp hperiod
  obtain ⟨result, hresult, hperiod⟩ := Option.map_eq_some_iff.mp hperiod
  obtain ⟨f, hf, hid, patch, hpatch, decl, hdecl, comment, hcomment, hspan, line, hline, hends,
    text, htext, hne⟩ := of_decide_eq_true hperiod
  exact hne (hall { unit } result _ _ _ (toOption_eq_some.mp hunit) rfl
    (toOption_eq_some.mp hresult) f hf hid patch hpatch comment (.inr ⟨decl, hdecl, hcomment⟩) hspan
    line hline hends ⟨"p.go", text⟩ (toOption_eq_some.mp htext))

end GoConventions
