import GoConventions.Proofs.Analysis.Reports
import GoConventions.Proofs.Convention.Remarks
import GoConventions.Proofs.Fix.Renaming
import GoConventions.Proofs.Settings.Reader

/-!
# Runs in which nothing fails

An evaluator that fails loses all its findings.  The built-in evaluators do not fail on a tree whose
positions are well nested: whatever they look up in the model or in the settings is there, they name
rules that are enabled only, and what they find lies in the file, with the edits that it leads to.
This asks nothing of the settings, the catalog and the exclusions but that they are accepted.

The edits of a patch lie in the file because each is at a place that the finding asks to replace, or
at an identifier of the model.

## Main definitions

* `Patch.LiesIn`, `Finding.LiesIn`: patches and findings that lie in a file.
* `Run.IsSound`: a run in which nothing fails.

## Main results

* `isSound_of_readTree`: the runs of the built-in evaluators on a well nested tree are sound.
-/

namespace GoConventions

variable {unit : SourceUnit} {f : Finding} {patch : Patch}

/-! ## Patches in the file -/

/-- The edits of a patch lie in a file. -/
def Patch.LiesIn (unit : SourceUnit) (patch : Patch) : Prop :=
  ∀ edit ∈ patch.edits, unit.containsSpan edit.span = true

/-- A finding lies in a file, with the edits of its patch, and reports no failure. -/
structure Finding.LiesIn (unit : SourceUnit) (f : Finding) : Prop where
  ruleId_ne : f.ruleId ≠ internalRuleId
  span : unit.containsSpan f.span = true
  patch : ∀ patch ∈ f.patch, patch.LiesIn unit

/-- The occurrences of a name are identifiers of the file. -/
theorem mem_identifiers_of_occurrences {name : String} {identifier : Identifier}
    (h : identifier ∈ unit.occurrences name) : identifier ∈ unit.identifiers :=
  List.mem_of_mem_filter h

/-- A renaming writes at the place of the finding and at identifiers. -/
theorem containsSpan_of_mem_renameEdits (h : unit.SpansInside) {request : FixRequest}
    (hrequest : unit.containsSpan request.span = true) {old new : String} :
    ∀ edit ∈ renameEdits unit request old new, unit.containsSpan edit.span = true := by
  intro edit hedit
  obtain ⟨-, hspan | ⟨identifier, hidentifier, -, hspan⟩⟩ := mem_renameEdits hedit
  · rw [hspan]
    exact hrequest
  · rw [hspan]
    exact h.of_identifier (mem_identifiers_of_occurrences hidentifier)

theorem liesIn_of_buildPatch (h : unit.SpansInside) (hf : f.Inside unit)
    (hpatch : (buildPatch unit f).1 = some patch) : patch.LiesIn unit := by
  obtain ⟨request, hfix, hedits⟩ := buildPatch_eq_some hpatch
  have hrequest := hf.requests request hfix
  unfold Patch.LiesIn
  rcases hedits with ⟨-, old, new, -, -, hedits⟩ | ⟨-, replacement, -, hedits⟩
  · rw [hedits]
    exact containsSpan_of_mem_renameEdits h hrequest
  · rw [hedits]
    exact List.forall_mem_singleton.mpr hrequest

/-- A finding of an evaluator lies in the file with the patch that is made for it. -/
theorem liesIn_withPatch (h : unit.SpansInside) (hf : f.Inside unit) (hnone : f.patch = none) :
    (withPatch unit f).LiesIn unit := by
  have hpatch : (withPatch unit f).patch = (buildPatch unit f).1 := withPatch_patch hnone
  rw [withPatch_eq]
  refine ⟨hf.ruleId_ne, hf.span, fun patch hmem => liesIn_of_buildPatch h hf ?_⟩
  rw [← hpatch]
  exact hmem

/-- Whether a finding keeps its patch or has to yield, it lies in the file. -/
theorem liesIn_of_mem_result {findings : Findings}
    (hall : ∀ g ∈ findings, (withPatch unit g).LiesIn unit) :
    ∀ f ∈ (findings.result unit).findings, f.LiesIn unit := by
  intro f hf
  obtain ⟨g, hg, hpatch, heq⟩ := Findings.of_mem_result hf
  have hlies := hall g (Findings.mem_of_mem_ordered hg)
  rw [withPatch_eq] at hlies
  rw [heq]
  refine ⟨hlies.ruleId_ne, hlies.span, fun patch hmem => ?_⟩
  rcases hpatch with hnone | hkept
  · rw [hnone] at hmem
    cases hmem
  · exact hlies.patch patch (hkept ▸ hmem)

/-! ## Runs -/

/-- A run in which nothing fails: what is looked up is there, every evaluator answers, and what it
finds lies in the file, with the patches that are made of it. -/
structure Run.IsSound (run : Run) : Prop where
  complete : run.unit.Complete
  bands : ∀ lines, ∃ band ∈ run.settings.scopeBands, run.settings.bandFor? lines = some band
  evaluates : ∀ evaluator ∈ run.evaluators, ∃ findings,
    evaluator.evaluate (run.context evaluator.category) = .ok findings ∧
      ∀ f ∈ findings, (withPatch run.unit f).LiesIn run.unit
  result : ∃ result, analyze run = .ok result ∧ ∀ f ∈ result.findings, f.LiesIn run.unit

namespace Run

variable {run : Run} {evaluator : Evaluator}

theorem exists_findings_of_builtin (h : run.unit.SpansInside) (hcomplete : run.unit.Complete)
    (hbands : run.settings.scopeBands ≠ []) (hbuiltin : evaluator ∈ builtinEvaluators) :
    ∃ findings, evaluator.evaluate (run.context evaluator.category) = .ok findings ∧
      ∀ f ∈ findings, (withPatch run.unit f).LiesIn run.unit := by
  obtain ⟨findings, hfindings, hinside⟩ :=
    @evaluate_eq_ok_of_builtin (run.context evaluator.category) h hcomplete hbands _ hbuiltin
  refine ⟨findings, hfindings, fun f hf => liesIn_withPatch h (hinside f hf) ?_⟩
  exact (isChecked_of_builtin _ hbuiltin hfindings f hf).1

/-- An evaluator fails neither in its rules nor because of where its findings lie. -/
theorem failure?_eq_none_of_builtin (h : run.unit.SpansInside) (hcomplete : run.unit.Complete)
    (hbands : run.settings.scopeBands ≠ []) (hbuiltin : evaluator ∈ builtinEvaluators) :
    run.failure? evaluator = none := by
  obtain ⟨findings, hfindings, hinside⟩ :=
    exists_findings_of_builtin h hcomplete hbands hbuiltin
  have hspans : ∀ f ∈ findings, run.unit.containsSpan f.span = true := by
    intro f hf
    have hlies := hinside f hf
    rw [withPatch_eq] at hlies
    exact hlies.span
  refine failure?_eq_none_iff.mpr ?_
  unfold attempt
  split
  · exact ⟨findings, answer_eq_ok.mpr ⟨hfindings, hspans⟩⟩
  · exact ⟨[], rfl⟩

theorem liesIn_of_mem_gathered (h : run.unit.SpansInside) (hcomplete : run.unit.Complete)
    (hbands : run.settings.scopeBands ≠ []) (hbuiltin : run.evaluators = builtinEvaluators) :
    ∀ f ∈ run.gathered, (withPatch run.unit f).LiesIn run.unit := by
  intro f hf
  obtain ⟨evaluator, he, hadded⟩ := List.mem_flatMap.mp hf
  rw [hbuiltin] at he
  obtain ⟨batch, hbatch, hmem⟩ :=
    mem_batch_of_mem_added (failure?_eq_none_of_builtin h hcomplete hbands he) hadded
  obtain ⟨findings, hfindings, hlies⟩ := exists_findings_of_builtin h hcomplete hbands he
  obtain rfl := Except.ok.inj (hfindings.symm.trans hbatch)
  exact hlies f hmem

/-- Nothing fails in a run of the built-in evaluators on a file whose spans are ranges of the text
and in which what is looked up is there. -/
theorem isSound_of_spansInside (h : run.unit.SpansInside) (hcomplete : run.unit.Complete)
    (hbands : run.settings.scopeBands ≠ []) (hbuiltin : run.evaluators = builtinEvaluators)
    (hproceeds : ∀ poll, run.isCancelled poll = false) : run.IsSound where
  complete := hcomplete
  bands := Settings.exists_bandFor? hbands
  evaluates evaluator he := exists_findings_of_builtin h hcomplete hbands (hbuiltin ▸ he)
  result := by
    have hanalyze := analyze_eq_ok_of_failure_eq_none hproceeds fun evaluator he =>
      failure?_eq_none_of_builtin h hcomplete hbands (hbuiltin ▸ he)
    exact ⟨_, hanalyze,
      liesIn_of_mem_result (liesIn_of_mem_gathered h hcomplete hbands hbuiltin)⟩

end Run

/-- **The built-in evaluators do not fail on a well nested tree.**  For a tree and settings that are
accepted, any rules and any exclusions, every evaluator answers, its findings and the edits that
they lead to lie in the file, and the result reports no failure. -/
theorem isSound_of_readTree {path text : String} {tree members : Members} {unit : SourceUnit}
    {settings : Settings} (htree : readTree path text tree = .ok unit)
    (hnested : SourceText.WellNested ⟨path, text⟩ tree)
    (hsettings : (Settings.ofMembers members).1 = .ok settings) (registry : Registry)
    (exclude : List String) :
    Run.IsSound { unit, registry, settings, exclude } :=
  Run.isSound_of_spansInside (spansInside_of_readTree htree hnested)
    (complete_of_readTree htree) (Settings.scopeBands_ne_nil_of_ofMembers hsettings) rfl
    fun _ => rfl

/-- An import under its own name, and a variable whose comment stands behind it. -/
def aliasedText : String :=
  "package p;import fmt \x22fmt\x22;var A_b=1 // why"

def aliasedTree : Members :=
  lineNode "File" 0 36 [
    ("package", .obj (lineNode "Ident" 8 9 [("name", .str "p")])),
    ("decls", .arr [
      .obj (lineNode "GenDecl" 10 26 [
        ("tok", .str "import"),
        ("specs", .arr [.obj (lineNode "ImportSpec" 17 26 [
          ("name", .obj (lineNode "Ident" 17 20 [("name", .str "fmt")])),
          ("path", .obj (lineNode "BasicLit" 21 26 [("value", .str "\x22fmt\x22")]))])])]),
      .obj (lineNode "GenDecl" 27 36 [
        ("tok", .str "var"),
        ("specs", .arr [.obj (lineNode "ValueSpec" 31 36 [
          ("names", .arr [.obj (lineNode "Ident" 31 34 [("name", .str "A_b")])]),
          ("comment", .obj (lineNode "CommentGroup" 37 43 [
            ("list", .arr [.obj (lineNode "Comment" 37 43 [("text", .str "// why")])])]))])])])])]

/-- A single band of two words. -/
def twoWordMembers : Members :=
  [("scope_bands", .arr [.obj [("max_tokens", .int 2)]])]

/-- The alias is taken away and the variable renamed, in a run of the two rules that say so. -/
theorem isSound_aliasedTree : ∃ unit settings result,
    readTree "p.go" aliasedText aliasedTree = .ok unit ∧
      (Settings.ofMembers twoWordMembers).1 = .ok settings ∧
      settings.scopeBands = [⟨none, 1, 2, false⟩] ∧
      let run : Run := {
        unit, settings
        exclude := packagedRegistry.ids.filter fun id => id != "IMP004" && id != "NAM001" }
      run.IsSound ∧ analyze run = .ok result ∧
        result.patches.map (·.ruleId) = ["IMP004", "NAM001"] := by
  have hsettings : (Settings.ofMembers twoWordMembers).1.toOption.map (·.scopeBands) =
      some [⟨none, 1, 2, false⟩] := by decide +kernel
  obtain ⟨settings, hsettings, hbands⟩ := Option.map_eq_some_iff.mp hsettings
  have hresult : ((readTree "p.go" aliasedText aliasedTree).toOption.bind fun unit =>
      (Settings.ofMembers twoWordMembers).1.toOption.bind fun settings =>
      (analyze { unit, settings, exclude := packagedRegistry.ids.filter fun id =>
        id != "IMP004" && id != "NAM001" }).toOption.map fun result =>
          result.patches.map (·.ruleId)) = some ["IMP004", "NAM001"] := by decide +kernel
  obtain ⟨unit, hunit, hresult⟩ := Option.bind_eq_some_iff.mp hresult
  rw [hsettings, Option.bind_some] at hresult
  obtain ⟨result, hresult, hpatches⟩ := Option.map_eq_some_iff.mp hresult
  have htree := toOption_eq_some.mp hunit
  have hsettings := toOption_eq_some.mp hsettings
  exact ⟨unit, settings, result, htree, hsettings, hbands,
    isSound_of_readTree htree (by decide +kernel) hsettings _ _,
    toOption_eq_some.mp hresult, hpatches⟩

end GoConventions
