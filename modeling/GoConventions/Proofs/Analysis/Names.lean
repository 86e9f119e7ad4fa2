import GoConventions.Proofs.Analysis.Run
import GoConventions.Proofs.Convention.Remarks
import GoConventions.Proofs.Finding.Aggregation
import GoConventions.Proofs.Fix.Renaming
import Mathlib.Data.List.Pairwise

/-!
# Names after a run

A renaming is offered only when its new name is not declared where it would be written.  Each is
checked against the declarations of the file, and not against the other renamings of the run.  This
module says what that comes to once all patches have been applied: two declarations that meet have
one name afterwards exactly when both have been renamed to it, or when the name of one has been
rewritten by an edit that is not about it (`nameAfter_eq_nameAfter_iff`).

## Main definitions

* `FileResult.nameAfter`: the name of a declaration after all patches have been applied.
* `StrayEdit`: an edit that writes a declared name where it is not meant to.

## Main results

* `writtenName?_eq_some_iff`: the text that is written at a name does not depend on the order of the
  patches.
* `nameAfter_eq_nameAfter_iff`: when two declarations have one name afterwards.
-/

namespace GoConventions

/-! ## What is written at a name -/

/-- The text that the patches of a result write at the name of a declaration. -/
def FileResult.writtenName? (result : FileResult) (decl : Declaration) : Option String :=
  ((result.patches.flatMap Patch.edits).find? (·.span == decl.nameSpan)).map (·.newText)

/-- The name of a declaration after all patches have been applied. -/
def FileResult.nameAfter (result : FileResult) (decl : Declaration) : String :=
  (result.writtenName? decl).getD decl.name

/-- A finding of a result with what is known about it when the built-in evaluators have reported
it: its request has been checked, and its patch is made from that request. -/
def Finding.IsBuilt (unit : SourceUnit) (f : Finding) : Prop :=
  (∀ request, f.fix = some request → request.IsChecked unit) ∧
    ∀ patch, f.patch = some patch →
      ∃ g : Finding, g.fix = f.fix ∧ (buildPatch unit g).1 = some patch

section Builtin

variable {run : Run} {result : FileResult}

/-- All that a run with the built-in evaluators gathers: what is known of the batches and of the
reports. -/
theorem isChecked_of_evaluateAll {progress : Progress}
    (hrun : run.evaluateAll { log := run.openingLog } run.evaluators = (progress, none))
    (hbuiltin : run.evaluators = builtinEvaluators) :
    ∀ f ∈ progress.findings, f.IsChecked run.unit := by
  refine Run.forall_mem_findings (fun evaluator he batch hbatch => ?_) ?_ hrun (by simp)
  · rw [hbuiltin] at he
    exact isChecked_of_builtin (run.context evaluator.category) he hbatch
  · intro category failure f hf
    obtain ⟨rule, -, rfl⟩ := Run.internalFinding_eq_ok.mp hf
    exact ⟨rfl, by simp⟩

/-- The findings of a run with the built-in evaluators. -/
theorem isBuilt_of_analyze (h : analyze run = .ok result)
    (hbuiltin : run.evaluators = builtinEvaluators) :
    ∀ f ∈ result.findings, f.IsBuilt run.unit := by
  obtain ⟨progress, hrun, rfl⟩ := analyze_eq_ok.mp h
  intro f hf
  obtain ⟨g, hg, hpatch, heq⟩ := Findings.of_mem_result hf
  obtain ⟨hnone, hchecked⟩ :=
    isChecked_of_evaluateAll hrun hbuiltin g (Findings.mem_of_mem_ordered hg)
  have hfix : f.fix = g.fix := by rw [heq]
  refine ⟨fun request hrequest => hchecked request (hfix ▸ hrequest), fun patch hf => ?_⟩
  rcases hpatch with hpatch | hpatch
  · simp [hf] at hpatch
  · exact ⟨g, hfix.symm, by rw [← withPatch_patch hnone, ← hpatch, hf]⟩

/-- A patch of a result is that of a finding of it. -/
theorem FileResult.mem_patches {patch : Patch} :
    patch ∈ result.patches ↔ ∃ f ∈ result.findings, f.patch = some patch := by
  simp [FileResult.patches]

/-- At one place the patches of a run write one text: edits of different patches do not begin at the
same offset, and a patch writes the same text everywhere. -/
theorem newText_eq_of_mem_patches (h : analyze run = .ok result)
    (hbuiltin : run.evaluators = builtinEvaluators) {p q : Patch} {e f : TextEdit}
    (hp : p ∈ result.patches) (hq : q ∈ result.patches) (he : e ∈ p.edits) (hf : f ∈ q.edits)
    (hspan : e.span = f.span) : e.newText = f.newText := by
  have hpairwise : result.patches.Pairwise fun p q => p.overlaps q = false := by
    obtain ⟨progress, -, rfl⟩ := analyze_eq_ok.mp h
    exact Findings.pairwise_not_overlaps_patches
  -- One patch has been made from one request; two patches do not overlap.
  by_cases hpq : p = q
  · subst hpq
    obtain ⟨finding, hfinding, hpatch⟩ := FileResult.mem_patches.mp hp
    obtain ⟨g, -, hbuilt⟩ := (isBuilt_of_analyze h hbuiltin finding hfinding).2 p hpatch
    exact newText_eq_of_buildPatch hbuilt he hf
  · have hsymm : Std.Symm fun p q : Patch => p.overlaps q = false :=
      ⟨fun p q hpq => by rwa [Patch.overlaps_comm]⟩
    have hfree := hpairwise.forall hp hq hpq
    have hclash : e.clashes f = true := by simp [TextEdit.clashes, hspan]
    simp [Patch.overlaps_iff.mpr ⟨e, he, f, hf, hclash⟩] at hfree

/-- **What is written at a name does not depend on the order of the patches.** -/
theorem writtenName?_eq_some_iff (h : analyze run = .ok result)
    (hbuiltin : run.evaluators = builtinEvaluators) {decl : Declaration} {name : String} :
    result.writtenName? decl = some name ↔
      ∃ patch ∈ result.patches, ⟨decl.nameSpan, name⟩ ∈ patch.edits := by
  rw [FileResult.writtenName?, Option.map_eq_some_iff]
  constructor
  · rintro ⟨edit, hfind, rfl⟩
    obtain ⟨patch, hpatch, hedit⟩ := List.mem_flatMap.mp (List.mem_of_find?_eq_some hfind)
    have hspan : edit.span = decl.nameSpan := by simpa using List.find?_some hfind
    exact ⟨patch, hpatch, hspan ▸ hedit⟩
  · rintro ⟨patch, hpatch, hedit⟩
    have hsome : ((result.patches.flatMap Patch.edits).find?
        (·.span == decl.nameSpan)).isSome = true :=
      List.find?_isSome.mpr ⟨_, List.mem_flatMap.mpr ⟨patch, hpatch, hedit⟩, by simp⟩
    obtain ⟨found, hfound⟩ := Option.isSome_iff_exists.mp hsome
    obtain ⟨patch', hpatch', hedit'⟩ := List.mem_flatMap.mp (List.mem_of_find?_eq_some hfound)
    have hspan : found.span = decl.nameSpan := by simpa using List.find?_some hfound
    exact ⟨found, hfound, newText_eq_of_mem_patches h hbuiltin hpatch' hpatch hedit' hedit hspan⟩

end Builtin

/-! ## Names that fall together -/

/-- An edit of a result that writes the name of `e` at the name of `d` without being the renaming of
`d`: a replacement, or the renaming of another, local declaration that does not meet `e` and within
whose scope the name of `d` stands. -/
def FileResult.StrayEdit (unit : SourceUnit) (result : FileResult) (d e : Declaration) : Prop :=
  ∃ f ∈ result.findings, ∃ patch request, f.patch = some patch ∧ f.fix = some request ∧
    ⟨d.nameSpan, e.name⟩ ∈ patch.edits ∧
    (request.template ≠ FixTemplate.rename.label ∨
      ∃ other ∈ unit.declarations, other ≠ d ∧
        renameRequest? unit other e.name = .ok (some request) ∧
        other.scope ≠ 0 ∧ e.scope ≠ 0 ∧ ¬ unit.ScopesMeet other e ∧
        (d.nameSpan = other.nameSpan ∨ unit.scopeHolds other.scope d.nameSpan = true))

/-- The name of `d` becomes that of `e`, which is left as it is. -/
structure FileResult.Overwritten (unit : SourceUnit) (result : FileResult) (d e : Declaration) :
    Prop where
  written : result.writtenName? d = some e.name
  kept : result.writtenName? e = none
  stray : result.StrayEdit unit d e

section Names

variable {run : Run} {result : FileResult} {d e : Declaration}

/-- The renaming of a declaration is checked against every declaration that meets it, so it never
writes the name of one of them. -/
theorem strayEdit_of_writtenName? (h : analyze run = .ok result)
    (hbuiltin : run.evaluators = builtinEvaluators) (he : e ∈ run.unit.declarations)
    (hmeet : run.unit.ScopesMeet d e) (hwritten : result.writtenName? d = some e.name) :
    result.StrayEdit run.unit d e := by
  obtain ⟨patch, hpatch, hedit⟩ := (writtenName?_eq_some_iff h hbuiltin).mp hwritten
  obtain ⟨f, hf, hfpatch⟩ := FileResult.mem_patches.mp hpatch
  obtain ⟨hchecked, hbuilt⟩ := isBuilt_of_analyze h hbuiltin f hf
  obtain ⟨g, hgfix, hg⟩ := hbuilt patch hfpatch
  obtain ⟨request, hrequest, hcases⟩ := buildPatch_eq_some hg
  rw [hgfix] at hrequest
  refine ⟨f, hf, patch, request, hfpatch, hrequest, hedit, ?_⟩
  rcases hcases with ⟨hrename, old, new, -, hnew, hedits⟩ | ⟨hrename, -⟩
  · right
    obtain ⟨other, ⟨hother, -, -⟩, name, hoffer⟩ := hchecked request hrequest hrename
    obtain ⟨hfree, within, -, heq⟩ := of_renameRequest?_eq_some hoffer
    obtain ⟨htext, hplace⟩ := mem_renameEdits (hedits ▸ hedit)
    have hname : name = e.name := by
      rw [heq] at hnew
      exact (Option.some.inj hnew).trans htext.symm
    obtain ⟨hotherScope, hscope, hapart⟩ := hfree e he hname.symm
    -- The renaming of `d` itself would have been refused, because `e` meets `d`.
    have hne : other ≠ d := fun hod => hapart (hod ▸ hmeet)
    refine ⟨other, hother, hne, hname ▸ hoffer, hotherScope, hscope, hapart, ?_⟩
    rcases hplace with hplace | ⟨identifier, -, hcovers, hplace⟩
    · exact Or.inl (hplace.trans (by rw [heq]))
    · right
      simp only at hplace
      rw [covers_eq_renameReaches hoffer] at hcovers
      simp only [SourceUnit.renameReaches, Bool.and_eq_true, Bool.or_eq_true, beq_iff_eq,
        hotherScope, false_or] at hcovers
      exact hplace ▸ hcovers.2
  · exact Or.inl hrename

/-- **When two declarations have one name afterwards.**  Declarations that meet and have different
names have one name after all patches of a run have been applied exactly when both have been renamed
to it, or when a stray edit writes the name of one at the other. -/
theorem nameAfter_eq_nameAfter_iff (h : analyze run = .ok result)
    (hbuiltin : run.evaluators = builtinEvaluators) (hd : d ∈ run.unit.declarations)
    (he : e ∈ run.unit.declarations) (hname : d.name ≠ e.name)
    (hmeet : run.unit.ScopesMeet d e) :
    result.nameAfter d = result.nameAfter e ↔
      (∃ name, result.writtenName? d = some name ∧ result.writtenName? e = some name) ∨
        result.Overwritten run.unit d e ∨ result.Overwritten run.unit e d := by
  unfold FileResult.nameAfter
  constructor
  · intro hafter
    cases hwd : result.writtenName? d with
    | none =>
      cases hwe : result.writtenName? e with
      | none =>
        rw [hwd, hwe] at hafter
        exact absurd hafter hname
      | some name =>
        rw [hwd, hwe] at hafter
        obtain rfl : name = d.name := hafter.symm
        exact Or.inr (Or.inr ⟨hwe, hwd,
          strayEdit_of_writtenName? h hbuiltin hd hmeet.symm hwe⟩)
    | some name =>
      cases hwe : result.writtenName? e with
      | none =>
        rw [hwd, hwe] at hafter
        obtain rfl : name = e.name := hafter
        exact Or.inr (Or.inl ⟨hwd, hwe, strayEdit_of_writtenName? h hbuiltin he hmeet hwd⟩)
      | some name' =>
        rw [hwd, hwe] at hafter
        exact Or.inl ⟨name, rfl, congrArg some hafter.symm⟩
  · rintro (⟨name, hwd, hwe⟩ | ⟨hwd, hwe, -⟩ | ⟨hwe, hwd, -⟩) <;> rw [hwd, hwe] <;> rfl

end Names

/-! ## Two renamings to one name -/

/-- A package of two constants whose names differ in their low lines only. -/
def lowLineText : SourceText where
  path := "p.go"
  text := "package p\n\nconst a_b = 1\nconst a__b = 2\n"

def lowLineConstant (name : String) (span nameSpan : Span) : Declaration where
  name
  kind := .constant
  exported := false
  scope := 0
  span
  nameSpan

/-- The constant with one low line. -/
def singleLowLine : Declaration :=
  lowLineConstant "a_b" (lowLineText.spanOf 11 24) (lowLineText.spanOf 17 20)

/-- The constant with two low lines. -/
def doubleLowLine : Declaration :=
  lowLineConstant "a__b" (lowLineText.spanOf 25 39) (lowLineText.spanOf 31 35)

/-- A run over this package with all defaults. -/
def lowLineRun : Run where
  unit := {
    toSourceText := lowLineText
    packageName := "p"
    packageSpan := lowLineText.spanOf 0 9
    packageDoc := none
    declarations :=
      [{ name := "p", kind := .package, exported := false, scope := 0
         span := lowLineText.spanOf 0 9, nameSpan := lowLineText.spanOf 8 9 },
        singleLowLine, doubleLowLine]
    scopes := [⟨0, .file, lowLineText.wholeSpan, none, 0, [], [0, 1, 2]⟩]
    comments := []
    imports := []
    identifiers := [⟨"a_b", lowLineText.spanOf 17 20, false⟩,
      ⟨"a__b", lowLineText.spanOf 31 35, false⟩]
    calls := [] }

/-- Both constants are renamed to `aB`, a name that neither of them had. -/
theorem exists_result_lowLineRun : ∃ result, analyze lowLineRun = .ok result ∧
    result.writtenName? singleLowLine = some "aB" ∧
    result.writtenName? doubleLowLine = some "aB" := by
  have hwritten : (analyze lowLineRun).toOption.map (fun result =>
      (result.writtenName? singleLowLine, result.writtenName? doubleLowLine)) =
        some (some "aB", some "aB") := by decide +kernel
  cases hanalyze : analyze lowLineRun with
  | error fault => simp [hanalyze, Except.toOption] at hwritten
  | ok result =>
    rw [hanalyze] at hwritten
    obtain ⟨hsingle, hdouble⟩ := Prod.mk.inj (Option.some.inj hwritten)
    exact ⟨result, rfl, hsingle, hdouble⟩

theorem nameAfter_lowLineRun : ∃ result, analyze lowLineRun = .ok result ∧
    singleLowLine.name ≠ doubleLowLine.name ∧
    lowLineRun.unit.ScopesMeet singleLowLine doubleLowLine ∧
    result.nameAfter singleLowLine = result.nameAfter doubleLowLine := by
  obtain ⟨result, hanalyze, hsingle, hdouble⟩ := exists_result_lowLineRun
  have hname : singleLowLine.name ≠ doubleLowLine.name := by decide
  have hmeet : lowLineRun.unit.ScopesMeet singleLowLine doubleLowLine := Or.inl rfl
  exact ⟨result, hanalyze, hname, hmeet,
    (nameAfter_eq_nameAfter_iff hanalyze rfl (by simp [lowLineRun]) (by simp [lowLineRun]) hname
      hmeet).mpr (Or.inl ⟨"aB", hsingle, hdouble⟩)⟩

/-- **Renamings of one run may give two declarations one name.** -/
theorem not_forall_nameAfter_ne :
    ¬ ∀ (run : Run) (result : FileResult), run.evaluators = builtinEvaluators →
      analyze run = .ok result →
      ∀ d ∈ run.unit.declarations, ∀ e ∈ run.unit.declarations,
        d.kind ≠ .method → e.kind ≠ .method → d.name ≠ e.name → run.unit.ScopesMeet d e →
          result.nameAfter d ≠ result.nameAfter e := by
  intro hall
  obtain ⟨result, hanalyze, hsingle, hdouble⟩ := exists_result_lowLineRun
  refine hall lowLineRun result rfl hanalyze singleLowLine (by simp [lowLineRun])
    doubleLowLine (by simp [lowLineRun]) (by decide) (by decide) (by decide) (Or.inl rfl) ?_
  rw [FileResult.nameAfter, FileResult.nameAfter, hsingle, hdouble]
  rfl

end GoConventions
