import GoConventions.Proofs.Analysis.Run
import GoConventions.Proofs.Finding.Aggregation
import GoConventions.Proofs.Fix.Application
import Mathlib.Data.List.Perm.Subperm

/-!
# The patches of a run

Whatever evaluators report, the patches of a result do not overlap, because they have been judged
against one another when they were made.  Not to overlap is a symmetric relation, so it holds of any
choice among these patches, in any order, and this is all that applying patches asks for.

## Main results

* `applyPatches_of_analyze`: the patches of a run can be applied together.
-/

namespace GoConventions

/-- Overlapping does not depend on the order, so patches may be left out and moved about. -/
theorem pairwise_not_overlaps_of_subperm {patches chosen : List Patch}
    (h : patches.Pairwise fun p q => p.overlaps q = false) (hchosen : chosen.Subperm patches) :
    chosen.Pairwise fun p q => p.overlaps q = false := by
  obtain ⟨sub, hperm, hsub⟩ := hchosen
  refine hperm.pairwise (h.sublist hsub) fun {p q} hpq => ?_
  rwa [Patch.overlaps_comm]

/-- **The patches of a run can be applied together**, all of them or some, in any order. -/
theorem applyPatches_of_analyze {run : Run} {result : FileResult} (h : analyze run = .ok result) :
    ∀ patches : List Patch, patches.Subperm result.patches →
      ∃ text, applyPatches run.unit.text patches = .ok text := by
  obtain ⟨progress, -, rfl⟩ := analyze_eq_ok.mp h
  intro patches hpatches
  exact ⟨_, applyPatches_of_pairwise run.unit.text
    (pairwise_not_overlaps_of_subperm Findings.pairwise_not_overlaps_patches hpatches)⟩

/-! ## Rival patches -/

/-- A file without declarations. -/
def plainText : SourceText := ⟨"a.go", "package a"⟩

/-- A finding that asks for a replacement where it is. -/
def replacementFinding (ruleId : String) (severity : Severity) (span : Span) (text : String) :
    Finding where
  ruleId
  category := "naming"
  severity
  path := "a.go"
  span
  message := ""
  guidance := ""
  fix := some { template := "replace", span, replacement := some text }

/-- A run with an evaluator that reports findings whose replacements overlap, one that fails, and
one that asks for an insertion where a replacement ends. -/
def rivalRun : Run where
  unit := {
    toSourceText := plainText
    packageName := "a"
    packageSpan := plainText.wholeSpan
    packageDoc := none
    declarations := []
    scopes := [⟨0, .file, plainText.wholeSpan, none, 0, [], []⟩]
    comments := []
    imports := []
    identifiers := []
    calls := [] }
  evaluators := [
    ⟨.naming, fun _ => .ok [replacementFinding "NAM001" .warning (plainText.spanOf 0 4) "x",
      replacementFinding "NAM006" .error (plainText.spanOf 2 7) "y"]⟩,
    ⟨.imports, fun _ => .error (.raised "stuck")⟩,
    ⟨.formatting, fun _ =>
      .ok [replacementFinding "FMT001" .suggestion (plainText.spanOf 7 7) "z"]⟩]

theorem applyPatches_rivalRun : ∃ result, analyze rivalRun = .ok result ∧
    result.patches.map (·.ruleId) = ["NAM006", "FMT001"] ∧
    ∃ text, applyPatches rivalRun.unit.text result.patches.reverse = .ok text := by
  have hkept : (analyze rivalRun).toOption.map (fun result => result.patches.map (·.ruleId)) =
      some ["NAM006", "FMT001"] := by decide +kernel
  cases hanalyze : analyze rivalRun with
  | error fault => simp [hanalyze, Except.toOption] at hkept
  | ok result =>
    rw [hanalyze] at hkept
    exact ⟨result, rfl, Option.some.inj hkept,
      applyPatches_of_analyze hanalyze _ (List.reverse_perm _).subperm⟩

end GoConventions
