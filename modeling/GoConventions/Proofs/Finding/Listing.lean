import GoConventions.Proofs.Finding.Account
import GoConventions.Proofs.Fix.Unpatched

/-!
# What is listed of a finding

The numbers of a result come last and are all that the findings of a result share, so results are
compared without them where findings have been left out.

A finding that asks for nothing goes through the making of patches as it is.  So what is listed of
it is the finding itself, with its number, and a result tells which finding with its key was the
first (`eq_of_result_eq`).

## Main definitions

* `Finding.unnumbered`: a finding without its number.

## Main results

* `Findings.map_unnumbered_filter_result`: a choice from a result, apart from the numbers.
* `Findings.eq_of_result_eq`: what a result tells of a finding that asks for nothing.
-/

namespace GoConventions

/-! ## Findings without their numbers -/

/-- A finding without its number. -/
def Finding.unnumbered (f : Finding) : Finding :=
  { f with ordinal := 0 }

theorem Finding.unnumbered_eq_self {f : Finding} (h : f.ordinal = 0) : f.unnumbered = f := by
  rw [unnumbered, ← h]

namespace Findings

variable {unit : SourceUnit} {findings : Findings}

theorem map_unnumbered_numbered (findings : List Finding) :
    (numbered findings).map Finding.unnumbered = findings.map Finding.unnumbered := by
  refine List.ext_getElem? fun i => ?_
  rw [List.getElem?_map, getElem?_numbered, List.getElem?_map, Option.map_map]
  rfl

/-- A choice by rules does not look at numbers. -/
theorem map_unnumbered_filter (keeps : String → Bool) (findings : List Finding) :
    (findings.filter fun f => keeps f.ruleId).map Finding.unnumbered =
      (findings.map Finding.unnumbered).filter fun f => keeps f.ruleId := by
  rw [List.filter_map]
  rfl

/-- What a choice by rules shows of a result, apart from the numbers. -/
theorem map_unnumbered_filter_result (keeps : String → Bool) :
    ((findings.result unit).findings.filter fun f => keeps f.ruleId).map Finding.unnumbered =
      ((synthesize unit findings.ordered).filter fun f => keeps f.ruleId).map
        Finding.unnumbered := by
  rw [map_unnumbered_filter, map_unnumbered_filter]
  show ((numbered (synthesize unit findings.ordered)).map _).filter _ = _
  rw [map_unnumbered_numbered]

/-! ## Findings that ask for nothing -/

variable {findings' : Findings} {f g : Finding}

/-- A finding that asks for nothing is listed as it is, with its number. -/
theorem getElem?_result_of_fix_none (unit : SourceUnit) {i : Nat}
    (hf : findings.ordered[i]? = some f) (hfix : f.fix = none) (hpatch : f.patch = none) :
    (findings.result unit).findings[i]? = some { f with ordinal := i + 1 } := by
  show (numbered (synthesize unit findings.ordered))[i]? = _
  rw [getElem?_numbered, getElem?_synthesize_of_fix_none unit hf hfix hpatch]
  rfl

/-- The first finding of a key can be read off a result, if it asks for nothing. -/
theorem eq_of_result_eq {unit : SourceUnit} (h : findings.result unit = findings'.result unit)
    (hf : findings.first? f.key = some f) (hg : findings'.first? f.key = some g)
    (hfix : f.fix = none) (hpatch : f.patch = none ∧ g.patch = none)
    (hordinal : f.ordinal = g.ordinal) : f = g := by
  obtain ⟨i, hi⟩ := List.mem_iff_getElem?.mp (mem_ordered.mpr (Or.inr hf))
  have hlisted := getElem?_result_of_fix_none unit hi hfix hpatch.1
  rw [h] at hlisted
  -- At this index the other result shows a finding of the same key, and that is `g`.
  have hlength : (findings'.result unit).findings.length = findings'.ordered.length :=
    length_result
  have hlt : i < findings'.ordered.length := hlength ▸ (List.getElem?_eq_some_iff.mp hlisted).1
  obtain ⟨shown, hshown, hlistedAs⟩ := listedAs_result unit (List.getElem?_eq_getElem hlt)
  obtain rfl := Option.some.inj (hshown.symm.trans hlisted)
  have hframe := hlistedAs.frame_eq
  have hother : findings'.ordered[i] = g := by
    have hkey : findings'.ordered[i].key = f.key := (congrArg Finding.key hframe).symm
    have hinternal : findings'.ordered[i].isInternal = false :=
      (congrArg Finding.isInternal hframe).symm.trans (isInternal_of_first? hf).2.1
    rcases mem_ordered.mp (List.getElem_mem hlt) with ⟨-, hyes⟩ | hfirst
    · rw [hinternal] at hyes
      cases hyes
    · rw [hkey] at hfirst
      exact Option.some.inj (hfirst.symm.trans hg)
  have hi' : findings'.ordered[i]? = some g := hother ▸ List.getElem?_eq_getElem hlt
  have hfix' : g.fix = none := by
    rw [← hother]
    exact (congrArg Finding.fix hframe).symm.trans hfix
  have hlisted' := getElem?_result_of_fix_none unit hi' hfix' hpatch.2
  have heq := Option.some.inj (hlisted.symm.trans hlisted')
  calc f = { { f with ordinal := i + 1 } with ordinal := f.ordinal } := rfl
    _ = { { g with ordinal := i + 1 } with ordinal := g.ordinal } := by rw [heq, hordinal]
    _ = g := rfl

end Findings

end GoConventions
