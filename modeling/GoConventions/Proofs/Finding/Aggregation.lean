import GoConventions.Finding.Aggregation
import GoConventions.Proofs.Fix.Resolution

/-!
# The findings of a result

A result is put together in three steps: duplicates are dropped and the findings put in order,
patches are made, and the findings are numbered.  Each step is described by what it leaves of a
finding, so that a finding of the result is traced back to one that was gathered
(`of_mem_result`).

## Main results

* `Findings.mem_of_mem_ordered`: ordering invents no finding.
* `Findings.of_mem_result`: where a finding of a result comes from.
* `Findings.pairwise_not_overlaps_patches`: the patches of a result do not overlap.
-/

namespace GoConventions

namespace Findings

/-! ## Ordering and numbering -/

theorem separateDuplicates_subset (seen : List (String × Int × Int)) (findings : List Finding) :
    (separateDuplicates seen findings).1 ⊆ findings := by
  induction findings generalizing seen with
  | nil => simp [separateDuplicates]
  | cons f findings ih =>
    unfold separateDuplicates
    split
    · exact List.Subset.trans (ih seen) (List.subset_cons_self _ _)
    · exact List.cons_subset_cons _ (ih _)

theorem mem_of_mem_ordered {findings : Findings} {f : Finding} (h : f ∈ findings.ordered) :
    f ∈ findings := by
  rw [ordered, mem_sortBy] at h
  rcases List.mem_append.mp h with h | h
  · exact (List.mem_filter.mp (separateDuplicates_subset _ _ h)).1
  · exact (List.mem_filter.mp h).1

theorem getElem?_numbered (findings : List Finding) (i : Nat) :
    (numbered findings)[i]? = findings[i]?.map fun f => { f with ordinal := i + 1 } := by
  simp only [numbered, List.getElem?_map, List.getElem?_zipIdx, Option.map_map, Nat.zero_add]
  rfl

theorem filterMap_patch_numbered (findings : List Finding) :
    (numbered findings).filterMap (·.patch) = findings.filterMap (·.patch) := by
  rw [numbered, List.filterMap_map]
  conv_rhs => rw [← List.zipIdx_map_fst 0 findings, List.filterMap_map]
  rfl

/-! ## The result -/

variable {unit : SourceUnit} {findings : Findings}

theorem patches_result :
    (findings.result unit).patches =
      (synthesize unit findings.ordered).filterMap (·.patch) :=
  filterMap_patch_numbered _

/-- **The patches of a result do not overlap.** -/
theorem pairwise_not_overlaps_patches :
    (findings.result unit).patches.Pairwise fun p q => p.overlaps q = false := by
  rw [patches_result]
  exact pairwise_not_overlaps_resolveConflicts _

/-- A finding of a result is one of those reported, up to its guidance and its number, with the
patch made for it or without a patch. -/
theorem of_mem_result {f : Finding} (h : f ∈ (findings.result unit).findings) :
    ∃ g ∈ findings.ordered, (f.patch = none ∨ f.patch = (withPatch unit g).patch) ∧
      f = { g with patch := f.patch, guidance := f.guidance, ordinal := f.ordinal } := by
  obtain ⟨i, hi⟩ := List.mem_iff_getElem?.mp h
  have hnumbered : (numbered (synthesize unit findings.ordered))[i]? = some f := hi
  rw [getElem?_numbered] at hnumbered
  obtain ⟨f', hf', rfl⟩ := Option.map_eq_some_iff.mp hnumbered
  have hlength : i < findings.ordered.length := by
    have hlt := (List.getElem?_eq_some_iff.mp hf').1
    rwa [synthesize, length_resolveConflicts, List.length_map] at hlt
  have hg : findings.ordered[i]? = some findings.ordered[i] := List.getElem?_eq_getElem hlength
  refine ⟨findings.ordered[i], List.getElem_mem hlength, ?_⟩
  rcases getElem?_synthesize unit hg with hkept | ⟨p, j, g, q, -, hlost, -⟩
  · obtain rfl := Option.some.inj (hf'.symm.trans hkept)
    exact ⟨Or.inr rfl, rfl⟩
  · obtain rfl := Option.some.inj (hf'.symm.trans hlost)
    exact ⟨Or.inl rfl, rfl⟩

end Findings

end GoConventions
