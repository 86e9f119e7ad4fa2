import GoConventions.Proofs.Fix.Resolution
import Mathlib.Data.List.Nodup

/-!
# Findings without patches

A finding for which no patch is made takes no part in the choice of the patches that are kept, so it
may be left out before patches are made: the other findings come out as they would have come out
beside it.  What is left out is named by its rules, which the making of patches does not change.

The findings that remain get new indexes.  The choice does not look at indexes other than to break
ties, and the new ones are in the order of the old, so it is the same choice under other indexes
(`withheldPatches_filter`).

## Main definitions

* `chosenIndex`: the index that a chosen finding had among all findings.

## Main results

* `synthesize_filter`: leaving out rules without patches commutes with making patches.
* `filter_synthesize_of_fix_none`: findings that ask for nothing come out as they were.
-/

namespace GoConventions

variable {keeps : String → Bool} {findings : List Finding}

/-- The findings of the rules that are kept, with the indexes they have among all findings. -/
def chosenEntries (keeps : String → Bool) (findings : List Finding) : List (Finding × Nat) :=
  findings.zipIdx.filter fun entry => keeps entry.1.ruleId

/-- The index among all findings of the finding at index `k` of those chosen. -/
def chosenIndex (keeps : String → Bool) (findings : List Finding) (k : Nat) : Nat :=
  ((chosenEntries keeps findings)[k]?.map Prod.snd).getD 0

theorem map_fst_chosenEntries :
    (chosenEntries keeps findings).map Prod.fst = findings.filter fun f => keeps f.ruleId := by
  conv_rhs => rw [← List.zipIdx_map_fst 0 findings, List.filter_map]
  rfl

/-- The chosen entries are the chosen findings, numbered anew, under their old indexes. -/
theorem chosenEntries_eq_map :
    chosenEntries keeps findings =
      (findings.filter fun f => keeps f.ruleId).zipIdx.map fun entry =>
        (entry.1, chosenIndex keeps findings entry.2) := by
  refine List.ext_getElem? fun k => ?_
  rw [← map_fst_chosenEntries]
  simp only [List.getElem?_map, List.getElem?_zipIdx, Option.map_map, Nat.zero_add]
  cases hentry : (chosenEntries keeps findings)[k]? with
  | none => rfl
  | some entry => simp [chosenIndex, hentry]

theorem chosenIndex_inj {k l : Nat} (hk : k < (findings.filter fun f => keeps f.ruleId).length)
    (hl : l < (findings.filter fun f => keeps f.ruleId).length) :
    chosenIndex keeps findings k = chosenIndex keeps findings l ↔ k = l := by
  rw [← map_fst_chosenEntries, List.length_map] at hk hl
  -- The indexes of all findings are distinct, and stay so when findings are left out.
  have hnodup : ((chosenEntries keeps findings).map Prod.snd).Nodup := by
    have hall : (findings.zipIdx.map Prod.snd).Nodup := by
      rw [List.zipIdx_map_snd]
      exact List.nodup_range'
    exact hall.sublist (List.filter_sublist.map _)
  have hindex : ∀ {m}, m < (chosenEntries keeps findings).length →
      ((chosenEntries keeps findings).map Prod.snd)[m]? = some (chosenIndex keeps findings m) := by
    intro m hm
    simp [chosenIndex, List.getElem?_eq_getElem hm]
  have hinj := List.getElem?_inj (by simpa using hk) hnodup (i := k) (j := l)
  rw [hindex hk, hindex hl, Option.some.injEq] at hinj
  exact hinj

/-- What is chosen of the ranked findings is the ranking of what is chosen. -/
theorem rankedFindings_filter :
    ((rankedFindings findings).filter fun entry => keeps entry.1.ruleId) =
      (rankedFindings (findings.filter fun f => keeps f.ruleId)).map fun entry =>
        (entry.1, chosenIndex keeps findings entry.2) := by
  rw [rankedFindings_eq, rankedFindings_eq, ← sortBy_filter]
  show sortBy _ (chosenEntries keeps findings) = _
  rw [chosenEntries_eq_map, sortBy_map]

/-- Going through findings without patches withholds nothing and keeps nothing. -/
theorem withheldAmong_filter {p : Finding × Nat → Bool} (kept : List Patch)
    {ranked : List (Finding × Nat)} (hnone : ∀ e ∈ ranked, p e = false → e.1.patch = none) :
    withheldAmong kept (ranked.filter p) = withheldAmong kept ranked := by
  -- The patches kept before vary along the ranked findings.
  induction ranked generalizing kept with
  | nil => rfl
  | cons e ranked ih =>
    obtain ⟨f, i⟩ := e
    have hrest := fun kept' => ih kept' fun e he => hnone e (List.mem_cons_of_mem _ he)
    cases hp : p (f, i) with
    | false =>
      have hpatch : f.patch = none := hnone (f, i) List.mem_cons_self hp
      simp [hp, hpatch, hrest, withheldAmong]
    | true =>
      rw [List.filter_cons_of_pos hp]
      cases hpatch : f.patch with
      | none => simp [withheldAmong, hpatch, hrest]
      | some patch =>
        cases hc : conflictWith? kept patch <;> simp [withheldAmong, hpatch, hc, hrest]

/-- The same patches are withheld, under other indexes. -/
theorem withheldPatches_filter
    (hnone : ∀ f ∈ findings, keeps f.ruleId = false → f.patch = none) :
    withheldPatches findings =
      (withheldPatches (findings.filter fun f => keeps f.ruleId)).map fun w =>
        ⟨chosenIndex keeps findings w.index, w.conflict⟩ := by
  have hranked : ∀ e ∈ rankedFindings findings, keeps e.1.ruleId = false → e.1.patch = none := by
    rintro ⟨f, i⟩ he hf
    exact hnone f (List.mem_of_getElem? (mem_rankedFindings.mp he)) hf
  -- Among the ranked findings as well, those left out withhold nothing.
  rw [withheldPatches, ← withheldAmong_filter [] hranked, rankedFindings_filter,
    withheldAmong_map_index, withheldPatches]

theorem index_lt_of_mem_withheldPatches {w : WithheldPatch} (h : w ∈ withheldPatches findings) :
    w.index < findings.length := by
  have hindex := index_withheldAmong_subset [] _ (List.mem_map_of_mem h)
  obtain ⟨⟨f, i⟩, he, rfl⟩ := List.mem_map.mp hindex
  exact (List.getElem?_eq_some_iff.mp (mem_rankedFindings.mp he)).1

theorem yields_filter (hnone : ∀ f ∈ findings, keeps f.ruleId = false → f.patch = none) {k : Nat}
    (hk : k < (findings.filter fun f => keeps f.ruleId).length) :
    yields findings (chosenIndex keeps findings k) =
      yields (findings.filter fun f => keeps f.ruleId) k := by
  rw [yields, withheldPatches_filter hnone, List.any_map, yields, Bool.eq_iff_iff,
    List.any_eq_true, List.any_eq_true]
  refine exists_congr fun w => and_congr_right fun hw => ?_
  simp only [Function.comp_apply, beq_iff_eq]
  exact chosenIndex_inj (index_lt_of_mem_withheldPatches hw) hk

/-- Choosing after conflicts are resolved: each chosen finding with or without its patch. -/
theorem filter_resolveConflicts :
    ((resolveConflicts findings).filter fun f => keeps f.ruleId) =
      (chosenEntries keeps findings).map fun entry =>
        if yields findings entry.2 then entry.1.demoted else entry.1 := by
  have hrule : ((fun f : Finding => keeps f.ruleId) ∘ fun entry : Finding × Nat =>
      if yields findings entry.2 then entry.1.demoted else entry.1) =
        fun entry => keeps entry.1.ruleId := by
    funext entry
    simp only [Function.comp_apply]
    split <;> rfl
  show List.filter _ (findings.zipIdx.map fun entry =>
    if yields findings entry.2 then entry.1.demoted else entry.1) = _
  rw [List.filter_map, hrule, chosenEntries]

/-- Findings without patches may be left out before patches are chosen. -/
theorem resolveConflicts_filter
    (hnone : ∀ f ∈ findings, keeps f.ruleId = false → f.patch = none) :
    ((resolveConflicts findings).filter fun f => keeps f.ruleId) =
      resolveConflicts (findings.filter fun f => keeps f.ruleId) := by
  rw [filter_resolveConflicts, chosenEntries_eq_map, List.map_map]
  refine List.map_congr_left fun entry hentry => ?_
  obtain ⟨f, k⟩ := entry
  have hk : k < (findings.filter fun f => keeps f.ruleId).length := by
    simpa using List.snd_lt_of_mem_zipIdx hentry
  simp only [Function.comp_apply, yields_filter hnone hk]
  rfl

/-- Findings without patches are left as they are. -/
theorem filter_resolveConflicts_of_patch_none
    (hnone : ∀ f ∈ findings, keeps f.ruleId = true → f.patch = none) :
    ((resolveConflicts findings).filter fun f => keeps f.ruleId) =
      findings.filter fun f => keeps f.ruleId := by
  rw [filter_resolveConflicts, ← map_fst_chosenEntries]
  refine List.map_congr_left fun entry hentry => ?_
  obtain ⟨hmem, hkeeps⟩ := List.mem_filter.mp hentry
  have hat : findings[entry.2]? = some entry.1 := List.mem_zipIdx_iff_getElem?.mp hmem
  have hpatch := hnone entry.1 (List.mem_of_getElem? hat) hkeeps
  -- Only a patch has to yield.
  have hstays : ¬ yields findings entry.2 = true := by
    rw [yields_iff hat]
    rintro ⟨p, hp, -⟩
    rw [hpatch] at hp
    cases hp
  rw [if_neg hstays]

@[simp] theorem ruleId_withPatch (unit : SourceUnit) (f : Finding) :
    (withPatch unit f).ruleId = f.ruleId := by
  rw [withPatch_eq]

theorem filter_map_withPatch (unit : SourceUnit) :
    ((findings.map (withPatch unit)).filter fun f => keeps f.ruleId) =
      (findings.filter fun f => keeps f.ruleId).map (withPatch unit) := by
  rw [List.filter_map]
  congr 2
  funext f
  simp only [Function.comp_apply, ruleId_withPatch]

/-- **Rules for which no patch is made may be left out** before patches are made. -/
theorem synthesize_filter (keeps : String → Bool) (unit : SourceUnit)
    (hnone : ∀ f ∈ findings, keeps f.ruleId = false → (withPatch unit f).patch = none) :
    ((synthesize unit findings).filter fun f => keeps f.ruleId) =
      synthesize unit (findings.filter fun f => keeps f.ruleId) := by
  have hmade : ∀ f ∈ findings.map (withPatch unit), keeps f.ruleId = false → f.patch = none := by
    intro _ hmem hkeeps
    obtain ⟨f, hf, rfl⟩ := List.mem_map.mp hmem
    exact hnone f hf (by rwa [ruleId_withPatch] at hkeeps)
  rw [synthesize, resolveConflicts_filter hmade, filter_map_withPatch, synthesize]

/-! ## Findings that ask for nothing -/

theorem withPatch_of_fix_none (unit : SourceUnit) {f : Finding} (h : f.fix = none) :
    withPatch unit f = f := by
  rw [withPatch, buildPatch, h]

/-- A finding that asks for nothing and carries no patch comes out as it was. -/
theorem getElem?_synthesize_of_fix_none (unit : SourceUnit) {i : Nat} {f : Finding}
    (hf : findings[i]? = some f) (hfix : f.fix = none) (hpatch : f.patch = none) :
    (synthesize unit findings)[i]? = some f := by
  rcases getElem?_synthesize unit hf with hkept | ⟨p, _, _, _, hp, -⟩
  · rw [hkept, withPatch_of_fix_none unit hfix]
  · rw [withPatch_of_fix_none unit hfix, hpatch] at hp
    cases hp

/-- The findings of rules that ask for nothing come out as they were. -/
theorem filter_synthesize_of_fix_none (keeps : String → Bool) (unit : SourceUnit)
    (hplain : ∀ f ∈ findings, keeps f.ruleId = true → f.fix = none ∧ f.patch = none) :
    ((synthesize unit findings).filter fun f => keeps f.ruleId) =
      findings.filter fun f => keeps f.ruleId := by
  have hmade : ∀ f ∈ findings.map (withPatch unit), keeps f.ruleId = true → f.patch = none := by
    intro _ hmem hkeeps
    obtain ⟨f, hf, rfl⟩ := List.mem_map.mp hmem
    rw [ruleId_withPatch] at hkeeps
    obtain ⟨hfix, hpatch⟩ := hplain f hf hkeeps
    rw [withPatch_of_fix_none unit hfix, hpatch]
  rw [synthesize, filter_resolveConflicts_of_patch_none hmade, filter_map_withPatch]
  refine (List.map_congr_left fun f hf => ?_).trans (List.map_id _)
  obtain ⟨hmem, hkeeps⟩ := List.mem_filter.mp hf
  exact withPatch_of_fix_none unit (hplain f hmem hkeeps).1

end GoConventions
