import GoConventions.Fix.Synthesis
import GoConventions.Proofs.Order.Sorted
import Mathlib.Tactic.ByContra

/-!
# Which patches are kept

Patches are judged one after the other, the most serious first, and a patch is kept if it overlaps
none that is kept already.  This module says what that comes to: a patch is withheld exactly when it
overlaps a kept patch of a finding judged before its own (`yields_iff`).  The description refers
only to the order of judgement and to kept patches, not to the list that the run goes through or to
what it has gathered, and it determines the outcome.

## Main definitions

* `Finding.rankOrder`, `JudgedBefore`: the order in which the findings of a list are judged.
* `yields`: whether the patch of a finding is withheld.

## Main results

* `yields_iff`: which patches are withheld.
* `pairwise_not_overlaps_resolveConflicts`: no two kept patches overlap.
* `synthesize_greedy`: the findings after their patches have been made.
-/

namespace GoConventions

open Std (TransCmp OrientedCmp)

/-! ## The order of judgement -/

/-- The more serious findings first, then those that start first, then by identifier of the rule and
end of the span. -/
def Finding.rankOrder : Finding → Finding → Ordering :=
  compareLex (fun f g => compare g.severity.rank f.severity.rank)
    (compareLex (compareOn (·.span.start.offset))
      (compareLex (compareOn (·.ruleId)) (compareOn (·.span.stop.offset))))

/-- The severity is compared first, so comparing it again after the start decides nothing. -/
theorem Finding.bySeverity_eq_rankOrder (f g : Finding) : f.bySeverity g = f.rankOrder g := by
  simp only [Finding.bySeverity, Finding.order, Finding.rankOrder, compareLex]
  cases h : compare g.severity.rank f.severity.rank <;> simp [Ordering.then]

instance : TransCmp Finding.rankOrder := by
  have hrank : TransCmp fun f g : Finding => compare g.severity.rank f.severity.rank :=
    inferInstanceAs (TransCmp fun f g : Finding => compareOn (·.severity.rank) g f)
  unfold Finding.rankOrder
  infer_instance

instance : TransCmp fun e e' : Finding × Nat => e.1.rankOrder e'.1 where
  eq_swap := OrientedCmp.eq_swap
  isLE_trans := TransCmp.isLE_trans

/-- Entry `e` of a numbered list is judged before entry `e'`. -/
abbrev EntryBefore : Finding × Nat → Finding × Nat → Prop :=
  Precedes (fun e e' => e.1.rankOrder e'.1) fun e e' => e.2 < e'.2

/-- The finding at index `i` is judged before the one at index `j`. -/
def JudgedBefore (findings : List Finding) (i j : Nat) : Prop :=
  ∃ f g, findings[i]? = some f ∧ findings[j]? = some g ∧ EntryBefore (f, i) (g, j)

/-- The finding at index `n` is judged after all others. -/
def JudgedLast (findings : List Finding) (n : Nat) : Prop :=
  ∀ i < findings.length, i ≠ n → JudgedBefore findings i n

theorem entryBefore_asymm {e e' : Finding × Nat} (h : EntryBefore e e') : ¬ EntryBefore e' e :=
  h.asymm fun _ _ => Nat.lt_asymm

/-- Of two entries with different indexes one is judged before the other. -/
theorem entryBefore_total {e e' : Finding × Nat} (h : e.2 ≠ e'.2) :
    EntryBefore e e' ∨ EntryBefore e' e := by
  cases hcmp : e.1.rankOrder e'.1 with
  | lt => exact Or.inl (Or.inl hcmp)
  | eq =>
    rcases Nat.lt_or_gt_of_ne h with hlt | hgt
    · exact Or.inl (Or.inr ⟨hcmp, hlt⟩)
    · exact Or.inr (Or.inr ⟨OrientedCmp.eq_symm hcmp, hgt⟩)
  | gt => exact Or.inr (Or.inl (OrientedCmp.lt_of_gt hcmp))

theorem rank_le_of_entryBefore {e e' : Finding × Nat} (h : EntryBefore e e') :
    e'.1.severity.rank ≤ e.1.severity.rank := by
  refine Nat.le_of_not_lt fun hlt => ?_
  have hgt : compare e'.1.severity.rank e.1.severity.rank = .gt := Nat.compare_eq_gt.mpr hlt
  have hle := Precedes.isLE h
  simp [Finding.rankOrder, compareLex, hgt] at hle

/-! ## The list that is gone through -/

/-- The entries of a list of findings stand in the order of their indexes. -/
theorem pairwise_index_zipIdx (findings : List Finding) :
    findings.zipIdx.Pairwise fun e e' => e.2 < e'.2 := by
  rw [← List.pairwise_map (f := Prod.snd) (R := (· < ·)), List.zipIdx_map_snd]
  exact List.pairwise_lt_range'

theorem rankedFindings_eq (findings : List Finding) :
    rankedFindings findings =
      sortBy (fun e e' => e.1.rankOrder e'.1) findings.zipIdx := by
  unfold rankedFindings
  congr
  funext e e'
  exact Finding.bySeverity_eq_rankOrder e.1 e'.1

theorem rankedFindings_pairwise (findings : List Finding) :
    (rankedFindings findings).Pairwise EntryBefore := by
  rw [rankedFindings_eq]
  exact sortBy_pairwise_precedes (pairwise_index_zipIdx findings)

theorem mem_rankedFindings {findings : List Finding} {f : Finding} {i : Nat} :
    (f, i) ∈ rankedFindings findings ↔ findings[i]? = some f := by
  rw [rankedFindings, mem_sortBy, List.mem_zipIdx_iff_getElem?]

theorem nodup_index_rankedFindings (findings : List Finding) :
    ((rankedFindings findings).map Prod.snd).Nodup := by
  have hperm : ((rankedFindings findings).map Prod.snd).Perm (findings.zipIdx.map Prod.snd) :=
    (sortBy_perm _ _).map _
  rw [hperm.nodup_iff, List.zipIdx_map_snd]
  exact List.nodup_range'

/-- Going through the list up to an entry means going through the entries judged before it. -/
theorem mem_left_iff_entryBefore {pre post : List (Finding × Nat)} {e e' : Finding × Nat}
    (h : (pre ++ e :: post).Pairwise EntryBefore) (he' : e' ∈ pre ++ e :: post) :
    e' ∈ pre ↔ EntryBefore e' e := by
  obtain ⟨-, hpost, hcross⟩ := List.pairwise_append.mp h
  constructor
  · exact fun hpre => hcross e' hpre e (by simp)
  · intro hbefore
    rcases List.mem_append.mp he' with hpre | hrest
    · exact hpre
    rcases List.mem_cons.mp hrest with rfl | hlater
    · exact absurd hbefore (entryBefore_asymm hbefore)
    · exact absurd hbefore (entryBefore_asymm ((List.pairwise_cons.mp hpost).1 e' hlater))

/-! ## The run -/

/-- The patches that are kept after a list has been gone through. -/
def keptAmong (kept : List Patch) : List (Finding × Nat) → List Patch
  | [] => kept
  | (finding, _) :: ranked =>
    match finding.patch with
    | none => keptAmong kept ranked
    | some patch =>
      if (conflictWith? kept patch).isSome then keptAmong kept ranked
      else keptAmong (kept ++ [patch]) ranked

theorem isSome_conflictWith? {others : List Patch} {patch : Patch} :
    (conflictWith? others patch).isSome = true ↔ ∃ q ∈ others, patch.overlaps q = true := by
  simp [conflictWith?]

theorem withheldAmong_append (kept : List Patch) (pre post : List (Finding × Nat)) :
    withheldAmong kept (pre ++ post) =
      withheldAmong kept pre ++ withheldAmong (keptAmong kept pre) post := by
  induction pre generalizing kept with
  | nil => rfl
  | cons e pre ih =>
    obtain ⟨f, i⟩ := e
    cases hp : f.patch with
    | none => simp [withheldAmong, keptAmong, hp, ih]
    | some p => cases hc : conflictWith? kept p <;> simp [withheldAmong, keptAmong, hp, hc, ih]

/-- Only entries of the list are withheld. -/
theorem index_withheldAmong_subset (kept : List Patch) (ranked : List (Finding × Nat)) :
    (withheldAmong kept ranked).map WithheldPatch.index ⊆ ranked.map Prod.snd := by
  induction ranked generalizing kept with
  | nil => simp [withheldAmong]
  | cons e ranked ih =>
    obtain ⟨f, i⟩ := e
    have hskip : ∀ kept', (withheldAmong kept' ranked).map WithheldPatch.index ⊆
        ((f, i) :: ranked).map Prod.snd :=
      fun kept' => List.Subset.trans (ih kept') (List.subset_cons_self _ _)
    cases hp : f.patch with
    | none => simpa [withheldAmong, hp] using hskip kept
    | some p =>
      cases hc : conflictWith? kept p with
      | none => simpa [withheldAmong, hp, hc] using hskip (kept ++ [p])
      | some c =>
        simp only [withheldAmong, hp, hc, List.map_cons]
        exact List.cons_subset_cons _ (ih kept)

/-- A patch is kept after the run if it was kept before, or if it is that of an entry that has not
been withheld. -/
theorem mem_keptAmong {kept : List Patch} {ranked : List (Finding × Nat)}
    (hnodup : (ranked.map Prod.snd).Nodup) {q : Patch} :
    q ∈ keptAmong kept ranked ↔
      q ∈ kept ∨ ∃ e ∈ ranked, e.1.patch = some q ∧
        e.2 ∉ (withheldAmong kept ranked).map WithheldPatch.index := by
  -- The list of kept patches grows only by patches of entries, so it is generalized.
  induction ranked generalizing kept with
  | nil => simp [keptAmong]
  | cons e ranked ih =>
    obtain ⟨f, i⟩ := e
    obtain ⟨hi, hnodup⟩ := List.nodup_cons.mp hnodup
    have hne : ∀ e ∈ ranked, e.2 ≠ i := fun e he hei => hi (List.mem_map.mpr ⟨e, he, hei⟩)
    have hnot : ∀ kept', i ∉ (withheldAmong kept' ranked).map WithheldPatch.index :=
      fun kept' h => hi (index_withheldAmong_subset kept' ranked h)
    cases hp : f.patch with
    | none => simp [withheldAmong, keptAmong, hp, ih hnodup]
    | some p =>
      cases hc : conflictWith? kept p with
      | none =>
        have hkept : keptAmong kept ((f, i) :: ranked) = keptAmong (kept ++ [p]) ranked := by
          simp [keptAmong, hp, hc]
        have hwithheld : withheldAmong kept ((f, i) :: ranked) =
            withheldAmong (kept ++ [p]) ranked := by simp [withheldAmong, hp, hc]
        rw [hkept, hwithheld, ih hnodup, List.mem_append, List.mem_singleton, or_assoc]
        simp only [List.mem_cons, exists_eq_or_imp, hp, hnot, Option.some.injEq,
          not_false_eq_true, and_true, eq_comm (a := q)]
      | some c =>
        have hkept : keptAmong kept ((f, i) :: ranked) = keptAmong kept ranked := by
          simp [keptAmong, hp, hc]
        have hwithheld : withheldAmong kept ((f, i) :: ranked) =
            ⟨i, c⟩ :: withheldAmong kept ranked := by simp [withheldAmong, hp, hc]
        rw [hkept, hwithheld, ih hnodup]
        simp only [List.map_cons, List.mem_cons, exists_eq_or_imp, not_or, not_true, false_and,
          and_false, false_or]
        refine or_congr_right (exists_congr fun e => and_congr_right fun he => ?_)
        simp [hne e he]

/-! ## Which patches are withheld -/

/-- Whether the patch of the finding at an index is withheld. -/
def yields (findings : List Finding) (i : Nat) : Bool :=
  (withheldPatches findings).any (·.index == i)

theorem yields_eq_true {findings : List Finding} {i : Nat} :
    yields findings i = true ↔ i ∈ (withheldPatches findings).map WithheldPatch.index := by
  simp [yields]

/-- What the run does at an entry: it withholds the patch if that overlaps one of those kept so
far. -/
theorem yields_iff_of_split {findings : List Finding} {f : Finding} {i : Nat}
    {pre post : List (Finding × Nat)} (hsplit : rankedFindings findings = pre ++ (f, i) :: post) :
    yields findings i = true ↔
      ∃ p, f.patch = some p ∧ ∃ q ∈ keptAmong [] pre, p.overlaps q = true := by
  have hnodup := nodup_index_rankedFindings findings
  rw [hsplit, List.map_append, List.map_cons, List.nodup_append] at hnodup
  obtain ⟨-, hpost, hcross⟩ := hnodup
  -- Every index occurs once, so only the step at the entry itself can withhold its patch.
  have hpre : i ∉ (withheldAmong [] pre).map WithheldPatch.index := fun h =>
    hcross i (index_withheldAmong_subset [] pre h) i (by simp) rfl
  have hafter : ∀ kept, i ∉ (withheldAmong kept post).map WithheldPatch.index := fun kept h =>
    (List.nodup_cons.mp hpost).1 (index_withheldAmong_subset kept post h)
  rw [yields_eq_true, withheldPatches, hsplit, withheldAmong_append, List.map_append,
    List.mem_append, or_iff_right hpre]
  cases hp : f.patch with
  | none => simpa [withheldAmong, hp] using hafter (keptAmong [] pre)
  | some p =>
    have hoverlap := @isSome_conflictWith? (keptAmong [] pre) p
    cases hc : conflictWith? (keptAmong [] pre) p with
    | none =>
      rw [hc] at hoverlap
      simpa [withheldAmong, hp, hc, hafter] using hoverlap
    | some c =>
      rw [hc] at hoverlap
      simpa [withheldAmong, hp, hc] using hoverlap

/-- Whether an entry judged earlier has been withheld is settled when a later one is reached. -/
theorem yields_iff_mem_left {findings : List Finding} {pre post : List (Finding × Nat)}
    (hsplit : rankedFindings findings = pre ++ post) {e : Finding × Nat} (he : e ∈ pre) :
    yields findings e.2 = true ↔ e.2 ∈ (withheldAmong [] pre).map WithheldPatch.index := by
  have hnodup := nodup_index_rankedFindings findings
  rw [hsplit, List.map_append, List.nodup_append] at hnodup
  have hpost : e.2 ∉ (withheldAmong (keptAmong [] pre) post).map WithheldPatch.index := fun h =>
    hnodup.2.2 e.2 (List.mem_map_of_mem he) e.2 (index_withheldAmong_subset _ post h) rfl
  rw [yields_eq_true, withheldPatches, hsplit, withheldAmong_append, List.map_append,
    List.mem_append, or_iff_left hpost]

/-- When an entry is reached, the kept patches of the findings judged before have been kept. -/
theorem mem_keptAmong_left_iff {findings : List Finding} {f : Finding} {i : Nat}
    {pre post : List (Finding × Nat)} (hsplit : rankedFindings findings = pre ++ (f, i) :: post)
    {q : Patch} :
    q ∈ keptAmong [] pre ↔ ∃ j g, JudgedBefore findings j i ∧ findings[j]? = some g ∧
      g.patch = some q ∧ yields findings j = false := by
  have hf : findings[i]? = some f := by
    rw [← mem_rankedFindings, hsplit]
    simp
  have hpair := rankedFindings_pairwise findings
  have hnodup := nodup_index_rankedFindings findings
  rw [hsplit] at hpair
  rw [hsplit, List.map_append, List.nodup_append] at hnodup
  rw [mem_keptAmong hnodup.1]
  constructor
  · rintro (h | ⟨⟨g, j⟩, he, hq, hj⟩)
    · simp at h
    · have hbefore := (mem_left_iff_entryBefore hpair (List.mem_append_left _ he)).mp he
      have hg : findings[j]? = some g := by
        rw [← mem_rankedFindings, hsplit]
        exact List.mem_append_left _ he
      refine ⟨j, g, ⟨g, f, hg, hf, hbefore⟩, hg, hq, ?_⟩
      rwa [← yields_iff_mem_left hsplit he, Bool.not_eq_true] at hj
  · rintro ⟨j, g, ⟨g', f', hg', hf', hbefore⟩, hg, hq, hj⟩
    obtain rfl : g' = g := Option.some.inj (hg'.symm.trans hg)
    obtain rfl : f' = f := Option.some.inj (hf'.symm.trans hf)
    have he : (g', j) ∈ pre := by
      rw [mem_left_iff_entryBefore hpair (by rw [← hsplit, mem_rankedFindings]; exact hg)]
      exact hbefore
    refine Or.inr ⟨(g', j), he, hq, ?_⟩
    rw [← yields_iff_mem_left hsplit he, Bool.not_eq_true]
    exact hj

/-- **A patch is withheld exactly when it overlaps a kept patch of a finding judged before its
own.** -/
theorem yields_iff {findings : List Finding} {i : Nat} {f : Finding}
    (hf : findings[i]? = some f) :
    yields findings i = true ↔
      ∃ p, f.patch = some p ∧ ∃ j g q, JudgedBefore findings j i ∧ findings[j]? = some g ∧
        g.patch = some q ∧ yields findings j = false ∧ p.overlaps q = true := by
  obtain ⟨pre, post, hsplit⟩ := List.append_of_mem (mem_rankedFindings.mpr hf)
  rw [yields_iff_of_split hsplit]
  constructor
  · rintro ⟨p, hp, q, hq, hpq⟩
    obtain ⟨j, g, hbefore, hg, hgq, hj⟩ := (mem_keptAmong_left_iff hsplit).mp hq
    exact ⟨p, hp, j, g, q, hbefore, hg, hgq, hj, hpq⟩
  · rintro ⟨p, hp, j, g, q, hbefore, hg, hgq, hj, hpq⟩
    exact ⟨p, hp, q, (mem_keptAmong_left_iff hsplit).mpr ⟨j, g, hbefore, hg, hgq, hj⟩, hpq⟩

/-! ## The findings after the run -/

/-- The patch that the finding at an index carries. -/
def patchAt (findings : List Finding) (i : Nat) : Option Patch :=
  findings[i]?.bind (·.patch)

@[simp] theorem length_resolveConflicts (findings : List Finding) :
    (resolveConflicts findings).length = findings.length := by
  simp [resolveConflicts]

theorem getElem?_resolveConflicts (findings : List Finding) (i : Nat) :
    (resolveConflicts findings)[i]? =
      findings[i]?.map fun f => if yields findings i then f.demoted else f := by
  simp only [resolveConflicts, List.getElem?_map, List.getElem?_zipIdx, Option.map_map,
    Nat.zero_add]
  rfl

/-- A patch is there after the run exactly when it was there before and has not been withheld. -/
theorem patchAt_resolveConflicts {findings : List Finding} {i : Nat} {p : Patch} :
    patchAt (resolveConflicts findings) i = some p ↔
      patchAt findings i = some p ∧ yields findings i = false := by
  unfold patchAt
  rw [getElem?_resolveConflicts]
  cases findings[i]? with
  | none => simp
  | some f => cases yields findings i <;> simp [Finding.demoted]

/-- A patch is kept exactly when it overlaps no kept patch of a finding judged before its own. -/
theorem patchAt_resolveConflicts_iff {findings : List Finding} {i : Nat} {f : Finding} {p : Patch}
    (hf : findings[i]? = some f) (hp : f.patch = some p) :
    patchAt (resolveConflicts findings) i = some p ↔
      ∀ j q, JudgedBefore findings j i → patchAt (resolveConflicts findings) j = some q →
        p.overlaps q = false := by
  have hpatch : patchAt findings i = some p := by simp [patchAt, hf, hp]
  rw [patchAt_resolveConflicts, and_iff_right hpatch, ← Bool.not_eq_true, yields_iff hf]
  constructor
  · intro h j q hbefore hq
    obtain ⟨hq, hj⟩ := patchAt_resolveConflicts.mp hq
    obtain ⟨g, hg, hgq⟩ := Option.bind_eq_some_iff.mp hq
    by_contra hpq
    exact h ⟨p, hp, j, g, q, hbefore, hg, hgq, hj, by simpa using hpq⟩
  · rintro h ⟨p', hp', j, g, q, hbefore, hg, hgq, hj, hpq⟩
    obtain rfl : p' = p := Option.some.inj (hp'.symm.trans hp)
    have hq : patchAt (resolveConflicts findings) j = some q :=
      patchAt_resolveConflicts.mpr ⟨by simp [patchAt, hg, hgq], hj⟩
    simp [h j q hbefore hq] at hpq

/-- Of two findings that keep their patches, the one judged later does not overlap the other. -/
theorem overlaps_eq_false_of_patchAt {findings : List Finding} {i j : Nat} {p q : Patch}
    (hp : patchAt (resolveConflicts findings) i = some p)
    (hq : patchAt (resolveConflicts findings) j = some q) (h : JudgedBefore findings j i) :
    p.overlaps q = false := by
  obtain ⟨f, hf, hfp⟩ := Option.bind_eq_some_iff.mp (patchAt_resolveConflicts.mp hp).1
  exact (patchAt_resolveConflicts_iff hf hfp).mp hp j q h hq

/-- **No two kept patches overlap.** -/
theorem pairwise_not_overlaps_resolveConflicts (findings : List Finding) :
    ((resolveConflicts findings).filterMap (·.patch)).Pairwise
      fun p q => p.overlaps q = false := by
  rw [List.pairwise_filterMap, List.pairwise_iff_getElem]
  intro i j hi hj hij p hp q hq
  have hpi : patchAt (resolveConflicts findings) i = some p := by
    rw [patchAt, List.getElem?_eq_getElem hi]
    exact hp
  have hqj : patchAt (resolveConflicts findings) j = some q := by
    rw [patchAt, List.getElem?_eq_getElem hj]
    exact hq
  rw [length_resolveConflicts] at hi hj
  rcases @entryBefore_total (findings[i], i) (findings[j], j) (Nat.ne_of_lt hij) with h | h
  · rw [Patch.overlaps_comm]
    exact overlaps_eq_false_of_patchAt hqj hpi ⟨_, _, by simp, by simp, h⟩
  · exact overlaps_eq_false_of_patchAt hpi hqj ⟨_, _, by simp, by simp, h⟩

/-! ## A finding that is judged last -/

/-- The index that the finding at index `i` gets when another one is put in at index `n`. -/
def shiftedIndex (n i : Nat) : Nat :=
  if i < n then i else i + 1

theorem shiftedIndex_lt_shiftedIndex {n i j : Nat} :
    shiftedIndex n i < shiftedIndex n j ↔ i < j := by
  unfold shiftedIndex
  split <;> split <;> omega

theorem shiftedIndex_inj {n i j : Nat} : shiftedIndex n i = shiftedIndex n j ↔ i = j := by
  unfold shiftedIndex
  split <;> split <;> omega

theorem shiftedIndex_ne (n i : Nat) : shiftedIndex n i ≠ n := by
  unfold shiftedIndex
  split <;> omega

theorem getElem?_eraseIdx_eq (findings : List Finding) (n i : Nat) :
    (findings.eraseIdx n)[i]? = findings[shiftedIndex n i]? := by
  rw [List.getElem?_eraseIdx, shiftedIndex]
  split <;> rfl

/-- The numbered list with one finding more holds the other entries under their new indexes. -/
theorem zipIdx_insert_perm (xs ys : List Finding) (g : Finding) :
    ((xs ++ ys).zipIdx.map (fun e => (e.1, shiftedIndex xs.length e.2)) ++
      [(g, xs.length)]).Perm (xs ++ g :: ys).zipIdx := by
  have hxs : xs.zipIdx.map (fun e => (e.1, shiftedIndex xs.length e.2)) = xs.zipIdx := by
    conv_rhs => rw [← List.map_id xs.zipIdx]
    refine List.map_congr_left fun e he => ?_
    have hlt : e.2 < xs.length := by simpa using List.snd_lt_of_mem_zipIdx he
    simp [shiftedIndex, hlt]
  have hys : (ys.zipIdx xs.length).map (fun e => (e.1, shiftedIndex xs.length e.2)) =
      ys.zipIdx (xs.length + 1) := by
    rw [List.zipIdx_succ]
    refine List.map_congr_left fun e he => ?_
    have hle : xs.length ≤ e.2 := List.le_snd_of_mem_zipIdx he
    simp [shiftedIndex, Nat.not_lt.mpr hle]
  rw [List.zipIdx_append, List.zipIdx_append, List.map_append, Nat.zero_add, hxs, hys,
    List.append_assoc, List.zipIdx_cons]
  exact List.Perm.append_left _ (List.perm_append_singleton _ _)

theorem eraseIdx_insert (xs ys : List Finding) (g : Finding) :
    (xs ++ g :: ys).eraseIdx xs.length = xs ++ ys := by
  rw [List.eraseIdx_append_of_length_le (Nat.le_refl _), Nat.sub_self, List.eraseIdx_cons_zero]

section Last

variable {xs ys : List Finding} {g : Finding}

theorem JudgedLast.entryBefore (hlast : JudgedLast (xs ++ g :: ys) xs.length) {i : Nat}
    {f : Finding} (hf : (xs ++ ys)[i]? = some f) :
    EntryBefore (f, shiftedIndex xs.length i) (g, xs.length) := by
  rw [← eraseIdx_insert xs ys g, getElem?_eraseIdx_eq] at hf
  obtain ⟨hlt, -⟩ := List.getElem?_eq_some_iff.mp hf
  obtain ⟨f', g', hf', hg', hbefore⟩ := hlast _ hlt (shiftedIndex_ne xs.length i)
  obtain rfl : f' = f := Option.some.inj (hf'.symm.trans hf)
  obtain rfl : g = g' := by simpa using hg'
  exact hbefore

/-- The list that is gone through is the same up to the new indexes, with the new finding at its
end. -/
theorem rankedFindings_insert (hlast : JudgedLast (xs ++ g :: ys) xs.length) :
    rankedFindings (xs ++ g :: ys) =
      (rankedFindings (xs ++ ys)).map (fun e => (e.1, shiftedIndex xs.length e.2)) ++
        [(g, xs.length)] := by
  rw [rankedFindings_eq]
  -- A list in the order of judgement is the sorted one, so it is enough to name it.
  refine sortBy_eq_of_perm (fun _ _ => Nat.lt_asymm) (pairwise_index_zipIdx _) ?_ ?_
  · refine List.pairwise_append.mpr ⟨?_, List.pairwise_singleton _ _, ?_⟩
    · refine List.pairwise_map.mpr ((rankedFindings_pairwise (xs ++ ys)).imp fun h => ?_)
      simpa [EntryBefore, Precedes, shiftedIndex_lt_shiftedIndex] using h
    · simp only [List.mem_map, List.mem_singleton]
      rintro _ ⟨⟨f, i⟩, he, rfl⟩ _ rfl
      exact hlast.entryBefore (mem_rankedFindings.mp he)
  · exact (((sortBy_perm _ _).map _).append_right _).trans (zipIdx_insert_perm xs ys g)

/-- The run does not look at the indexes. -/
theorem withheldAmong_map_index (σ : Nat → Nat) (kept : List Patch)
    (ranked : List (Finding × Nat)) :
    withheldAmong kept (ranked.map fun e => (e.1, σ e.2)) =
      (withheldAmong kept ranked).map fun w => ⟨σ w.index, w.conflict⟩ := by
  induction ranked generalizing kept with
  | nil => rfl
  | cons e ranked ih =>
    obtain ⟨f, i⟩ := e
    cases hp : f.patch with
    | none => simp [withheldAmong, hp, ih]
    | some p => cases hc : conflictWith? kept p <;> simp [withheldAmong, hp, hc, ih]

theorem yields_insert (hlast : JudgedLast (xs ++ g :: ys) xs.length) (i : Nat) :
    yields (xs ++ g :: ys) (shiftedIndex xs.length i) = yields (xs ++ ys) i := by
  -- The step at the new entry comes last and withholds no patch but its own.
  have hg : ∀ kept, (withheldAmong kept [(g, xs.length)]).any
      (·.index == shiftedIndex xs.length i) = false := by
    intro kept
    refine List.any_eq_false.mpr fun w hw => ?_
    have hindex := index_withheldAmong_subset kept _ (List.mem_map_of_mem hw)
    simp only [List.map_cons, List.map_nil, List.mem_singleton] at hindex
    simpa [hindex] using (shiftedIndex_ne xs.length i).symm
  rw [yields, withheldPatches, rankedFindings_insert hlast, withheldAmong_append, List.any_append,
    hg, Bool.or_false, withheldAmong_map_index, List.any_map, yields, withheldPatches]
  congr
  funext w
  simp [shiftedIndex_inj]

/-- **A finding that is judged last takes no patch from another one.** -/
theorem resolveConflicts_insert (hlast : JudgedLast (xs ++ g :: ys) xs.length) :
    (resolveConflicts (xs ++ g :: ys)).eraseIdx xs.length = resolveConflicts (xs ++ ys) := by
  refine List.ext_getElem? fun i => ?_
  rw [getElem?_eraseIdx_eq, getElem?_resolveConflicts, yields_insert hlast,
    ← getElem?_eraseIdx_eq, eraseIdx_insert, getElem?_resolveConflicts]

end Last

/-! ## Making patches and keeping them -/

variable (unit : SourceUnit)

/-- Making a patch changes nothing else about a finding. -/
theorem withPatch_eq (f : Finding) :
    withPatch unit f = { f with patch := (withPatch unit f).patch } := by
  unfold withPatch
  split <;> rfl

theorem entryBefore_withPatch {f g : Finding} {i j : Nat} :
    EntryBefore (withPatch unit f, i) (withPatch unit g, j) ↔ EntryBefore (f, i) (g, j) := by
  rw [withPatch_eq unit f, withPatch_eq unit g]
  rfl

theorem judgedBefore_map_withPatch {findings : List Finding} {i j : Nat} :
    JudgedBefore (findings.map (withPatch unit)) i j ↔ JudgedBefore findings i j := by
  simp only [JudgedBefore, List.getElem?_map, Option.map_eq_some_iff]
  constructor
  · rintro ⟨_, _, ⟨f, hf, rfl⟩, ⟨g, hg, rfl⟩, h⟩
    exact ⟨f, g, hf, hg, (entryBefore_withPatch unit).mp h⟩
  · rintro ⟨f, g, hf, hg, h⟩
    exact ⟨_, _, ⟨f, hf, rfl⟩, ⟨g, hg, rfl⟩, (entryBefore_withPatch unit).mpr h⟩

theorem judgedLast_map_withPatch {findings : List Finding} {n : Nat} :
    JudgedLast (findings.map (withPatch unit)) n ↔ JudgedLast findings n := by
  simp only [JudgedLast, List.length_map, judgedBefore_map_withPatch]

theorem getElem?_map_withPatch {findings : List Finding} {i : Nat} {f : Finding}
    (hf : findings[i]? = some f) :
    (findings.map (withPatch unit))[i]? = some (withPatch unit f) := by
  simp [hf]

/-- A finding comes out with the patch made for it, or without it and saying so; then its patch
overlaps a kept one of a finding that is as serious at least. -/
theorem getElem?_synthesize {findings : List Finding} {i : Nat} {f : Finding}
    (hf : findings[i]? = some f) :
    (synthesize unit findings)[i]? = some { f with patch := (withPatch unit f).patch } ∨
      ∃ p j g q, (withPatch unit f).patch = some p ∧
        (synthesize unit findings)[i]? =
          some { f with patch := none, guidance := Text.trim (f.guidance ++ " " ++ demotionNote) } ∧
        findings[j]? = some g ∧ f.severity.rank ≤ g.severity.rank ∧
        patchAt (synthesize unit findings) j = some q ∧ p.overlaps q = true := by
  have hmade := getElem?_map_withPatch unit hf
  have hresult := getElem?_resolveConflicts (findings.map (withPatch unit)) i
  rw [hmade] at hresult
  cases hy : yields (findings.map (withPatch unit)) i with
  | false =>
    left
    rw [synthesize, hresult, hy, ← withPatch_eq]
    rfl
  | true =>
    right
    obtain ⟨p, hp, j, g', q, hbefore, hg', hq, hj, hpq⟩ := (yields_iff hmade).mp hy
    obtain ⟨g, f', hg, hf', hbefore⟩ := (judgedBefore_map_withPatch unit).mp hbefore
    obtain rfl : f = f' := Option.some.inj (hf.symm.trans hf')
    refine ⟨p, j, g, q, hp, ?_, hg, rank_le_of_entryBefore hbefore, ?_, hpq⟩
    · rw [synthesize, hresult, hy, withPatch_eq]
      rfl
    · exact patchAt_resolveConflicts.mpr ⟨by rw [patchAt, hg']; exact hq, hj⟩

/-- **Patches are kept greedily by rank.**  The findings keep their number and order.  The patch
made for a finding is kept if and only if it overlaps no kept patch of a finding judged before; a
finding that loses its patch says so in its guidance, its patch overlaps a kept one of a finding of
at least its severity, and nothing else about any finding changes.  A finding that is judged last
changes nothing for the others. -/
theorem synthesize_greedy (findings : List Finding) :
    (synthesize unit findings).length = findings.length ∧
    (∀ i f, findings[i]? = some f →
      (∀ p, (withPatch unit f).patch = some p →
        (patchAt (synthesize unit findings) i = some p ↔
          ∀ j q, JudgedBefore findings j i → patchAt (synthesize unit findings) j = some q →
            p.overlaps q = false)) ∧
      ((synthesize unit findings)[i]? = some { f with patch := (withPatch unit f).patch } ∨
        ∃ p j g q, (withPatch unit f).patch = some p ∧
          (synthesize unit findings)[i]? = some
            { f with patch := none, guidance := Text.trim (f.guidance ++ " " ++ demotionNote) } ∧
          findings[j]? = some g ∧ f.severity.rank ≤ g.severity.rank ∧
          patchAt (synthesize unit findings) j = some q ∧ p.overlaps q = true)) ∧
    ∀ xs g ys, findings = xs ++ g :: ys → JudgedLast findings xs.length →
      (synthesize unit findings).eraseIdx xs.length = synthesize unit (xs ++ ys) := by
  refine ⟨by simp [synthesize], fun i f hf => ⟨fun p hp => ?_, getElem?_synthesize unit hf⟩, ?_⟩
  · rw [synthesize, patchAt_resolveConflicts_iff (getElem?_map_withPatch unit hf) hp]
    simp only [judgedBefore_map_withPatch]
  · rintro xs g ys rfl hlast
    have hlength : xs.length = (xs.map (withPatch unit)).length := by simp
    rw [← judgedLast_map_withPatch unit, List.map_append, List.map_cons, hlength] at hlast
    rw [synthesize, synthesize, List.map_append, List.map_append, List.map_cons, hlength]
    exact resolveConflicts_insert hlast

end GoConventions
