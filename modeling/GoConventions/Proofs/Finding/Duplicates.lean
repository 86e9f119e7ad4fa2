import GoConventions.Proofs.Finding.Aggregation
import GoConventions.Proofs.Fix.Unpatched

/-!
# Duplicates

Of the findings with one key the first counts, unless they are internal.  The gathering goes through
them with the keys seen so far; what it keeps is described here without that list: a finding is kept
exactly when looking for its key from the front finds it (`mem_separated`).

Findings that compare equal in the order of a report have one key, so among those kept, the internal
ones apart, the order is strict.  It is the order of what has been gathered that duplicates and ties
could let through, and this is where both are dealt with.

## Main definitions

* `Findings.first?`: the first finding with a key, the internal ones apart.

## Main results

* `Findings.mem_separated`: which findings are kept.
* `Findings.pairwise_lt_ordered`: the order of the findings kept is strict.
* `Findings.ordered_eq_of_first?_eq`: the ordered findings are determined by the first ones.
-/

namespace GoConventions

open Std (TransCmp OrientedCmp)

/-! ## The order of a report -/

instance : TransCmp Finding.order := by
  have hrank : TransCmp fun f g : Finding => compare g.severity.rank f.severity.rank :=
    inferInstanceAs (TransCmp fun f g : Finding => compareOn (·.severity.rank) g f)
  unfold Finding.order
  infer_instance

/-- Findings of one key and one severity compare equal, and no others do. -/
theorem Finding.order_eq_iff {f g : Finding} :
    f.order g = .eq ↔ f.key = g.key ∧ f.severity.rank = g.severity.rank := by
  simp only [Finding.order, compareLex, compareOn, Ordering.then_eq_eq,
    Std.LawfulEqOrd.compare_eq_iff_eq, Finding.key, Prod.mk.injEq]
  constructor
  · rintro ⟨hstart, hrank, hrule, hstop⟩
    exact ⟨⟨hrule, hstart, hstop⟩, hrank.symm⟩
  · rintro ⟨⟨hrule, hstart, hstop⟩, hrank⟩
    exact ⟨hstart, hrank.symm, hrule, hstop⟩

namespace Findings

/-! ## The first finding of a key -/

/-- The first finding with a key among those that are not internal. -/
def first? (findings : Findings) (key : String × Int × Int) : Option Finding :=
  (findings.filter fun f => !f.isInternal).find? fun f => f.key == key

theorem mem_separateDuplicates {seen : List (String × Int × Int)} {findings : List Finding}
    {f : Finding} :
    f ∈ (separateDuplicates seen findings).1 ↔
      f.key ∉ seen ∧ findings.find? (fun g => g.key == f.key) = some f := by
  -- The keys seen grow with the findings kept, so they are generalized.
  induction findings generalizing seen with
  | nil => simp [separateDuplicates]
  | cons g findings ih =>
    unfold separateDuplicates
    by_cases hseen : g.key ∈ seen
    · -- `g` is dropped, and a key that has not been seen is not its key.
      rw [if_pos (List.contains_iff_mem.mpr hseen), ih]
      refine and_congr_right fun hf => ?_
      have hkey : g.key ≠ f.key := fun heq => hf (heq ▸ hseen)
      rw [List.find?_cons_of_neg (by simpa using hkey)]
    · rw [if_neg (fun h => hseen (List.contains_iff_mem.mp h)), List.mem_cons, ih]
      by_cases hkey : g.key = f.key
      · -- `g` is kept and is the first of this key; what follows has seen the key.
        rw [List.find?_cons_of_pos (by simpa using hkey)]
        constructor
        · rintro (rfl | ⟨hnot, -⟩)
          · exact ⟨hseen, rfl⟩
          · exact absurd (hkey ▸ List.mem_cons_self) hnot
        · rintro ⟨-, hg⟩
          exact Or.inl (Option.some.inj hg).symm
      · have hne : f ≠ g := fun heq => hkey (heq ▸ rfl)
        rw [List.find?_cons_of_neg (by simpa using hkey), or_iff_right hne, List.mem_cons,
          not_or, and_iff_right (Ne.symm hkey)]

theorem pairwise_key_separateDuplicates (seen : List (String × Int × Int))
    (findings : List Finding) :
    (separateDuplicates seen findings).1.Pairwise fun f g => f.key ≠ g.key := by
  induction findings generalizing seen with
  | nil => exact List.Pairwise.nil
  | cons f findings ih =>
    unfold separateDuplicates
    split
    · exact ih seen
    · refine List.pairwise_cons.mpr ⟨fun g hg => ?_, ih (f.key :: seen)⟩
      obtain ⟨hnot, -⟩ := mem_separateDuplicates.mp hg
      exact fun heq => hnot (heq ▸ List.mem_cons_self)

variable {findings : Findings} {f : Finding}

/-- **A finding is kept when it is the first of its key**, the internal ones apart. -/
theorem mem_separated : f ∈ findings.separated.1 ↔ findings.first? f.key = some f := by
  rw [separated, mem_separateDuplicates, first?]
  exact and_iff_right List.not_mem_nil

theorem isInternal_of_first? {key : String × Int × Int} (h : findings.first? key = some f) :
    f ∈ findings ∧ f.isInternal = false ∧ f.key = key := by
  obtain ⟨hmem, hinternal⟩ := List.mem_filter.mp (List.mem_of_find?_eq_some h)
  have hkey := List.find?_some h
  exact ⟨hmem, by simpa using hinternal, by simpa using hkey⟩

theorem isInternal_of_mem_separated (h : f ∈ findings.separated.1) : f.isInternal = false :=
  (isInternal_of_first? (mem_separated.mp h)).2.1

theorem first?_flatMap {α : Type} {key : String × Int × Int} (batch : α → Findings) (xs : List α) :
    first? (xs.flatMap batch) key = xs.findSome? fun x => first? (batch x) key := by
  rw [first?, List.filter_flatMap, List.find?_flatMap]
  rfl

theorem first?_singleton (h : f.isInternal = false) : first? [f] f.key = some f := by
  simp [first?, h]

/-! ## The ordered findings -/

/-- The internal findings are all there. -/
theorem filter_isInternal_ordered :
    (findings.ordered.filter fun f => f.isInternal) =
      sortBy Finding.order (findings.filter fun f => f.isInternal) := by
  have hkept : (findings.separated.1.filter fun f => f.isInternal) = [] :=
    List.filter_eq_nil_iff.mpr fun f hf => by simp [isInternal_of_mem_separated hf]
  rw [ordered, ← sortBy_filter, List.filter_append, hkept, List.nil_append, List.filter_filter]
  simp only [Bool.and_self]

/-- The others are there if they are kept. -/
theorem filter_not_isInternal_ordered :
    (findings.ordered.filter fun f => !f.isInternal) =
      sortBy Finding.order findings.separated.1 := by
  have hkept : (findings.separated.1.filter fun f => !f.isInternal) = findings.separated.1 :=
    List.filter_eq_self.mpr fun f hf => by simp [isInternal_of_mem_separated hf]
  rw [ordered, ← sortBy_filter, List.filter_append, hkept, List.filter_filter]
  simp

/-- Internal findings may be left out before findings are put in order. -/
theorem ordered_filter_not_isInternal :
    ordered (findings.filter fun f => !f.isInternal) =
      findings.ordered.filter fun f => !f.isInternal := by
  have hseparated : separated (findings.filter fun f => !f.isInternal) = findings.separated := by
    rw [separated, separated, List.filter_filter]
    simp only [Bool.and_self]
  have hnone : ((findings.filter fun f => !f.isInternal).filter fun f => f.isInternal) = [] := by
    rw [List.filter_filter]
    simp
  rw [filter_not_isInternal_ordered, ordered, hseparated, hnone, List.append_nil]

/-- An ordered finding is an internal one, or the first of its key. -/
theorem mem_ordered :
    f ∈ findings.ordered ↔
      (f ∈ findings ∧ f.isInternal = true) ∨ findings.first? f.key = some f := by
  rw [ordered, mem_sortBy, List.mem_append, mem_separated, List.mem_filter, or_comm]

/-- Two findings of one key are not both kept, so no two that are kept compare equal. -/
theorem pairwise_lt_ordered :
    (findings.ordered.filter fun f => !f.isInternal).Pairwise fun f g => f.order g = .lt := by
  rw [filter_not_isInternal_ordered]
  have hkeys : (sortBy Finding.order findings.separated.1).Pairwise fun f g => f.key ≠ g.key :=
    (sortBy_perm _ _).symm.pairwise (pairwise_key_separateDuplicates _ _) fun h => Ne.symm h
  -- Of two findings in ascending order, only those of one key compare equal.
  refine (hkeys.and (sortBy_pairwise_isLE _)).imp fun {f g} h => ?_
  obtain ⟨hkey, hle⟩ := h
  rcases Ordering.isLE_iff_eq_lt_or_eq_eq.mp hle with hlt | heq
  · exact hlt
  · exact absurd (Finding.order_eq_iff.mp heq).1 hkey

/-- The ordered findings are determined by the first finding of each key and the internal ones, if
no two of these compare equal. -/
theorem ordered_eq_of_first?_eq {findings' : Findings}
    (hfirst : ∀ key, findings.first? key = findings'.first? key)
    (hinternal : (findings.filter fun f => f.isInternal).Perm
      (findings'.filter fun f => f.isInternal))
    (hstrict : ∀ f ∈ findings.ordered, f.isInternal = true → ∀ g ∈ findings.ordered,
      f.order g = .eq → f = g) : findings.ordered = findings'.ordered := by
  have hnodup : ∀ findings : Findings, findings.separated.1.Nodup := fun findings =>
    (pairwise_key_separateDuplicates [] _).imp fun hkey heq => hkey (congrArg Finding.key heq)
  have hkept : findings.separated.1.Perm findings'.separated.1 := by
    refine (List.perm_ext_iff_of_nodup (hnodup findings) (hnodup findings')).mpr fun f => ?_
    rw [mem_separated, mem_separated, hfirst]
  refine sortBy_perm_eq (hkept.append hinternal) fun f hf g hg heq => ?_
  have hf : f ∈ findings.ordered := (mem_sortBy _).mpr hf
  have hg : g ∈ findings.ordered := (mem_sortBy _).mpr hg
  rcases mem_ordered.mp hf with ⟨-, hinternal⟩ | hfirst
  · exact hstrict f hf hinternal g hg heq
  rcases mem_ordered.mp hg with ⟨-, hinternal⟩ | hfirst'
  · exact (hstrict g hg hinternal f hf (OrientedCmp.eq_symm heq)).symm
  · -- Both are the first of one key.
    have hkey := (Finding.order_eq_iff.mp heq).1
    rw [hkey] at hfirst
    exact Option.some.inj (hfirst.symm.trans hfirst')

end Findings

end GoConventions
