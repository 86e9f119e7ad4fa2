import GoConventions.Proofs.Finding.Batches
import GoConventions.Proofs.Finding.Duplicates
import Mathlib.Data.List.Forall2

/-!
# What a result accounts for

Batches of findings arrive in a sequence of calls, which gathers those of the batches that lie in
the file as a whole (`afterCalls_eq`).

The result put together from the findings gathered accounts for them (`FileResult.AccountsFor`):
nothing is lost but the duplicates of a key, nothing is invented, and the findings are in order and
counted.  Each finding listed is traced to the one gathered through the steps on the way, none of
which touches what the order and the keys look at (`map_frame_result`).

## Main definitions

* `Finding.ListedAs`: what a result shows of a finding.
* `FileResult.AccountsFor`: what a result says about the findings gathered.

## Main results

* `Findings.accountsFor_result`: a result accounts for the findings it is made from.
* `Findings.accountsFor_afterCalls`: so does that of every sequence of calls, for what it gathers.
-/

namespace GoConventions

/-! ## Counting -/

/-- Counting the findings one by one adds to each severity the findings that have it. -/
theorem Summary.count_foldl_increment (findings : List Finding) (summary : Summary)
    (severity : Severity) :
    (findings.foldl (fun summary f => summary.increment f.severity) summary).count severity =
      summary.count severity + findings.countP fun f => f.severity == severity := by
  have hincrement : ∀ (summary : Summary) (s : Severity),
      (summary.increment s).count severity =
        summary.count severity + if s == severity then 1 else 0 := by
    intro summary s
    cases s <;> cases severity <;> rfl
  -- What has been counted before varies along the findings.
  induction findings generalizing summary with
  | nil => rfl
  | cons f findings ih =>
    rw [List.foldl_cons, ih, hincrement, List.countP_cons, Nat.add_assoc, Nat.add_comm (ite _ _ _)]

theorem Summary.count_ofFindings (findings : List Finding) (severity : Severity) :
    (Summary.ofFindings findings).count severity =
      findings.countP fun f => f.severity == severity := by
  have hnone : ({} : Summary).count severity = 0 := by cases severity <;> rfl
  rw [Summary.ofFindings, Summary.count_foldl_increment, hnone, Nat.zero_add]

/-! ## What is shown of a finding -/

/-- What a result shows of a finding: all of it but the patch, the note that a patch is withheld,
and the number. -/
def Finding.ListedAs (f g : Finding) : Prop :=
  g = { f with patch := g.patch, ordinal := g.ordinal } ∨
    g = { f.demoted with ordinal := g.ordinal }

/-- What no step between gathering and listing touches. -/
def Finding.frame (f : Finding) : Finding :=
  { f with guidance := "", patch := none, ordinal := 0 }

theorem Finding.ListedAs.frame_eq {f g : Finding} (h : f.ListedAs g) : g.frame = f.frame := by
  rcases h with h | h
  · rw [h, frame, frame]
  · rw [h, frame, frame, demoted]

/-- What a result says about the findings gathered. -/
structure FileResult.AccountsFor (result : FileResult) (gathered : Findings) : Prop where
  /-- The findings listed show all internal findings, and of the others the first of each key. -/
  listed : ∃ chosen : List Finding, List.Forall₂ Finding.ListedAs chosen result.findings ∧
    (chosen.filter fun f => f.isInternal).Perm (gathered.filter fun f => f.isInternal) ∧
    ∀ f, f.isInternal = false → (f ∈ chosen ↔ gathered.first? f.key = some f)
  /-- They are ordered by start, severity from the most serious, rule and end. -/
  ordered : result.findings.Pairwise fun f g => (f.order g).isLE = true
  /-- Apart from internal ones no two have the same place in the order. -/
  strict : (result.findings.filter fun f => !f.isInternal).Pairwise fun f g => f.order g = .lt
  /-- They are numbered from one. -/
  ordinals : result.findings.map (·.ordinal) = List.range' 1 result.findings.length
  /-- The summary counts the findings listed. -/
  counts : ∀ severity, result.summary.count severity =
    result.findings.countP fun f => f.severity == severity

namespace Findings

variable {unit : SourceUnit}

/-! ## From the findings gathered to those listed -/

variable {findings : Findings}

theorem map_ordinal_numbered (findings : List Finding) :
    (numbered findings).map (·.ordinal) = List.range' 1 findings.length := by
  refine List.ext_getElem (by simp [numbered]) fun i hi hi' => ?_
  simp [numbered, Nat.add_comm]

theorem length_synthesize (unit : SourceUnit) (findings : List Finding) :
    (synthesize unit findings).length = findings.length := by
  simp [synthesize]

theorem length_result :
    (findings.result unit).findings.length = findings.ordered.length := by
  show (numbered (synthesize unit findings.ordered)).length = findings.ordered.length
  rw [numbered, List.length_map, List.length_zipIdx, length_synthesize]

/-- The listed findings show the ordered ones, one by one. -/
theorem listedAs_result (unit : SourceUnit) {i : Nat} {f : Finding}
    (h : findings.ordered[i]? = some f) :
    ∃ g, (findings.result unit).findings[i]? = some g ∧ f.ListedAs g := by
  show ∃ g, (numbered (synthesize unit findings.ordered))[i]? = some g ∧ f.ListedAs g
  rw [getElem?_numbered]
  rcases getElem?_synthesize unit h with hkept | ⟨p, j, g, q, -, hlost, -⟩
  · exact ⟨_, by rw [hkept]; rfl, Or.inl rfl⟩
  · exact ⟨_, by rw [hlost]; rfl, Or.inr rfl⟩

theorem forall₂_listedAs_result :
    List.Forall₂ Finding.ListedAs findings.ordered (findings.result unit).findings := by
  refine List.forall₂_iff_get.mpr ⟨length_result.symm, fun i hi hi' => ?_⟩
  obtain ⟨g, hg, hlisted⟩ := listedAs_result unit (List.getElem?_eq_getElem hi)
  rw [List.getElem?_eq_getElem hi'] at hg
  obtain rfl := Option.some.inj hg
  exact hlisted

/-- Listing leaves the frames of the findings as they are. -/
theorem map_frame_result :
    (findings.result unit).findings.map Finding.frame = findings.ordered.map Finding.frame := by
  refine List.ext_getElem (by simp [length_result]) fun i hi hi' => ?_
  have hordered : i < findings.ordered.length := by simpa using hi'
  obtain ⟨g, hg, hlisted⟩ := listedAs_result unit (List.getElem?_eq_getElem hordered)
  obtain ⟨hlt, rfl⟩ := List.getElem?_eq_some_iff.mp hg
  simpa using hlisted.frame_eq

/-- What looks only at frames may be read off the ordered findings. -/
theorem pairwise_result_iff {R : Finding → Finding → Prop} {p : Finding → Bool}
    (hR : ∀ f g, R f.frame g.frame ↔ R f g) (hp : ∀ f, p f.frame = p f) :
    ((findings.result unit).findings.filter p).Pairwise R ↔
      (findings.ordered.filter p).Pairwise R := by
  have hframes : ∀ xs : List Finding,
      (xs.filter p).Pairwise R ↔ ((xs.map Finding.frame).filter p).Pairwise R := by
    intro xs
    have hcomp : p ∘ Finding.frame = p := funext hp
    rw [List.filter_map, hcomp, List.pairwise_map]
    simp only [hR]
  -- Both sides say something about frames, and listing leaves the frames as they are.
  rw [hframes (findings.result unit).findings, map_frame_result, ← hframes]

/-- **A result accounts for the findings it is made from.** -/
theorem accountsFor_result : (findings.result unit).AccountsFor findings where
  listed := by
    refine ⟨findings.ordered, forall₂_listedAs_result, ?_, fun f hf => ?_⟩
    · rw [filter_isInternal_ordered]
      exact sortBy_perm _ _
    · rw [mem_ordered, or_iff_right fun h => by simp [hf] at h]
  ordered := by
    -- All findings are those that any choice leaves.
    have hpairwise : ((findings.result unit).findings.filter fun _ => true).Pairwise
        (fun f g => (f.order g).isLE = true) ↔ _ :=
      pairwise_result_iff (fun _ _ => Iff.rfl) fun _ => rfl
    simp only [List.filter_true] at hpairwise
    exact hpairwise.mpr (sortBy_pairwise_isLE _)
  strict := (pairwise_result_iff (fun _ _ => Iff.rfl) fun _ => rfl).mpr pairwise_lt_ordered
  ordinals := by
    rw [length_result, ← length_synthesize unit]
    exact map_ordinal_numbered _
  counts := Summary.count_ofFindings _

/-- **Nothing is lost and nothing invented.**  In every sequence of calls, a call fails exactly when
a finding of its batch lies outside the file, and then leaves the findings as they were; so the
findings gathered are those of the other batches, and the result accounts for them. -/
theorem accountsFor_afterCalls (batches : List (List Finding)) :
    (∀ before batch after, batches = before ++ batch :: after →
      ((∃ fault, (afterCalls unit before).add unit batch = .error fault) ↔
        ∃ f ∈ batch, unit.containsSpan f.span = false) ∧
      ((∃ f ∈ batch, unit.containsSpan f.span = false) →
        afterCalls unit (before ++ [batch]) = afterCalls unit before)) ∧
    afterCalls unit batches = (batches.filter (liesIn unit)).flatten ∧
    ((afterCalls unit batches).result unit).AccountsFor (afterCalls unit batches) := by
  refine ⟨fun before batch after _ => ⟨add_eq_error_iff, fun hout => ?_⟩, afterCalls_eq batches,
    accountsFor_result⟩
  rw [afterCalls_append, afterCall_of_fails hout]

end Findings

end GoConventions
