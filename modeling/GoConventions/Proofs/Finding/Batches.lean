import GoConventions.Finding.Aggregation
import Mathlib.Data.List.Induction

/-!
# Taking batches

Taking a batch first looks through it and only then adds to the findings, so that a batch is taken
as a whole or not at all: where it is refused, the findings are left as they were (`take_run`).
After any sequence of calls the findings gathered are those of the batches that lie in the file, one
batch after the other (`afterCalls_eq`).

## Main definitions

* `Findings.refusal?`: why a batch is refused, if it is.
* `Findings.afterCall`, `Findings.afterCalls`: what is left after one call, and after a sequence.

## Main results

* `Findings.take_run`: what a call does, and what it leaves.
* `Findings.afterCalls_eq`: the findings that a sequence of calls gathers.
-/

namespace GoConventions

namespace Findings

variable {unit : SourceUnit} {findings : Findings} {batch : List Finding}

/-! ## One call -/

/-- Why a batch is refused: its first finding that lies outside the file. -/
def refusal? (unit : SourceUnit) (batch : List Finding) : Option OutsideFile :=
  (batch.find? fun f => !unit.containsSpan f.span).map fun f => ⟨f.ruleId, f.span, unit.path⟩

theorem refusal?_eq_none_iff :
    refusal? unit batch = none ↔ ∀ f ∈ batch, unit.containsSpan f.span = true := by
  simp [refusal?]

/-- Looking through a batch touches no finding gathered before, whether it fails or not. -/
theorem check_run (unit : SourceUnit) (batch : List Finding) (findings : Findings) :
    (check unit batch).run findings =
      match refusal? unit batch with
      | some fault => .error fault findings
      | none => .ok () findings := by
  induction batch with
  | nil => rfl
  | cons f batch ih =>
    rw [check, List.forM_eq_forM, List.forM_cons, EStateM.run_bind, refusal?, List.find?_cons]
    cases unit.containsSpan f.span with
    | false => rfl
    | true => exact ih

/-- **A batch is taken as a whole or not at all**: one that is refused leaves the findings as they
were. -/
theorem take_run (unit : SourceUnit) (batch : List Finding) (findings : Findings) :
    (take unit batch).run findings =
      match refusal? unit batch with
      | some fault => .error fault findings
      | none => .ok () (findings ++ batch) := by
  rw [take, EStateM.run_bind, check_run]
  cases refusal? unit batch <;> rfl

theorem add_eq_ok {after : Findings} :
    findings.add unit batch = .ok after ↔
      (∀ f ∈ batch, unit.containsSpan f.span = true) ∧ after = findings ++ batch := by
  rw [add, take_run, ← refusal?_eq_none_iff]
  cases refusal? unit batch <;> simp [eq_comm]

/-- A call fails when a finding of its batch lies outside the file. -/
theorem add_eq_error_iff :
    (∃ fault, findings.add unit batch = .error fault) ↔
      ∃ f ∈ batch, unit.containsSpan f.span = false := by
  have hnone := @refusal?_eq_none_iff unit batch
  rw [add, take_run]
  cases hrefusal : refusal? unit batch with
  | none => simpa using hnone.mp hrefusal
  | some fault => simpa [hrefusal] using hnone

/-! ## Sequences of calls -/

/-- The findings that a call leaves, whether it fails or not. -/
def afterCall (unit : SourceUnit) (findings : Findings) (batch : List Finding) : Findings :=
  match (take unit batch).run findings with
  | .ok _ left => left
  | .error _ left => left

/-- The findings gathered by a sequence of calls. -/
def afterCalls (unit : SourceUnit) (batches : List (List Finding)) : Findings :=
  batches.foldl (afterCall unit) []

/-- Whether all findings of a batch lie in the file. -/
def liesIn (unit : SourceUnit) (batch : List Finding) : Bool :=
  batch.all fun f => unit.containsSpan f.span

theorem liesIn_eq_isNone_refusal? : liesIn unit batch = (refusal? unit batch).isNone := by
  rw [Bool.eq_iff_iff, Option.isNone_iff_eq_none, refusal?_eq_none_iff]
  exact List.all_eq_true

theorem afterCall_eq :
    afterCall unit findings batch = if liesIn unit batch then findings ++ batch else findings := by
  rw [afterCall, take_run, liesIn_eq_isNone_refusal?]
  cases refusal? unit batch <;> rfl

theorem afterCall_of_fails (h : ∃ f ∈ batch, unit.containsSpan f.span = false) :
    afterCall unit findings batch = findings := by
  obtain ⟨f, hf, hout⟩ := h
  have hlies : liesIn unit batch = false := List.all_eq_false.mpr ⟨f, hf, by simp [hout]⟩
  rw [afterCall_eq, hlies]
  rfl

theorem afterCalls_append (before : List (List Finding)) (batch : List Finding) :
    afterCalls unit (before ++ [batch]) = afterCall unit (afterCalls unit before) batch := by
  rw [afterCalls, List.foldl_append]
  rfl

/-- **A sequence of calls gathers the batches that lie in the file**, and no other finding. -/
theorem afterCalls_eq (batches : List (List Finding)) :
    afterCalls unit batches = (batches.filter (liesIn unit)).flatten := by
  -- A call sees what the calls before it have gathered, so the last call is split off.
  induction batches using List.reverseRecOn with
  | nil => rfl
  | append_singleton before batch ih =>
    rw [afterCalls_append, afterCall_eq, ih, List.filter_append, List.flatten_append]
    cases hlies : liesIn unit batch <;> simp [hlies]

end Findings

end GoConventions
