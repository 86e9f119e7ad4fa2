import GoConventions.Analysis
import GoConventions.Proofs.Result

/-!
# Checks that may fail

A check comes to a remark or to none, unless a look-up fails on the way.  An evaluator that makes
checks answers exactly when all of them answer, and then it finds what their remarks stand for.

## Main definitions

* `remarksOf`: the remarks that checks come to.
* `AllAnswer`: no check fails.

## Main results

* `Evaluator.ofChecks_eq_ok`: when an evaluator that makes checks answers, and what.
-/

namespace GoConventions

variable {checks others : List Check} {remark : Remark} {α : Type}

/-! ## The remarks of checks -/

/-- The remarks that checks come to. -/
def remarksOf (checks : List Check) : List Remark :=
  checks.filterMap fun check => check.toOption.join

theorem mem_remarksOf : remark ∈ remarksOf checks ↔ .ok (some remark) ∈ checks := by
  rw [remarksOf, List.mem_filterMap]
  constructor
  · rintro ⟨check, hcheck, hjoin⟩
    rw [Option.join_eq_some_iff, toOption_eq_some] at hjoin
    exact hjoin ▸ hcheck
  · intro hcheck
    exact ⟨_, hcheck, rfl⟩

theorem mem_remarksOf_singleton {check : Check} :
    remark ∈ remarksOf [check] ↔ check = .ok (some remark) := by
  rw [mem_remarksOf, List.mem_singleton, eq_comm]

/-- Whether a check comes to a remark can be decided. -/
theorem exists_remark_of_isSome {check : Check} (h : check.toOption.join.isSome = true) :
    ∃ remark, check = .ok (some remark) := by
  obtain ⟨remark, hremark⟩ := Option.isSome_iff_exists.mp h
  exact ⟨remark, toOption_eq_some.mp (Option.join_eq_some_iff.mp hremark)⟩

@[simp] theorem remarksOf_append (checks others : List Check) :
    remarksOf (checks ++ others) = remarksOf checks ++ remarksOf others :=
  List.filterMap_append

@[simp] theorem remarksOf_flatMap (f : α → List Check) (xs : List α) :
    remarksOf (xs.flatMap f) = xs.flatMap fun x => remarksOf (f x) :=
  List.filterMap_flatMap

@[simp] theorem remarksOf_whenEnabled (context : Context) (id : String) (checks : List Check) :
    remarksOf (context.whenEnabled id checks) = context.whenEnabled id (remarksOf checks) := by
  unfold Context.whenEnabled
  split <;> rfl

/-- Remarks that are stated without a look-up. -/
@[simp] theorem remarksOf_map_pure (f : α → Option Remark) (xs : List α) :
    remarksOf (xs.map (pure ∘ f)) = xs.filterMap f := by
  rw [remarksOf, List.filterMap_map]
  rfl

@[simp] theorem remarksOf_singleton_pure (answer : Option Remark) :
    remarksOf [pure answer] = answer.toList := by
  cases answer <;> rfl

/-! ## The checks of a call -/

/-- The remarks of the checks of a call. -/
theorem remarksOf_callChecks (context : Context) (exportedNames : List String) (call : CallSite) :
    remarksOf (callChecks context exportedNames call) =
      context.whenEnabled "ERR002" (discardRemark? context call).toList ++
        (match call.errorText? with
          | some (literal, text) =>
            context.whenEnabled "ERR003"
                (errorTextRemark? context exportedNames literal text).toList ++
              context.whenEnabled "ERR004"
                (remarksOf [wrapRemark? context.unit call literal text])
          | none => []) ++
        (if call.callee == "panic" then
          context.whenEnabled "ERR006" (remarksOf [panicRemark? context.unit call])
        else []) := by
  unfold callChecks
  cases call.errorText? <;> cases call.callee == "panic" <;> simp

section Calls

variable {unit : SourceUnit} {call : CallSite}

theorem of_wrapRemark?_eq_ok {literal : Argument} {format : String}
    (h : wrapRemark? unit call literal format = .ok (some remark)) :
    remark.ruleId = "ERR004" ∧ remark.span = literal.span ∧ remark.fix = none := by
  unfold wrapRemark? at h
  split at h
  · cases h
  · split at h
    · cases h
    · dsimp only at h
      split at h
      · cases h
      · obtain ⟨inner, -, h⟩ := bind_eq_ok.mp h
        split at h
        · cases h
        · split at h
          · cases h
          · obtain rfl := Option.some.inj (Except.ok.inj h)
            exact ⟨rfl, rfl, rfl⟩

theorem of_panicRemark?_eq_ok (h : panicRemark? unit call = .ok (some remark)) :
    remark.ruleId = "ERR006" ∧ remark.span = call.span ∧ remark.fix = none := by
  unfold panicRemark? at h
  split at h
  · cases h
  · obtain ⟨openly, -, h⟩ := bind_eq_ok.mp h
    split at h
    · cases h
    · obtain rfl := Option.some.inj (Except.ok.inj h)
      exact ⟨rfl, rfl, rfl⟩

end Calls

/-! ## Checks that answer -/

/-- No check fails. -/
def AllAnswer (checks : List Check) : Prop :=
  ∀ check ∈ checks, ∃ answer, check = .ok answer

namespace AllAnswer

theorem nil : AllAnswer [] :=
  List.forall_mem_nil _

theorem append (h : AllAnswer checks) (hothers : AllAnswer others) :
    AllAnswer (checks ++ others) :=
  List.forall_mem_append.mpr ⟨h, hothers⟩

theorem flatMap {f : α → List Check} {xs : List α} (h : ∀ x ∈ xs, AllAnswer (f x)) :
    AllAnswer (xs.flatMap f) :=
  List.forall_mem_flatMap.mpr h

theorem map {f : α → Check} {xs : List α} (h : ∀ x ∈ xs, ∃ answer, f x = .ok answer) :
    AllAnswer (xs.map f) :=
  List.forall_mem_map.mpr h

theorem map_pure (f : α → Option Remark) (xs : List α) : AllAnswer (xs.map (pure ∘ f)) :=
  map fun x _ => ⟨f x, rfl⟩

theorem singleton {check : Check} (h : ∃ answer, check = .ok answer) : AllAnswer [check] :=
  List.forall_mem_singleton.mpr h

theorem whenEnabled {context : Context} {id : String} (h : AllAnswer checks) :
    AllAnswer (context.whenEnabled id checks) := by
  unfold Context.whenEnabled
  split
  · exact h
  · exact nil

end AllAnswer

/-- Checks that answer one after the other, and what they answer. -/
theorem mapM_id_eq_ok {answers : List (Option Remark)} (h : checks.mapM id = .ok answers) :
    AllAnswer checks ∧ answers.filterMap id = remarksOf checks := by
  induction checks generalizing answers with
  | nil =>
    obtain rfl := Except.ok.inj h
    exact ⟨.nil, rfl⟩
  | cons check checks ih =>
    obtain ⟨answer, rest, rfl, hrest, rfl⟩ := mapM_cons_eq_ok.mp h
    obtain ⟨hanswer, hremarks⟩ := ih hrest
    refine ⟨List.forall_mem_cons.mpr ⟨⟨answer, rfl⟩, hanswer⟩, ?_⟩
    cases answer with
    | none => exact hremarks
    | some remark => exact congrArg (remark :: ·) hremarks

/-- **An evaluator that makes checks answers when all of them do**, and it finds what their remarks
stand for. -/
theorem Evaluator.ofChecks_eq_ok {category : Category} {checks : Context → List Check}
    {context : Context} {findings : List Finding} :
    (ofChecks category checks).evaluate context = .ok findings ↔
      AllAnswer (checks context) ∧
        context.findings (remarksOf (checks context)) = .ok findings := by
  unfold ofChecks
  rw [bind_eq_ok]
  constructor
  · rintro ⟨answers, hanswers, hfindings⟩
    obtain ⟨hall, hremarks⟩ := mapM_id_eq_ok hanswers
    exact ⟨hall, hremarks ▸ hfindings⟩
  · rintro ⟨hall, hfindings⟩
    obtain ⟨answers, hanswers⟩ := exists_mapM_eq_ok hall
    exact ⟨answers, hanswers, (mapM_id_eq_ok hanswers).2 ▸ hfindings⟩

end GoConventions
