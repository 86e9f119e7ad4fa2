import GoConventions.Analysis
import GoConventions.Proofs.Result

/-!
# What the rules ask for

A finding may ask for a renaming, a replacement or a reordering.  A renaming is offered by
`renameRequest?`, which refuses it when the new name is declared where it would be written.  A
request that is a renaming has been checked (`FixRequest.IsChecked`) when it was offered so, for a
declaration of the file.

## Main definitions

* `SourceUnit.ScopesMeet`: the declarations among which names have to differ.
* `SourceUnit.renameReaches`: the identifiers that the renaming of a declaration reaches.
* `SourceUnit.Declares`: the declarations that a rule may rename.
* `FixRequest.IsChecked`: what is known about the requests of built-in rules.

## Main results

* `of_renameRequest?_eq_some`: when a renaming is offered, and what it says.
* `sentinelRequest_eq`: the renaming of a sentinel error is one that is offered.
-/

namespace GoConventions

variable {unit : SourceUnit}

/-! ## Checked requests -/

/-- Whether the scope with an index holds a span. -/
def SourceUnit.scopeHolds (unit : SourceUnit) (id : Nat) (span : Span) : Bool :=
  unit.scopes[id]?.any fun scope => scope.span.contains span

theorem SourceUnit.scopeHolds_iff {id : Nat} {span : Span} :
    unit.scopeHolds id span = true ↔
      ∃ scope, unit.scope id = .ok scope ∧ scope.span.contains span = true := by
  simp only [scopeHolds, Option.any_eq_true, scope, getDM_eq_ok]

/-- Whether the scope of a declaration holds that of another. -/
def SourceUnit.Surrounds (unit : SourceUnit) (d e : Declaration) : Prop :=
  ∃ inner ∈ unit.scopes[e.scope]?, unit.scopeHolds d.scope inner.span = true

instance (d e : Declaration) : Decidable (unit.Surrounds d e) :=
  inferInstanceAs (Decidable (∃ inner ∈ unit.scopes[e.scope]?, _))

/-- Whether the scopes of two declarations are the same, or one of them holds the other. -/
def SourceUnit.ScopesMeet (unit : SourceUnit) (d e : Declaration) : Prop :=
  d.scope = e.scope ∨ unit.Surrounds d e ∨ unit.Surrounds e d

instance (d e : Declaration) : Decidable (unit.ScopesMeet d e) :=
  inferInstanceAs (Decidable (_ ∨ _ ∨ _))

theorem SourceUnit.ScopesMeet.symm {d e : Declaration} (h : unit.ScopesMeet d e) :
    unit.ScopesMeet e d :=
  h.imp Eq.symm Or.symm

/-- Whether the renaming of a declaration reaches an identifier: in the whole file for a name of the
package, else in the scope of the declaration; what is selected from a value is reached only by the
renaming of a method. -/
def SourceUnit.renameReaches (unit : SourceUnit) (decl : Declaration) (identifier : Identifier) :
    Bool :=
  (!identifier.selector || decl.kind == .method) &&
    (decl.scope == 0 || unit.scopeHolds decl.scope identifier.span)

/-- A declaration of the file that names neither the package nor an import. -/
structure SourceUnit.Declares (unit : SourceUnit) (decl : Declaration) : Prop where
  mem : decl ∈ unit.declarations
  not_package : decl.kind ≠ .package
  not_import : decl.kind ≠ .importName

theorem SourceUnit.declares_of_isNamed {decl : Declaration}
    (h : decl ∈ unit.declarations.filter Declaration.isNamed) : unit.Declares decl := by
  obtain ⟨hmem, hnamed⟩ := List.mem_filter.mp h
  simp only [Declaration.isNamed, Bool.and_eq_true, bne_iff_ne] at hnamed
  exact ⟨hmem, hnamed.1.1.1, hnamed.1.1.2⟩

theorem SourceUnit.declares_of_mem_functions {decl : Declaration} (h : decl ∈ unit.functions) :
    unit.Declares decl := by
  obtain ⟨hmem, hkind⟩ := List.mem_filter.mp h
  rcases Bool.or_eq_true_iff.mp hkind with hkind | hkind <;>
    exact ⟨hmem, by simp [beq_iff_eq.mp hkind], by simp [beq_iff_eq.mp hkind]⟩

/-- A request that is no renaming, or one to rename a declaration of the file to a name that is not
declared where it would be written. -/
def FixRequest.IsChecked (unit : SourceUnit) (request : FixRequest) : Prop :=
  request.template = FixTemplate.rename.label →
    ∃ decl, unit.Declares decl ∧ ∃ name, renameRequest? unit decl name = .ok (some request)

section Renamings

variable {decl other : Declaration} {name : String} {request : FixRequest} {within : Option Span}

theorem renameRegion?_eq_ok (h : renameRegion? unit decl = .ok within) :
    decl.scope = 0 ∧ within = none ∨
      decl.scope ≠ 0 ∧ ∃ scope, unit.scope decl.scope = .ok scope ∧ within = some scope.span := by
  unfold renameRegion? at h
  split at h
  case isTrue hscope => exact .inl ⟨beq_iff_eq.mp hscope, (Except.ok.inj h).symm⟩
  case isFalse hscope =>
    obtain ⟨scope, hfound, h⟩ := bind_eq_ok.mp h
    exact .inr ⟨by simpa using hscope, scope, hfound, (Except.ok.inj h).symm⟩

/-- A declaration that does not meet the region of another one is apart from it. -/
theorem of_meetsRegion_eq_false (hwithin : renameRegion? unit decl = .ok within)
    (h : meetsRegion unit within other = .ok false) :
    decl.scope ≠ 0 ∧ other.scope ≠ 0 ∧ ¬ unit.ScopesMeet decl other := by
  obtain ⟨-, rfl⟩ | ⟨hlocal, region, hregion, rfl⟩ := renameRegion?_eq_ok hwithin
  · cases h
  · unfold meetsRegion at h
    dsimp only at h
    split at h
    case isTrue => cases h
    case isFalse hother =>
      obtain ⟨scope, hscope, h⟩ := bind_eq_ok.mp h
      have hapart := Bool.or_eq_false_iff.mp (Except.ok.inj h)
      refine ⟨hlocal, by simpa using hother, ?_⟩
      -- A scope holds itself, so the same scope is one of the two cases of nesting.
      rintro (heq | ⟨inner, hinner, hholds⟩ | ⟨inner, hinner, hholds⟩)
      · rw [← heq, hregion] at hscope
        obtain rfl := Except.ok.inj hscope
        simp [Span.contains] at hapart
      · obtain ⟨outer, houter, hcontains⟩ := SourceUnit.scopeHolds_iff.mp hholds
        obtain rfl := Except.ok.inj (hregion.symm.trans houter)
        obtain rfl := Except.ok.inj (hscope.symm.trans (getDM_eq_ok.mpr hinner))
        simp [hcontains] at hapart
      · obtain ⟨outer, houter, hcontains⟩ := SourceUnit.scopeHolds_iff.mp hholds
        obtain rfl := Except.ok.inj (hscope.symm.trans houter)
        obtain rfl := Except.ok.inj (hregion.symm.trans (getDM_eq_ok.mpr hinner))
        simp [hcontains] at hapart

/-- A renaming is offered only when the new name is not declared where it would be written. -/
theorem of_renameRequest?_eq_some (h : renameRequest? unit decl name = .ok (some request)) :
    (∀ other ∈ unit.declarations, other.name = name →
      decl.scope ≠ 0 ∧ other.scope ≠ 0 ∧ ¬ unit.ScopesMeet decl other) ∧
    ∃ within, renameRegion? unit decl = .ok within ∧ request = {
      template := FixTemplate.rename.label
      span := decl.nameSpan
      oldName := some decl.name
      newName := some name
      within
      includeSelectors := decl.kind == .method } := by
  obtain ⟨within, hwithin, h⟩ := bind_eq_ok.mp h
  obtain ⟨taken, htaken, h⟩ := bind_eq_ok.mp h
  cases taken with
  | true => cases h
  | false =>
    refine ⟨fun other hother hname => ?_, within, hwithin, ?_⟩
    · have hmem : other ∈ unit.declarationsOf name :=
        List.mem_filter.mpr ⟨hother, beq_iff_eq.mpr hname⟩
      exact of_meetsRegion_eq_false hwithin (anyM_eq_ok_false_iff.mp htaken other hmem)
    · exact (Option.some.inj (Except.ok.inj h)).symm

/-- A renaming covers what it reaches. -/
theorem covers_eq_renameReaches (h : renameRequest? unit decl name = .ok (some request)) :
    request.covers = unit.renameReaches decl := by
  obtain ⟨-, within, hwithin, rfl⟩ := of_renameRequest?_eq_some h
  funext identifier
  unfold FixRequest.covers SourceUnit.renameReaches
  obtain ⟨hscope, rfl⟩ | ⟨hlocal, scope, hscope, rfl⟩ := renameRegion?_eq_ok hwithin
  · simp [hscope]
  · simp [beq_false_of_ne hlocal, SourceUnit.scopeHolds, getDM_eq_ok.mp hscope]

theorem isChecked_of_renameRequest? (hdecl : unit.Declares decl)
    (h : renameRequest? unit decl name = .ok (some request)) : request.IsChecked unit :=
  fun _ => ⟨decl, hdecl, name, h⟩

theorem isChecked_of_template_ne (h : request.template ≠ FixTemplate.rename.label) :
    request.IsChecked unit :=
  fun hrename => absurd hrename h

/-- A package-level variable is renamed as any package-level declaration is. -/
theorem sentinelRequest_eq (hkind : decl.kind = .variableName) (hscope : decl.scope = 0)
    (hfree : (unit.declarationsOf name).isEmpty = true) :
    renameRequest? unit decl name = .ok (some
      { template := FixTemplate.rename.label, span := decl.nameSpan
        oldName := some decl.name, newName := some name }) := by
  simp [renameRequest?, renameRegion?, hscope, hkind, List.isEmpty_iff.mp hfree, pure, Except.pure,
    bind, Except.bind]

end Renamings

end GoConventions
