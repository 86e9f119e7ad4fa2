import GoConventions.Proofs.Convention.Checks
import GoConventions.Proofs.Settings.Reader
import GoConventions.Proofs.Tree.Nested

/-!
# Checks that answer

The checks of the built-in evaluators look up scopes, the declaration of the package and the band
for a scope.  In a model in which these are there, and with settings that have a band, every check
answers.

## Main results

* `functionAround_eq_ok`: the way up from a scope ends where `enclosingFunction?` says.
* `allAnswer_namingChecks`, `allAnswer_errorChecks`, `allAnswer_organizationChecks`.
-/

namespace GoConventions

variable {unit : SourceUnit} {context : Context} {decl : Declaration} {call : CallSite}

/-! ## Scopes -/

theorem SourceUnit.exists_scope {id : Nat} (hid : id < unit.scopes.length) :
    ∃ scope ∈ unit.scopes, unit.scopes[id]? = some scope ∧ unit.scope id = .ok scope := by
  have hfound : unit.scopes[id]? = some unit.scopes[id] := List.getElem?_eq_getElem hid
  exact ⟨_, List.getElem_mem hid, hfound, getDM_eq_ok.mpr hfound⟩

/-- The way up from a scope passes the scopes around it. -/
theorem functionAroundWithin_eq_ok (h : unit.Complete) (steps : Nat) {id : Nat}
    (hid : id < unit.scopes.length) :
    unit.functionAroundWithin steps id =
      .ok ((unit.ancestryWithin steps id).find? (·.kind == .function)) := by
  induction steps generalizing id with
  | zero => rfl
  | succ steps ih =>
    obtain ⟨scope, hmem, hfound, hscope⟩ := SourceUnit.exists_scope hid
    rw [SourceUnit.functionAroundWithin, hscope, SourceUnit.ancestryWithin, hfound]
    cases hkind : scope.kind == .function with
    | true => simp [hkind, bind, Except.bind, pure, Except.pure]
    | false =>
      cases hparent : scope.parent with
      | none => simp [hkind, hparent, bind, Except.bind, pure, Except.pure]
      | some parent =>
        have habove := ih (h.parents scope hmem parent hparent)
        simpa [hkind, hparent, bind, Except.bind] using habove

/-- **The function around a scope is found on the way up.** -/
theorem functionAround_eq_ok (h : unit.Complete) {id : Nat} (hid : id < unit.scopes.length) :
    unit.functionAround id = .ok (unit.enclosingFunction? id) :=
  functionAroundWithin_eq_ok h _ hid

/-! ## Naming -/

/-- Whether a renaming is offered can always be told. -/
theorem exists_renameRequest? (h : unit.Complete) (hdecl : decl ∈ unit.declarations)
    (name : String) : ∃ request, renameRequest? unit decl name = .ok request := by
  have hregion : ∃ within, renameRegion? unit decl = .ok within := by
    obtain ⟨scope, -, -, hscope⟩ := SourceUnit.exists_scope (h.declarationScopes decl hdecl)
    unfold renameRegion?
    split
    · exact ⟨none, rfl⟩
    · exact ⟨some scope.span, by rw [hscope]; rfl⟩
  obtain ⟨within, hwithin⟩ := hregion
  have htaken : ∃ taken, (unit.declarationsOf name).anyM (meetsRegion unit within) = .ok taken := by
    refine exists_anyM_eq_ok fun other hother => ?_
    obtain ⟨scope, -, -, hscope⟩ :=
      SourceUnit.exists_scope (h.declarationScopes other (List.mem_of_mem_filter hother))
    unfold meetsRegion
    split
    · exact ⟨true, rfl⟩
    · split
      · exact ⟨true, rfl⟩
      · exact ⟨_, by rw [hscope]; rfl⟩
  obtain ⟨taken, htaken⟩ := htaken
  unfold renameRequest?
  rw [hwithin]
  dsimp only [bind, Except.bind]
  rw [htaken]
  cases taken <;> exact ⟨_, rfl⟩

theorem exists_mixedCapsRemark? (h : unit.Complete) (hdecl : decl ∈ unit.declarations) :
    ∃ answer, mixedCapsRemark? unit decl = .ok answer := by
  unfold mixedCapsRemark?
  split
  · exact ⟨none, rfl⟩
  · obtain ⟨request, hrequest⟩ := exists_renameRequest? h hdecl _
    exact ⟨_, bind_eq_ok.mpr ⟨request, hrequest, rfl⟩⟩

theorem exists_initialismRemark? (h : unit.Complete) (hdecl : decl ∈ unit.declarations) :
    ∃ answer, initialismRemark? unit decl = .ok answer := by
  unfold initialismRemark?
  split
  · exact ⟨none, rfl⟩
  · obtain ⟨request, hrequest⟩ := exists_renameRequest? h hdecl _
    exact ⟨_, bind_eq_ok.mpr ⟨request, hrequest, rfl⟩⟩

theorem exists_getterRemark? (h : unit.Complete) (hdecl : decl ∈ unit.declarations) :
    ∃ answer, getterRemark? unit decl = .ok answer := by
  unfold getterRemark?
  split
  · exact ⟨none, rfl⟩
  · split
    · exact ⟨none, rfl⟩
    · obtain ⟨request, hrequest⟩ := exists_renameRequest? h hdecl _
      exact ⟨_, bind_eq_ok.mpr ⟨request, hrequest, rfl⟩⟩

theorem exists_packageNameRemark? (h : context.unit.Complete) :
    ∃ answer, packageNameRemark? context = .ok answer := by
  obtain ⟨clause, hclause, hkind⟩ := h.package
  have hfound : (context.unit.declarations.find? (·.kind == .package)).isSome = true :=
    List.find?_isSome.mpr ⟨clause, hclause, beq_iff_eq.mpr hkind⟩
  obtain ⟨decl, hdecl⟩ := Option.isSome_iff_exists.mp hfound
  unfold packageNameRemark?
  dsimp only
  rw [hdecl]
  split
  · exact ⟨none, rfl⟩
  · split
    · exact ⟨_, rfl⟩
    · split
      · exact ⟨_, rfl⟩
      · exact ⟨none, rfl⟩

theorem exists_lengthRemark? (h : context.unit.Complete)
    (hbands : context.settings.scopeBands ≠ []) (hdecl : decl ∈ context.unit.declarations) :
    ∃ answer, lengthRemark? context decl = .ok answer := by
  obtain ⟨scope, -, -, hscope⟩ := SourceUnit.exists_scope (h.declarationScopes decl hdecl)
  obtain ⟨band, -, hband⟩ := Settings.exists_bandFor? hbands scope.span.lineCount
  unfold lengthRemark?
  split
  · exact ⟨none, rfl⟩
  · exact ⟨_, bind_eq_ok.mpr ⟨scope, hscope, bind_eq_ok.mpr ⟨band, getDM_eq_ok.mpr hband, rfl⟩⟩⟩

/-- **The checks of the names answer.** -/
theorem allAnswer_namingChecks (h : context.unit.Complete)
    (hbands : context.settings.scopeBands ≠ []) : AllAnswer (namingChecks context) := by
  unfold namingChecks
  dsimp only
  refine .append (.append (.append (.append ?_ ?_) ?_) ?_) ?_
  · exact .whenEnabled (.singleton (exists_packageNameRemark? h))
  · refine .flatMap fun decl hdecl => ?_
    have hmem := List.mem_of_mem_filter hdecl
    exact .append (.whenEnabled (.singleton (exists_mixedCapsRemark? h hmem)))
      (.whenEnabled (.singleton (exists_initialismRemark? h hmem)))
  · exact .map_pure some _
  · exact .whenEnabled (.map fun decl hdecl => exists_lengthRemark? h hbands
      (List.mem_of_mem_filter (List.mem_of_mem_filter hdecl)))
  · exact .whenEnabled (.map fun decl hdecl => exists_getterRemark? h
      (List.mem_of_mem_filter hdecl))

/-! ## Errors -/

/-- What a wrapped error says can always be looked for. -/
theorem exists_wrappedText? (h : unit.Complete) (hcall : call ∈ unit.calls) (name : String) :
    ∃ text, wrappedText? unit name call = .ok text := by
  have hmade : ∀ (function : Option Scope) (calls : List CallSite), calls ⊆ unit.calls →
      ∃ texts, calls.mapM (errorTextIn? unit function) = .ok texts := by
    intro function calls hcalls
    refine exists_mapM_eq_ok fun maker hmaker => ?_
    unfold errorTextIn?
    rw [functionAround_eq_ok h (h.callScopes maker (hcalls hmaker))]
    dsimp only [bind, Except.bind]
    split <;> exact ⟨_, rfl⟩
  unfold wrappedText?
  obtain ⟨texts, htexts⟩ := hmade (unit.enclosingFunction? call.scope) _
    fun _ hmem => List.mem_of_mem_filter hmem
  rw [functionAround_eq_ok h (h.callScopes call hcall)]
  exact ⟨_, bind_eq_ok.mpr ⟨_, rfl, bind_eq_ok.mpr ⟨texts, htexts, rfl⟩⟩⟩

theorem exists_wrapRemark? (h : unit.Complete) (hcall : call ∈ unit.calls) (literal : Argument)
    (format : String) : ∃ answer, wrapRemark? unit call literal format = .ok answer := by
  unfold wrapRemark?
  split
  · exact ⟨none, rfl⟩
  · split
    · exact ⟨none, rfl⟩
    · dsimp only
      split
      · exact ⟨none, rfl⟩
      · obtain ⟨text, htext⟩ := exists_wrappedText? h hcall _
        rw [htext]
        dsimp only [bind, Except.bind]
        split
        · exact ⟨none, rfl⟩
        · split <;> exact ⟨_, rfl⟩

theorem exists_panicRemark? (h : unit.Complete) (hcall : call ∈ unit.calls) :
    ∃ answer, panicRemark? unit call = .ok answer := by
  have hopenly : ∃ openly, panicsOpenly unit call.scope = .ok openly := by
    unfold panicsOpenly
    rw [functionAround_eq_ok h (h.callScopes call hcall)]
    dsimp only [bind, Except.bind]
    split
    · exact ⟨false, rfl⟩
    · split <;> exact ⟨_, rfl⟩
  obtain ⟨openly, hopenly⟩ := hopenly
  unfold panicRemark?
  split
  · exact ⟨none, rfl⟩
  · rw [hopenly]
    cases openly <;> exact ⟨_, rfl⟩

/-- **The checks of the errors answer.** -/
theorem allAnswer_errorChecks (h : context.unit.Complete) : AllAnswer (errorChecks context) := by
  unfold errorChecks
  refine .append (.append (.whenEnabled (.map_pure _ _)) (.whenEnabled (.map_pure _ _))) ?_
  refine .flatMap fun call hcall => ?_
  unfold callChecks
  refine .append (.append (.whenEnabled (.singleton ⟨_, rfl⟩)) ?_) ?_
  · split
    · exact .append (.whenEnabled (.singleton ⟨_, rfl⟩))
        (.whenEnabled (.singleton (exists_wrapRemark? h hcall _ _)))
    · exact .nil
  · split
    · exact .whenEnabled (.singleton (exists_panicRemark? h hcall))
    · exact .nil

/-! ## Organization -/

theorem exists_nestingRemark? (h : context.unit.Complete) {scope : Scope}
    (hscope : scope ∈ context.unit.scopes) :
    ∃ answer, nestingRemark? context scope = .ok answer := by
  have hstarts : ∃ starts,
      startsDeepRegion context.unit context.settings.maxNestingDepth scope = .ok starts := by
    unfold startsDeepRegion
    split
    · exact ⟨false, rfl⟩
    · split
      case h_1 => exact ⟨true, rfl⟩
      case h_2 parent hparent =>
        obtain ⟨above, -, -, habove⟩ :=
          SourceUnit.exists_scope (h.parents scope hscope parent hparent)
        exact ⟨_, by rw [habove]; rfl⟩
  obtain ⟨starts, hstarts⟩ := hstarts
  unfold nestingRemark?
  dsimp only
  rw [hstarts]
  cases starts <;> exact ⟨_, rfl⟩

/-- **The checks of the organization answer.** -/
theorem allAnswer_organizationChecks (h : context.unit.Complete) :
    AllAnswer (organizationChecks context) := by
  unfold organizationChecks
  refine .append (.append (.map_pure some _) ?_) (.whenEnabled (.map_pure _ _))
  exact .whenEnabled (.map fun scope hscope => exists_nestingRemark? h hscope)

end GoConventions
