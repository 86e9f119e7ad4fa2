import GoConventions.Proofs.Convention.ImportGroups
import GoConventions.Proofs.Tree.Scopes
import GoConventions.Rule.Packaged

/-!
# Regions that are nested too deeply

A region of blocks beyond the limit is remarked upon once, where it begins.  The remark is on a
block that is one level too deep and whose parent is not; that every block beyond the limit lies in
exactly one such region is a fact about depths.

From a block to its parent the depth falls by one or, at a clause, not at all, and it is zero at the
scope of a function or of the file (`SourceUnit.StepsUp`).  So on the way up from a block beyond the
limit the depth passes the limit, and since it never rises again, it does so at one place only
(`existsUnique_start`).  The way ends at the nearest function or at the file, since a function
literal in a block begins to count anew.

## Main definitions

* `SourceUnit.LeadsOut`: the way up through blocks, to the nearest function or to the file.
* `Context.ReportsDeepRegions`: what is found is one finding for each region.

## Main results

* `reportsDeepRegions_of_readTree`: every block beyond the limit lies in one region that is found.
-/

namespace GoConventions

variable {unit : SourceUnit} {tree : Members} {scope parent outer region : Scope} {limit : Int}

/-! ## The way up -/

namespace SourceUnit

variable (unit) in
/-- A scope is on the way up from another one, which goes through blocks and ends at the nearest
scope of a function or of the file. -/
inductive LeadsOut : Scope → Scope → Prop where
  | refl (scope : Scope) : LeadsOut scope scope
  | up {scope parent outer : Scope} {above : Nat} (hkind : scope.kind = .block)
      (hparent : scope.parent = some above) (habove : unit.scopes[above]? = some parent)
      (hout : LeadsOut parent outer) : LeadsOut scope outer

variable (unit) in
/-- One step on the way up from a block: its parent comes before it, and lies as deep or one level
less deep. -/
structure StepsUp (scope parent : Scope) : Prop where
  exists_index : ∃ above, scope.parent = some above ∧ unit.scopes[above]? = some parent
  mem : parent ∈ unit.scopes
  id_lt : parent.id < scope.id
  depth_le : parent.depth ≤ scope.depth
  depth_le_succ : scope.depth ≤ parent.depth + 1

/-- A scope that is not that of the file stands in one before it: the scope of a function counts
anew, and a block counts on. -/
theorem exists_above (hproper : unit.ProperScopes tree) {id : Nat}
    (hid : unit.scopes[id]? = some scope) (hne : id ≠ 0) :
    ∃ above parent, scope.parent = some above ∧ above < id ∧ unit.scopes[above]? = some parent ∧
      (scope.kind = .function ∧ scope.depth = 0 ∨
        scope.kind = .block ∧ parent.depth ≤ scope.depth ∧ scope.depth ≤ parent.depth + 1) := by
  obtain ⟨above, parent, hparent, hlt, habove, -⟩ := hproper.parents id scope hid hne
  obtain ⟨openers, hopeners⟩ := hproper.opened
  obtain ⟨opener, hopener⟩ : ∃ opener, openers[id]? = some opener := by
    refine ⟨_, List.getElem?_eq_getElem ?_⟩
    rw [hopeners.length_eq]
    exact (List.getElem?_eq_some_iff.mp hid).1
  obtain ⟨above', parent', -, hparent', habove', -, -, -, hkind, hdepth⟩ :=
    hopeners.stands id scope opener hid hopener hne
  obtain rfl := Option.some.inj (hparent.symm.trans hparent')
  obtain rfl := Option.some.inj (habove.symm.trans habove')
  refine ⟨above, parent, hparent, hlt, habove, ?_⟩
  by_cases hfunction : scope.kind = .function
  · rw [if_pos hfunction] at hdepth
    exact .inl ⟨hfunction, hdepth⟩
  · have hblock : scope.kind = .block := by
      rw [hkind, Members.scopeKind] at hfunction ⊢
      split at hfunction
      · exact absurd rfl hfunction
      · rename_i h
        rw [if_neg h]
    rw [if_neg hfunction] at hdepth
    split at hdepth
    · exact .inr ⟨hblock, by omega, by omega⟩
    · exact .inr ⟨hblock, by omega, by omega⟩

theorem exists_stepsUp (hproper : unit.ProperScopes tree) (hscope : scope ∈ unit.scopes)
    (hkind : scope.kind = .block) : ∃ parent, unit.StepsUp scope parent := by
  obtain ⟨id, hid⟩ := List.mem_iff_getElem?.mp hscope
  have hne : id ≠ 0 := by
    rintro rfl
    obtain ⟨root, hroot, hfile, -⟩ := hproper.file
    obtain rfl := Option.some.inj (hroot.symm.trans hid)
    rw [hfile] at hkind
    cases hkind
  obtain ⟨above, parent, hparent, hlt, habove, hfunction | ⟨-, hle, hsucc⟩⟩ :=
    exists_above hproper hid hne
  · rw [hfunction.1] at hkind
    cases hkind
  · refine ⟨parent, ⟨above, hparent, habove⟩, List.mem_of_getElem? habove, ?_, hle, hsucc⟩
    rw [hproper.id_eq above parent habove, hproper.id_eq id scope hid]
    exact hlt

/-- Only blocks have a depth. -/
theorem depth_eq_zero (hproper : unit.ProperScopes tree) (hscope : scope ∈ unit.scopes)
    (hkind : scope.kind ≠ .block) : scope.depth = 0 := by
  obtain ⟨id, hid⟩ := List.mem_iff_getElem?.mp hscope
  by_cases hne : id = 0
  · subst hne
    obtain ⟨root, hroot, -, -, hdepth⟩ := hproper.file
    obtain rfl := Option.some.inj (hroot.symm.trans hid)
    exact hdepth
  · obtain ⟨above, parent, -, -, -, hfunction | hblock⟩ := exists_above hproper hid hne
    · exact hfunction.2
    · exact absurd hblock.1 hkind

theorem StepsUp.leadsOut_iff (h : unit.StepsUp scope parent) (hkind : scope.kind = .block) :
    unit.LeadsOut scope outer ↔ outer = scope ∨ unit.LeadsOut parent outer := by
  obtain ⟨above, hparent, habove⟩ := h.exists_index
  constructor
  · intro hout
    cases hout with
    | refl => exact .inl rfl
    | up _ hother hfound hrest =>
      obtain rfl := Option.some.inj (hparent.symm.trans hother)
      obtain rfl := Option.some.inj (habove.symm.trans hfound)
      exact .inr hrest
  · rintro (rfl | hrest)
    · exact .refl _
    · exact .up hkind hparent habove hrest

/-- On the way up the depth does not rise. -/
theorem LeadsOut.depth_le (hproper : unit.ProperScopes tree) (hscope : scope ∈ unit.scopes)
    (h : unit.LeadsOut scope outer) : outer.depth ≤ scope.depth := by
  induction h with
  | refl => exact Nat.le_refl _
  | up hkind hparent habove _ ih =>
    obtain ⟨parent, hstep⟩ := exists_stepsUp hproper hscope hkind
    obtain ⟨above, hother, hfound⟩ := hstep.exists_index
    obtain rfl := Option.some.inj (hparent.symm.trans hother)
    obtain rfl := Option.some.inj (habove.symm.trans hfound)
    exact Nat.le_trans (ih hstep.mem) hstep.depth_le

theorem LeadsOut.mem (hscope : scope ∈ unit.scopes)
    (h : unit.LeadsOut scope outer) : outer ∈ unit.scopes := by
  induction h with
  | refl => exact hscope
  | up _ _ habove _ ih => exact ih (List.mem_of_getElem? habove)

/-- No scope occurs twice. -/
theorem nodup_scopes (hproper : unit.ProperScopes tree) : unit.scopes.Nodup := by
  -- Scopes are numbered in their order.
  refine List.Nodup.of_map (·.id) ?_
  have hids : unit.scopes.map (·.id) = List.range unit.scopes.length := by
    refine List.ext_getElem (by simp) fun id hid _ => ?_
    rw [List.getElem_map, List.getElem_range]
    exact hproper.id_eq id _ (List.getElem?_eq_getElem (by simpa using hid))
  rw [hids]
  exact List.nodup_range

/-! ## Where a region begins -/

/-- A region begins at a block one level beyond the limit. -/
theorem of_startsDeepRegion (h : startsDeepRegion unit limit scope = .ok true) :
    scope.kind = .block ∧ (scope.depth : Int) = limit + 1 := by
  unfold startsDeepRegion at h
  split at h
  case isTrue => cases h
  case isFalse hnot => simpa using hnot

/-- A region begins at a block beyond the limit whose parent is not. -/
theorem StepsUp.startsDeepRegion_iff (h : unit.StepsUp scope parent) (hkind : scope.kind = .block)
    (hdeep : limit < scope.depth) :
    startsDeepRegion unit limit scope = .ok true ↔ (parent.depth : Int) ≤ limit := by
  obtain ⟨above, hparent, habove⟩ := h.exists_index
  have hsucc := h.depth_le_succ
  have hscope : unit.scope above = .ok parent := getDM_eq_ok.mpr habove
  rw [startsDeepRegion, hparent]
  dsimp only
  rw [hscope]
  split
  case isTrue hdepth =>
    have hne : (scope.depth : Int) ≠ limit + 1 := by simpa [hkind] using hdepth
    exact iff_of_false nofun (by omega)
  case isFalse => simp [bind, Except.bind, pure, Except.pure]

/-- **The way up from a block beyond the limit meets the beginning of one region.** -/
theorem existsUnique_start (hproper : unit.ProperScopes tree) (hlimit : 0 ≤ limit)
    (hscope : scope ∈ unit.scopes) (hkind : scope.kind = .block) (hdeep : limit < scope.depth) :
    ∃! region, unit.LeadsOut scope region ∧ startsDeepRegion unit limit region = .ok true := by
  -- Parents come before their children, so the induction is on the place in the list of scopes.
  induction hid : scope.id using Nat.strongRecOn generalizing scope with
  | ind id ih =>
    obtain ⟨parent, hstep⟩ := exists_stepsUp hproper hscope hkind
    have hstarts := hstep.startsDeepRegion_iff hkind hdeep
    by_cases hparent : (parent.depth : Int) ≤ limit
    · refine ⟨scope, ⟨.refl scope, hstarts.mpr hparent⟩, ?_⟩
      rintro region ⟨hout, hregion⟩
      refine ((hstep.leadsOut_iff hkind).mp hout).resolve_right fun hrest => ?_
      -- Beyond the parent nothing is as deep as the beginning of a region.
      have hle := hrest.depth_le hproper hstep.mem
      have hdepth := (of_startsDeepRegion hregion).2
      omega
    · have hparentKind : parent.kind = .block := by
        by_contra hnot
        have hzero := depth_eq_zero hproper hstep.mem hnot
        omega
      obtain ⟨region, ⟨hout, hregion⟩, hunique⟩ :=
        ih parent.id (hid ▸ hstep.id_lt) hstep.mem hparentKind (by omega) rfl
      refine ⟨region, ⟨(hstep.leadsOut_iff hkind).mpr (.inr hout), hregion⟩, ?_⟩
      rintro other ⟨hother, hotherStarts⟩
      rcases (hstep.leadsOut_iff hkind).mp hother with rfl | hrest
      · exact absurd (hstarts.mp hotherStarts) hparent
      · exact hunique other ⟨hrest, hotherStarts⟩

end SourceUnit

/-! ## What is found -/

section Nesting

variable (context : Context)

/-- The scopes at which regions begin that are nested too deeply. -/
def Context.deepRegions : List Scope :=
  context.unit.scopes.filter fun scope =>
    (startsDeepRegion context.unit context.settings.maxNestingDepth scope).toOption == some true

theorem map_span_nestingRemarks :
    (remarksOf (context.unit.scopes.map (nestingRemark? context))).map (·.span) =
      context.deepRegions.map fun scope =>
        context.unit.spanOf scope.span.start.offset scope.span.start.offset := by
  rw [remarksOf, Context.deepRegions, List.filterMap_map, List.map_filterMap,
    ← List.filterMap_eq_map, List.filterMap_filter]
  refine List.filterMap_congr fun scope _ => ?_
  dsimp only [Function.comp_apply, nestingRemark?]
  cases startsDeepRegion context.unit context.settings.maxNestingDepth scope with
  | error failure => rfl
  | ok starts => cases starts <;> rfl

/-- The remarks on nesting are those on the scopes. -/
theorem filter_organizationRemarks (henabled : context.enabled "ORG003" = true) :
    (remarksOf (organizationChecks context)).filter (·.ruleId == "ORG003") =
      remarksOf (context.unit.scopes.map (nestingRemark? context)) := by
  have hfunctions : (context.unit.functions.flatMap (functionRemarks context)).filter
      (·.ruleId == "ORG003") = [] := by
    rw [List.filter_flatMap, List.flatMap_eq_nil_iff]
    intro decl hdecl
    have hmem := context.unit.functions_subset hdecl
    simp only [functionRemarks, List.filter_append, List.append_eq_nil_iff]
    refine ⟨⟨?_, ?_⟩, ?_⟩ <;>
      exact filter_whenEnabled_of_ne (by decide) (.ite (.of_fix_eq_none rfl rfl (·.nameSpan hmem)))
  have hglobals : (context.whenEnabled "ORG004"
      (context.unit.exportedDeclarations.filterMap globalRemark?)).filter
        (·.ruleId == "ORG003") = [] :=
    filter_whenEnabled_of_ne (by decide) (.filterMap fun decl hdecl =>
      allMeet_globalRemark? (List.mem_of_mem_filter hdecl))
  simp only [organizationChecks, remarksOf_append, remarksOf_whenEnabled, remarksOf_map_pure,
    List.filterMap_some]
  rw [List.filter_append, List.filter_append, hfunctions, hglobals,
    filter_whenEnabled_self henabled (.remarksOf_map fun scope => allMeet_nestingRemark?),
    List.nil_append, List.append_nil]

/-- The findings on nesting: one for each region, at its beginning; a region begins at a block
beyond the limit, and every block beyond the limit lies in one region. -/
structure Context.ReportsDeepRegions : Prop where
  found : ∃ findings, organizationEvaluator.evaluate context = .ok findings ∧
    (findings.filter (·.ruleId == "ORG003")).map (·.span) =
      context.deepRegions.map fun scope =>
        context.unit.spanOf scope.span.start.offset scope.span.start.offset
  nodup : context.deepRegions.Nodup
  beyond : ∀ region ∈ context.deepRegions,
    region.kind = .block ∧ context.settings.maxNestingDepth < region.depth
  once : ∀ scope ∈ context.unit.scopes, scope.kind = .block →
    context.settings.maxNestingDepth < scope.depth →
      ∃! region, context.unit.LeadsOut scope region ∧ region ∈ context.deepRegions

variable {context}

theorem mem_deepRegions_iff {region : Scope} :
    region ∈ context.deepRegions ↔ region ∈ context.unit.scopes ∧
      startsDeepRegion context.unit context.settings.maxNestingDepth region = .ok true := by
  rw [Context.deepRegions, List.mem_filter, beq_iff_eq, toOption_eq_some]

/-- **Deep nesting is found once for each region**: in the model of a tree, the findings on nesting
are one for each block at which a region begins, such a block is beyond the limit, and on the way up
from every block beyond the limit there is exactly one of them. -/
theorem reportsDeepRegions_of_readTree {path text : String}
    (hread : readTree path text tree = .ok context.unit)
    (henabled : context.enabled "ORG003" = true) (hlimit : 0 ≤ context.settings.maxNestingDepth) :
    context.ReportsDeepRegions := by
  obtain ⟨-, -, history, htells⟩ := exists_history_of_readTree hread
  have hproper := properScopes_of_tells htells
  constructor
  case found =>
    obtain ⟨findings, hevaluated⟩ : ∃ findings,
        organizationEvaluator.evaluate context = .ok findings :=
      exists_findings_of_checks (allAnswer_organizationChecks (complete_of_tells htells))
        acceptsAll_organizationRemarks
    have hfindings := (Evaluator.ofChecks_eq_ok.mp hevaluated).2
    refine ⟨findings, hevaluated, ?_⟩
    rw [map_span_filter_findings hfindings, filter_organizationRemarks context henabled,
      map_span_nestingRemarks]
  case nodup => exact (SourceUnit.nodup_scopes hproper).filter _
  case beyond =>
    intro region hregion
    obtain ⟨hkind, hdepth⟩ := SourceUnit.of_startsDeepRegion (mem_deepRegions_iff.mp hregion).2
    exact ⟨hkind, by omega⟩
  case once =>
    intro scope hscope hkind hdeep
    obtain ⟨region, ⟨hout, hstarts⟩, hunique⟩ :=
      SourceUnit.existsUnique_start hproper hlimit hscope hkind hdeep
    refine ⟨region, ⟨hout, mem_deepRegions_iff.mpr ⟨hout.mem hscope, hstarts⟩⟩, ?_⟩
    rintro other ⟨hother, hmem⟩
    exact hunique other ⟨hother, (mem_deepRegions_iff.mp hmem).2⟩

end Nesting

/-! ## A switch in a loop -/

/-- A function with a loop, a switch in it, and a clause in that. -/
def loopText : String := "package p; func f() { for { switch { case g(): } } }"

def loopTree : Members :=
  lineNode "File" 0 52 [
    ("package", .obj (lineNode "Ident" 8 9 [("name", .str "p")])),
    ("decls", .arr [.obj (lineNode "FuncDecl" 11 52 [
      ("name", .obj (lineNode "Ident" 16 17 [("name", .str "f")])),
      ("type", .obj (lineNode "FuncType" 11 19 [])),
      ("body", .obj (lineNode "BlockStmt" 20 52 [
        ("list", .arr [.obj (lineNode "ForStmt" 22 50 [
          ("body", .obj (lineNode "BlockStmt" 26 50 [
            ("list", .arr [.obj (lineNode "SwitchStmt" 28 48 [
              ("body", .obj (lineNode "BlockStmt" 35 48 [
                ("list", .arr [.obj (lineNode "CaseClause" 37 46 [
                  ("list", .arr [.obj (lineNode "CallExpr" 42 45 [
                    ("fun", .obj (lineNode "Ident" 42 43 [("name", .str "g")]))])])])])
              ]))])])]))])])]))])])]

/-- The switch and its clause are one region, which begins at the switch. -/
theorem reportsDeepRegions_loopTree :
    ∃ context : Context, readTree "p.go" loopText loopTree = .ok context.unit ∧
      context.enabled "ORG003" = true ∧ context.settings.maxNestingDepth = 1 ∧
      context.unit.scopes.map (·.depth) = [0, 0, 1, 2, 2] ∧
      context.deepRegions.map (·.id) = [3] ∧ context.ReportsDeepRegions := by
  have hregions : ((readTree "p.go" loopText loopTree).toOption.map fun unit =>
      (unit.scopes.map (·.depth), (unit.scopes.filter fun scope =>
        (startsDeepRegion unit 1 scope).toOption == some true).map (·.id))) =
          some ([0, 0, 1, 2, 2], [3]) := by decide +kernel
  obtain ⟨unit, hunit, hfacts⟩ := Option.map_eq_some_iff.mp hregions
  obtain ⟨hdepths, hregions⟩ := Prod.mk.inj hfacts
  have hread := toOption_eq_some.mp hunit
  let context : Context :=
    { unit, rules := packagedRegistry.toRuleSet, settings := { maxNestingDepth := 1 } }
  have henabled : context.enabled "ORG003" = true :=
    show packagedRegistry.toRuleSet.contains "ORG003" = true by decide +kernel
  have hlimit : (0 : Int) ≤ context.settings.maxNestingDepth := show (0 : Int) ≤ 1 by decide
  exact ⟨context, hread, henabled, rfl, hdepths, hregions,
    reportsDeepRegions_of_readTree hread henabled hlimit⟩

end GoConventions
