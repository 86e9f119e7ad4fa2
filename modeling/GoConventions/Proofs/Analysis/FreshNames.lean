import GoConventions.Proofs.Analysis.Renames

/-!
# New names and the names in use

A renaming is offered when no recorded declaration of the new name can be seen where it would be
written.  Not every name that a file uses is declared in the model: results, receivers, local types
and labels are identifiers only, and so is what another file of the package declares.  A renaming
may therefore write a name beside one that is in use (`not_forall_usesWithin_eq_nil`).

What the check does rule out depends on the layout of the tree.  When spans of nodes nest or lie
apart, of two scopes that hold an identifier one holds the other.  So no occurrence of the new name
in the region of the renaming lies in the scope of a recorded declaration of that name, and the
region is free of it exactly when the file declares it wherever it is used there
(`usesWithin_eq_nil_iff_of_evaluateAll`).

## Main definitions

* `SourceUnit.usesWithin`: the occurrences of a new name in the region of a renaming.
* `SourceUnit.IsDeclared`: an occurrence lies in the scope of a declaration of its name.
* `SourceUnit.Nests`: the spans of a tree nest or lie apart.

## Main results

* `not_isDeclared_of_mem_usesWithin`: what the check of a renaming rules out.
* `usesWithin_eq_nil_iff_of_evaluateAll`: when a renaming of a run writes a new name.
-/

namespace GoConventions

/-! ## Occurrences in a region -/

/-- Two nodes have no character in common, as far as both have a place. -/
def SourceText.liesApart (src : SourceText) (node other : Members) : Bool :=
  match src.span node, src.span other with
  | .ok s, .ok t => !s.overlaps t
  | _, _ => true

namespace SourceUnit

variable (unit : SourceUnit)

/-- The occurrences of a name in the region of a renaming: in the whole file for a declaration of
the package, else in the scope of the declaration.  Selectors are left aside. -/
def usesWithin (decl : Declaration) (name : String) : List Identifier :=
  (unit.occurrences name).filter fun identifier =>
    !identifier.selector && unit.renameReaches decl identifier

/-- An occurrence of a name lies in the scope of a recorded declaration of that name. -/
def IsDeclared (identifier : Identifier) : Prop :=
  ∃ other ∈ unit.declarations, other.name = identifier.name ∧
    (other.scope = 0 ∨ unit.scopeHolds other.scope identifier.span = true)

instance (identifier : Identifier) : Decidable (unit.IsDeclared identifier) :=
  inferInstanceAs (Decidable (∃ other ∈ unit.declarations, _ ∧ _))

/-- The spans of a tree nest: of two nodes one lies inside the other, or they lie apart, and no
identifier is empty. -/
structure Nests (tree : Members) : Prop where
  nested : ∀ node ∈ (Json.obj tree).nodes, ∀ other ∈ (Json.obj tree).nodes,
    unit.liesIn other node = true ∨ unit.liesIn node other = true ∨
      unit.liesApart node other = true
  nonempty : ∀ span ∈ unit.identSpans (.obj tree), span.start.offset < span.stop.offset

end SourceUnit

/-! ## Scopes around one identifier -/

section Scopes

variable {tree : Members} {unit : SourceUnit} {decl other : Declaration} {new : String}
  {identifier : Identifier}

/-- Two spans that hold a third one, which is not empty, have a character in common. -/
theorem Span.overlaps_of_contains {s t inner : Span} (hs : s.contains inner = true)
    (ht : t.contains inner = true) (hinner : inner.start.offset < inner.stop.offset) :
    s.overlaps t = true := by
  simp only [Span.contains, Span.overlaps, Bool.and_eq_true, decide_eq_true_eq] at hs ht ⊢
  omega

/-- The scope of a local declaration has the span of a node. -/
theorem exists_node_of_scope (hproper : unit.ProperScopes tree) (hdecl : decl ∈ unit.declarations)
    (hlocal : decl.scope ≠ 0) :
    ∃ scope, unit.scope decl.scope = .ok scope ∧
      ∃ node ∈ (Json.obj tree).nodes, unit.span node = .ok scope.span := by
  obtain ⟨index, hindex⟩ := List.mem_iff_getElem?.mp hdecl
  obtain ⟨⟨scope, hscope, -⟩, -⟩ := hproper.owners index decl hindex
  obtain ⟨openers, hopeners⟩ := hproper.opened
  have hlt : decl.scope < openers.length := by
    rw [hopeners.length_eq]
    exact (List.getElem?_eq_some_iff.mp hscope).1
  have hopener := List.getElem?_eq_getElem hlt
  obtain ⟨_, _, _, -, -, -, -, hspan, -⟩ := hopeners.stands _ _ _ hscope hopener hlocal
  exact ⟨scope, getDM_eq_ok.mpr hscope, openers[decl.scope],
    hopeners.subperm.subset (List.getElem_mem hlt), hspan⟩

/-- **Of two scopes that hold an identifier one holds the other.** -/
theorem scopesMeet_of_contains (hproper : unit.ProperScopes tree) (hnests : unit.Nests tree)
    (hdecl : decl ∈ unit.declarations) (hother : other ∈ unit.declarations)
    (hlocal : decl.scope ≠ 0) (hotherLocal : other.scope ≠ 0)
    (hidentifier : identifier.span.start.offset < identifier.span.stop.offset)
    (hin : unit.scopeHolds decl.scope identifier.span = true)
    (hotherIn : unit.scopeHolds other.scope identifier.span = true) :
    unit.ScopesMeet decl other := by
  obtain ⟨scope, hscope, hin⟩ := SourceUnit.scopeHolds_iff.mp hin
  obtain ⟨inner, hinner, hotherIn⟩ := SourceUnit.scopeHolds_iff.mp hotherIn
  obtain ⟨_, hfound, node, hnode, hspan⟩ := exists_node_of_scope hproper hdecl hlocal
  obtain ⟨_, hfoundBelow, below, hbelow, hbelowSpan⟩ :=
    exists_node_of_scope hproper hother hotherLocal
  obtain rfl := Except.ok.inj (hscope.symm.trans hfound)
  obtain rfl := Except.ok.inj (hinner.symm.trans hfoundBelow)
  obtain hnested | hnested | happart := hnests.nested node hnode below hbelow
  · have hcontains := SourceText.contains_of_liesIn hnested hspan hbelowSpan
    exact Or.inr (Or.inl ⟨inner, getDM_eq_ok.mp hinner,
      SourceUnit.scopeHolds_iff.mpr ⟨scope, hscope, hcontains⟩⟩)
  · have hcontains := SourceText.contains_of_liesIn hnested hbelowSpan hspan
    exact Or.inr (Or.inr ⟨scope, getDM_eq_ok.mp hscope,
      SourceUnit.scopeHolds_iff.mpr ⟨inner, hinner, hcontains⟩⟩)
  · rw [SourceText.liesApart, hspan, hbelowSpan] at happart
    exact absurd (Span.overlaps_of_contains hin hotherIn hidentifier)
      (Bool.not_eq_true _ ▸ (Bool.not_eq_true' _).mp happart)

theorem mem_usesWithin_iff {name : String} :
    identifier ∈ unit.usesWithin decl name ↔
      identifier ∈ unit.identifiers ∧ identifier.name = name ∧ identifier.selector = false ∧
        (decl.scope = 0 ∨ unit.scopeHolds decl.scope identifier.span = true) := by
  simp only [SourceUnit.usesWithin, SourceUnit.occurrences, SourceUnit.renameReaches,
    List.mem_filter, Bool.and_eq_true, Bool.or_eq_true, Bool.not_eq_true', beq_iff_eq]
  tauto

/-- **What the check of a renaming rules out**: an occurrence of the new name in its region never
lies in the scope of a recorded declaration of that name. -/
theorem not_isDeclared_of_mem_usesWithin {request : FixRequest}
    (hproper : unit.ProperScopes tree) (hnests : unit.Nests tree)
    (hspans : ∀ identifier ∈ unit.identifiers, identifier.span ∈ unit.identSpans (.obj tree))
    (hdecl : decl ∈ unit.declarations)
    (hrequest : renameRequest? unit decl new = .ok (some request))
    (hidentifier : identifier ∈ unit.usesWithin decl new) : ¬ unit.IsDeclared identifier := by
  obtain ⟨hmem, hname, -, hregion⟩ := mem_usesWithin_iff.mp hidentifier
  rintro ⟨other, hother, hsame, hscope⟩
  obtain ⟨hlocal, hotherLocal, hapart⟩ :=
    (of_renameRequest?_eq_some hrequest).1 other hother (hsame.trans hname)
  exact hapart (scopesMeet_of_contains hproper hnests hdecl hother hlocal hotherLocal
    (hnests.nonempty _ (hspans identifier hmem)) (hregion.resolve_left hlocal)
    (hscope.resolve_left hotherLocal))

end Scopes

/-! ## The renamings of a run -/

section Runs

variable {run : Run} {progress : Progress} {finding : Finding} {path text : String}
  {tree : Members}

/-- The spans of recorded identifiers are those of identifier nodes. -/
theorem span_mem_identSpans {unit : SourceUnit} (hread : readTree path text tree = .ok unit) :
    ∀ identifier ∈ unit.identifiers, identifier.span ∈ unit.identSpans (.obj tree) := by
  intro identifier hidentifier
  obtain ⟨-, -, history, htells⟩ := exists_history_of_readTree hread
  exact (subperm_identSpans htells).subset (List.mem_map_of_mem hidentifier)

/-- **When a renaming of a run writes a new name**: no recorded declaration of that name can be seen
from the declaration that is renamed.  In a tree whose spans nest, the region of the renaming is
free of the name exactly when each occurrence of it there is declared. -/
theorem usesWithin_eq_nil_iff_of_evaluateAll (hread : readTree path text tree = .ok run.unit)
    (hbuiltin : run.evaluators = builtinEvaluators)
    (hrun : run.evaluateAll { log := run.openingLog } run.evaluators = (progress, none))
    (hfinding : finding ∈ progress.findings) (hrename : finding.AsksForRenaming) :
    ∃ decl ∈ run.unit.declarations, ∃ new,
      renameRequest? run.unit decl new = .ok finding.fix ∧
      (∀ other ∈ run.unit.declarations, other.name = new →
        decl.scope ≠ 0 ∧ other.scope ≠ 0 ∧ ¬ run.unit.ScopesMeet decl other) ∧
      (run.unit.Nests tree →
        (run.unit.usesWithin decl new = [] ↔
          ∀ identifier ∈ run.unit.usesWithin decl new, run.unit.IsDeclared identifier)) := by
  obtain ⟨request, hfix, htemplate⟩ := hrename
  obtain ⟨-, hchecked⟩ := isChecked_of_evaluateAll hrun hbuiltin finding hfinding
  obtain ⟨decl, hdecl, new, hrequest⟩ := hchecked request hfix htemplate
  refine ⟨decl, hdecl.mem, new, hfix ▸ hrequest,
    (of_renameRequest?_eq_some hrequest).1, fun hnests => ?_⟩
  rw [List.eq_nil_iff_forall_not_mem]
  constructor
  · intro hfree identifier hidentifier
    exact absurd hidentifier (hfree identifier)
  · intro hdeclared identifier hidentifier
    exact not_isDeclared_of_mem_usesWithin (properScopes_of_readTree hread).1 hnests
      (span_mem_identSpans hread) hdecl.mem hrequest hidentifier (hdeclared identifier hidentifier)

/-- A run gathers a renaming to a name for its low lines. -/
def Run.asksToRename (run : Run) (name : String) : Bool :=
  match run.evaluateAll { log := run.openingLog } run.evaluators with
  | (progress, none) => progress.findings.any fun finding =>
      finding.ruleId == "NAM001" && finding.fix.any fun request =>
        request.template == FixTemplate.rename.label && request.newName == some name
  | _ => false

theorem Run.exists_of_asksToRename {name : String} (h : run.asksToRename name = true) :
    ∃ progress finding request,
      run.evaluateAll { log := run.openingLog } run.evaluators = (progress, none) ∧
      finding ∈ progress.findings ∧ finding.ruleId = "NAM001" ∧ finding.fix = some request ∧
      request.template = FixTemplate.rename.label ∧ request.newName = some name := by
  unfold Run.asksToRename at h
  split at h
  · rename_i progress hrun
    obtain ⟨finding, hfinding, h⟩ := List.any_eq_true.mp h
    obtain ⟨hrule, h⟩ := Bool.and_eq_true_iff.mp h
    obtain ⟨request, hfix, h⟩ := (Option.any_eq_true _ _).mp h
    obtain ⟨htemplate, hname⟩ := Bool.and_eq_true_iff.mp h
    exact ⟨progress, finding, request, hrun, hfinding, beq_iff_eq.mp hrule, hfix,
      beq_iff_eq.mp htemplate, beq_iff_eq.mp hname⟩
  · cases h

end Runs

/-! ## Two functions, and a named result -/

/-- Two functions, each with a variable of its own. -/
def siblingText : SourceText where
  path := "p.go"
  text := "package p\n\nfunc f() int \x7b a_b := 1; return a_b \x7d\n\n" ++
    "func g() int \x7b aB := 2; return aB \x7d\n"

def siblingTree : Members :=
  node "File" 0 85 [
    ("package", .obj (node "Ident" 8 9 [("name", .str "p")])),
    ("decls", .arr [function 11 "f" "a_b" 3 "1", function 50 "g" "aB" 2 "2"])]
where
  node (kind : String) (start stop : Int) (parts : Members) : Members :=
    spannedNode kind (siblingText.spanOf start stop) parts
  /-- A function that returns its variable, whose name has the given length. -/
  function (start : Int) (name variableName : String) (length : Int) (value : String) : Json :=
    .obj (node "FuncDecl" start (start + 31 + 2 * length) [
      ("name", .obj (node "Ident" (start + 5) (start + 6) [("name", .str name)])),
      ("type", .obj (node "FuncType" start (start + 12) [
        ("results", .obj (node "FieldList" (start + 9) (start + 12) [
          ("list", .arr [.obj (node "Field" (start + 9) (start + 12) [
            ("type", .obj (node "Ident" (start + 9) (start + 12) [
              ("name", .str "int")]))])])]))])),
      ("body", .obj (node "BlockStmt" (start + 13) (start + 31 + 2 * length) [
        ("list", .arr [
          .obj (node "AssignStmt" (start + 15) (start + 20 + length) [
            ("tok", .str ":="),
            ("lhs", .arr [.obj (node "Ident" (start + 15) (start + 15 + length) [
              ("name", .str variableName)])]),
            ("rhs", .arr [.obj (node "BasicLit" (start + 19 + length) (start + 20 + length) [
              ("value", .str value)])])]),
          .obj (node "ReturnStmt" (start + 22 + length) (start + 29 + 2 * length) [
            ("results", .arr [.obj (node "Ident" (start + 29 + length) (start + 29 + 2 * length) [
              ("name", .str variableName)])])])])]))])

theorem nests_siblingTree {unit : SourceUnit}
    (hread : readTree siblingText.path siblingText.text siblingTree = .ok unit) :
    unit.Nests siblingTree := by
  obtain ⟨hpath, htext, -⟩ := exists_history_of_readTree hread
  have hsource : unit.toSourceText = siblingText := by
    rw [← show SourceText.mk unit.path unit.text = siblingText by rw [hpath, htext]]
  refine ⟨?_, ?_⟩ <;> rw [hsource] <;> decide +kernel

/-- A name that another function uses does not stand in the way of a renaming. -/
theorem usesWithin_siblingTree :
    ∃ (run : Run) (progress : Progress) (finding : Finding) (decl : Declaration),
      readTree siblingText.path siblingText.text siblingTree = .ok run.unit ∧
      run.evaluators = builtinEvaluators ∧
      run.evaluateAll { log := run.openingLog } run.evaluators = (progress, none) ∧
      finding ∈ progress.findings ∧ renameRequest? run.unit decl "aB" = .ok finding.fix ∧
      finding.AsksForRenaming ∧ run.unit.usesWithin decl "aB" = [] := by
  have hruns : (readTree siblingText.path siblingText.text siblingTree).toOption.any
      (fun unit => ({ unit } : Run).asksToRename "aB" &&
        (unit.occurrences "aB").all fun identifier => decide (unit.IsDeclared identifier)) =
          true := by decide +kernel
  obtain ⟨unit, hunit, hruns⟩ := (Option.any_eq_true _ _).mp hruns
  obtain ⟨hasks, hdeclared⟩ := Bool.and_eq_true_iff.mp hruns
  have hread := toOption_eq_some.mp hunit
  obtain ⟨progress, finding, request, hrun, hfinding, -, hfix, htemplate, hname⟩ :=
    Run.exists_of_asksToRename hasks
  obtain ⟨decl, -, new, hrequest, -, hfree⟩ := @usesWithin_eq_nil_iff_of_evaluateAll
    { unit } _ _ _ _ _ hread rfl hrun hfinding ⟨request, hfix, htemplate⟩
  obtain ⟨-, within, -, hnew⟩ := of_renameRequest?_eq_some (hfix ▸ hrequest)
  rw [hnew] at hname
  obtain rfl := Option.some.inj hname
  refine ⟨{ unit }, progress, finding, decl, hread, rfl, hrun, hfinding, hrequest,
    ⟨request, hfix, htemplate⟩, (hfree (nests_siblingTree hread)).mpr ?_⟩
  intro identifier hidentifier
  exact of_decide_eq_true
    (List.all_eq_true.mp hdeclared identifier (List.mem_of_mem_filter hidentifier))

/-- A function with a named result, and a variable beside it. -/
def namedResultText : SourceText where
  path := "p.go"
  text := "package p\n\nfunc f() (maxSize int) \x7b\n\tmax_size := 1\n\treturn max_size\n\x7d\n"

def namedResultTree : Members :=
  node "File" 0 70 [
    ("package", .obj (node "Ident" 8 9 [("name", .str "p")])),
    ("decls", .arr [.obj (node "FuncDecl" 11 69 [
      ("name", .obj (node "Ident" 16 17 [("name", .str "f")])),
      ("type", .obj (node "FuncType" 11 33 [
        ("results", .obj (node "FieldList" 20 33 [
          ("list", .arr [.obj (node "Field" 21 32 [
            ("names", .arr [.obj (node "Ident" 21 28 [("name", .str "maxSize")])]),
            ("type", .obj (node "Ident" 29 32 [("name", .str "int")]))])])]))])),
      ("body", .obj (node "BlockStmt" 34 69 [
        ("list", .arr [
          .obj (node "AssignStmt" 37 50 [
            ("tok", .str ":="),
            ("lhs", .arr [.obj (node "Ident" 37 45 [("name", .str "max_size")])]),
            ("rhs", .arr [.obj (node "BasicLit" 49 50 [("value", .str "1")])])]),
          .obj (node "ReturnStmt" 52 67 [
            ("results", .arr [
              .obj (node "Ident" 59 67 [("name", .str "max_size")])])])])]))])])]
where
  node (kind : String) (start stop : Int) (parts : Members) : Members :=
    spannedNode kind (namedResultText.spanOf start stop) parts

/-- **A renaming may write a name beside one that is in use**: the variable is to be given the name
of the result. -/
theorem not_forall_usesWithin_eq_nil :
    ¬ ∀ (run : Run) (progress : Progress) (finding : Finding) (path text : String)
        (tree : Members) (decl : Declaration) (new : String),
      readTree path text tree = .ok run.unit → run.evaluators = builtinEvaluators →
      run.evaluateAll { log := run.openingLog } run.evaluators = (progress, none) →
      finding ∈ progress.findings → finding.ruleId ∈ ["NAM001", "NAM006", "NAM007"] →
      finding.AsksForRenaming → decl ∈ run.unit.declarations →
      renameRequest? run.unit decl new = .ok finding.fix →
      run.unit.usesWithin decl new = [] := by
  intro hall
  have hruns : (readTree namedResultText.path namedResultText.text namedResultTree).toOption.any
      (fun unit => ({ unit } : Run).asksToRename "maxSize" &&
        unit.declarations.all fun decl => !(unit.usesWithin decl "maxSize").isEmpty) =
          true := by decide +kernel
  obtain ⟨unit, hunit, hruns⟩ := (Option.any_eq_true _ _).mp hruns
  obtain ⟨hasks, hused⟩ := Bool.and_eq_true_iff.mp hruns
  obtain ⟨progress, finding, request, hrun, hfinding, hrule, hfix, htemplate, hname⟩ :=
    Run.exists_of_asksToRename hasks
  obtain ⟨-, hchecked⟩ := isChecked_of_evaluateAll hrun rfl finding hfinding
  obtain ⟨decl, hdecl, new, hrequest⟩ := hchecked request hfix htemplate
  obtain ⟨-, within, -, hnew⟩ := of_renameRequest?_eq_some hrequest
  rw [hnew] at hname
  obtain rfl := Option.some.inj hname
  have hfree := hall { unit } progress finding _ _ _ decl "maxSize" (toOption_eq_some.mp hunit) rfl
    hrun hfinding (hrule ▸ List.mem_cons_self) ⟨request, hfix, htemplate⟩ hdecl.mem
    (hfix ▸ hrequest)
  have hmet := List.all_eq_true.mp hused decl hdecl.mem
  rw [hfree] at hmet
  cases hmet

end GoConventions
