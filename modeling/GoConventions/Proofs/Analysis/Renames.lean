import GoConventions.Proofs.Analysis.Names
import GoConventions.Proofs.Tree.Identifiers

/-!
# The renamings of a run

A renaming that a built-in rule asks for is that of a declaration of the file.  Its patch rewrites
the recorded occurrences of the old name that it reaches, and they follow each other, because every
identifier of the tree has been recorded once.  The name of the declaration is one of them, so the
edit that `renameEdits` would add for it is never needed.

The tree has to be laid out like the text for this (`SourceUnit.WellPlaced`).

## Main definitions

* `Patch.RenamesExactly`: a patch rewrites these, and each of them once.
* `Run.Builds`: a run makes a patch for a finding.

## Main results

* `renamesExactly_of_builds`: the renamings of a run are exact.
-/

namespace GoConventions

/-- A patch renames a declaration: it rewrites the recorded occurrences of its name that the
renaming reaches, that of the declaration among them, from the start of the text to its end and
without touching a character twice. -/
structure Patch.RenamesExactly (unit : SourceUnit) (decl : Declaration) (new : String)
    (patch : Patch) : Prop where
  edits_eq : patch.edits =
    ((unit.occurrences decl.name).filter (unit.renameReaches decl)).map fun identifier =>
      ⟨identifier.span, new⟩
  declaring : ⟨decl.nameSpan, new⟩ ∈ patch.edits
  ascending : patch.edits.Pairwise fun e f => e.span.start.offset < f.span.start.offset
  disjoint : patch.edits.Pairwise fun e f => e.span.stop.offset ≤ f.span.start.offset

/-- A finding asks for a renaming. -/
def Finding.AsksForRenaming (finding : Finding) : Prop :=
  ∃ request, finding.fix = some request ∧ request.template = FixTemplate.rename.label

/-- A run makes a patch for a finding that it reports, whether the patch is kept or has to yield. -/
def Run.Builds (run : Run) (finding : Finding) (patch : Patch) : Prop :=
  ∃ progress, run.evaluateAll { log := run.openingLog } run.evaluators = (progress, none) ∧
    finding ∈ progress.findings.ordered ∧ (buildPatch run.unit finding).1 = some patch

/-! ## Edits in their order -/

section Edits

variable {unit : SourceUnit} {request : FixRequest} {old new : String}

/-- Edits that follow each other are in their order already. -/
theorem sortBy_start_eq_self {edits : List TextEdit}
    (h : edits.Pairwise fun e f => e.span.start.offset < f.span.start.offset) :
    sortBy (compareOn (·.span.start.offset)) edits = edits := by
  refine sortBy_eq_self (h.imp fun {e f} hef => ?_)
  rw [compareOn, Int.compare_eq_lt.mpr hef]
  rfl

/-- The edits of a renaming when the place of the finding is an occurrence. -/
theorem renameEdits_eq
    (hsorted : (unit.occurrences old).Pairwise fun a b =>
      a.span.start.offset < b.span.start.offset)
    (hplace : ∃ identifier ∈ unit.occurrences old, request.covers identifier = true ∧
      identifier.span = request.span) :
    renameEdits unit request old new =
      ((unit.occurrences old).filter request.covers).map fun identifier =>
        ⟨identifier.span, new⟩ := by
  obtain ⟨identifier, hidentifier, hcovers, hspan⟩ := hplace
  have hany : (((unit.occurrences old).filter request.covers).map fun identifier =>
      TextEdit.mk identifier.span new).any (·.span == request.span) = true := by
    refine List.any_eq_true.mpr ⟨⟨identifier.span, new⟩, List.mem_map.mpr ⟨identifier, ?_, rfl⟩, ?_⟩
    · exact List.mem_filter.mpr ⟨hidentifier, hcovers⟩
    · exact beq_iff_eq.mpr hspan
  -- So nothing is added to the occurrences, and sorting leaves them where they are.
  rw [renameEdits, if_pos hany]
  exact sortBy_start_eq_self (List.pairwise_map.mpr (hsorted.filter _))

end Edits

/-! ## The renamings of a model -/

section Models

variable {path text : String} {tree : Members} {unit : SourceUnit} {decl : Declaration}

/-- The name of a declaration is an occurrence that its renaming reaches. -/
theorem exists_declaring_occurrence {history : TreeHistory} (htells : history.Tells tree unit)
    (hplaced : unit.WellPlaced tree) (hdecl : unit.Declares decl) :
    ∃ identifier ∈ unit.occurrences decl.name, unit.renameReaches decl identifier = true ∧
      identifier.span = decl.nameSpan := by
  have hkind : decl.kind ≠ .package ∧ decl.kind ≠ .importName :=
    ⟨hdecl.not_package, hdecl.not_import⟩
  obtain ⟨identifier, hidentifier, hname, hspan, hselector⟩ :=
    exists_identifier_of_mem_declarations htells hplaced hdecl.mem hkind
  refine ⟨identifier, List.mem_filter.mpr ⟨hidentifier, beq_iff_eq.mpr hname⟩, ?_, hspan⟩
  rw [SourceUnit.renameReaches, hselector, hspan]
  by_cases hscope : decl.scope = 0
  · simp [hscope]
  · obtain ⟨scope, hfound, hcontains⟩ :=
      contains_nameSpan_of_mem_declarations htells hplaced hdecl.mem hkind hscope
    simp [SourceUnit.scopeHolds, hfound, hcontains]

/-- **A renaming of a declaration is exact.** -/
theorem renamesExactly_of_renameRequest? (hread : readTree path text tree = .ok unit)
    (hplaced : unit.WellPlaced tree) (hdecl : unit.Declares decl) {new : String}
    {request : FixRequest} {patch : Patch}
    (hrequest : renameRequest? unit decl new = .ok (some request))
    (hedits : patch.edits = renameEdits unit request decl.name new) :
    patch.RenamesExactly unit decl new := by
  obtain ⟨-, -, history, htells⟩ := exists_history_of_readTree hread
  have hpairwise := pairwise_identifiers htells hplaced
  have hdeclaring := exists_declaring_occurrence htells hplaced hdecl
  have hcovers := covers_eq_renameReaches hrequest
  have hplace : request.span = decl.nameSpan := by
    obtain ⟨-, within, -, rfl⟩ := of_renameRequest?_eq_some hrequest
    rfl
  have heq : patch.edits =
      ((unit.occurrences decl.name).filter (unit.renameReaches decl)).map fun identifier =>
        ⟨identifier.span, new⟩ := by
    rw [hedits, renameEdits_eq, hcovers]
    · exact (hpairwise.filter _).imp fun {a b} hab => hab.1
    · rwa [hcovers, hplace]
  refine ⟨heq, ?_, ?_, ?_⟩
  · obtain ⟨identifier, hidentifier, hreaches, hspan⟩ := hdeclaring
    rw [heq, ← hspan]
    exact List.mem_map.mpr ⟨identifier, List.mem_filter.mpr ⟨hidentifier, hreaches⟩, rfl⟩
  · rw [heq]
    exact List.pairwise_map.mpr (((hpairwise.filter _).filter _).imp fun {a b} hab => hab.1)
  · rw [heq]
    exact List.pairwise_map.mpr (((hpairwise.filter _).filter _).imp fun {a b} hab => hab.2)

end Models

/-! ## The renamings of a run -/

section Runs

variable {run : Run} {result : FileResult} {finding : Finding} {patch : Patch}

/-- Every patch of a result has been made by the run. -/
theorem exists_builds_of_mem_patches (h : analyze run = .ok result)
    (hbuiltin : run.evaluators = builtinEvaluators) (hpatch : patch ∈ result.patches) :
    ∃ finding, run.Builds finding patch := by
  obtain ⟨progress, hrun, rfl⟩ := analyze_eq_ok.mp h
  obtain ⟨f, hf, hkept⟩ := FileResult.mem_patches.mp hpatch
  obtain ⟨g, hg, hmade, -⟩ := Findings.of_mem_result hf
  obtain ⟨hnone, -⟩ :=
    isChecked_of_evaluateAll hrun hbuiltin g (Findings.mem_of_mem_ordered hg)
  refine ⟨g, progress, hrun, hg, ?_⟩
  rcases hmade with hmade | hmade
  · rw [hkept] at hmade
    cases hmade
  · rw [← withPatch_patch hnone, ← hmade, hkept]

/-- **The renamings of a run are exact.**  In a tree that is laid out like the text, each renaming
that a run with the built-in evaluators makes rewrites the recorded occurrences of a declared name
in the region of the declaration, that of the declaration among them, each of them once. -/
theorem renamesExactly_of_builds {path text : String} {tree : Members}
    (hread : readTree path text tree = .ok run.unit) (hplaced : run.unit.WellPlaced tree)
    (hbuiltin : run.evaluators = builtinEvaluators) (hbuilds : run.Builds finding patch)
    (hrename : finding.AsksForRenaming) :
    ∃ decl ∈ run.unit.declarations, ∃ new,
      renameRequest? run.unit decl new = .ok finding.fix ∧
        patch.RenamesExactly run.unit decl new := by
  obtain ⟨progress, hrun, hfinding, hbuilt⟩ := hbuilds
  obtain ⟨request, hfix, htemplate⟩ := hrename
  obtain ⟨-, hchecked⟩ :=
    isChecked_of_evaluateAll hrun hbuiltin finding (Findings.mem_of_mem_ordered hfinding)
  obtain ⟨decl, hdecl, new, hrequest⟩ := hchecked request hfix htemplate
  refine ⟨decl, hdecl.mem, new, hfix ▸ hrequest, ?_⟩
  -- The patch has been made from the request that has been checked.
  obtain ⟨request', hfix', hcases⟩ := buildPatch_eq_some hbuilt
  obtain rfl : request' = request := Option.some.inj (hfix'.symm.trans hfix)
  rcases hcases with ⟨-, old, new', hold, hnew, hedits⟩ | ⟨hother, -⟩
  · obtain ⟨-, within, -, hnames⟩ := of_renameRequest?_eq_some hrequest
    rw [hnames] at hold hnew
    obtain rfl := Option.some.inj hold
    obtain rfl := Option.some.inj hnew
    exact renamesExactly_of_renameRequest? hread hplaced hdecl hrequest hedits
  · exact absurd htemplate hother

end Runs

/-! ## A constant and a variable -/

/-- A constant that a function uses, and a variable of the function. -/
def localText : SourceText where
  path := "p.go"
  text := "package p\n\nconst a_b = 1\n\nfunc f() int { c_d := a_b; return c_d }\n"

def localTree : Members :=
  node "File" 0 66 [
    ("package", .obj (node "Ident" 8 9 [("name", .str "p")])),
    ("decls", .arr [
      .obj (node "GenDecl" 11 24 [
        ("tok", .str "const"),
        ("specs", .arr [.obj (node "ValueSpec" 17 24 [
          ("names", .arr [.obj (node "Ident" 17 20 [("name", .str "a_b")])]),
          ("values", .arr [.obj (node "BasicLit" 23 24 [("value", .str "1")])])])])]),
      .obj (node "FuncDecl" 26 65 [
        ("name", .obj (node "Ident" 31 32 [("name", .str "f")])),
        ("type", .obj (node "FuncType" 26 38 [
          ("results", .obj (node "FieldList" 35 38 [
            ("list", .arr [.obj (node "Field" 35 38 [
              ("type", .obj (node "Ident" 35 38 [("name", .str "int")]))])])]))])),
        ("body", .obj (node "BlockStmt" 39 65 [
          ("list", .arr [
            .obj (node "AssignStmt" 41 51 [
              ("tok", .str ":="),
              ("lhs", .arr [.obj (node "Ident" 41 44 [("name", .str "c_d")])]),
              ("rhs", .arr [.obj (node "Ident" 48 51 [("name", .str "a_b")])])]),
            .obj (node "ReturnStmt" 53 63 [
              ("results", .arr [.obj (node "Ident" 60 63 [("name", .str "c_d")])])])])]))])])]
where
  node (kind : String) (start stop : Int) (parts : Members) : Members :=
    spannedNode kind (localText.spanOf start stop) parts

theorem wellPlaced_localTree {unit : SourceUnit}
    (hread : readTree localText.path localText.text localTree = .ok unit) :
    unit.WellPlaced localTree := by
  obtain ⟨hpath, htext, -⟩ := exists_history_of_readTree hread
  have hsource : unit.toSourceText = localText := by
    rw [← show SourceText.mk unit.path unit.text = localText by rw [hpath, htext]]
  have hnamed : ∀ node ∈ (Json.obj localTree).nodes, ∀ name ∈ node.nameNodes,
      name.hasKind "Ident" = true := by decide +kernel
  refine ⟨?_, fun node hnode name hname _ => hnamed node hnode name hname, ?_, ?_⟩ <;>
    rw [hsource] <;> decide +kernel

/-- The patches of the run over this file: the constant is renamed at its declaration and in the
function, the variable in the function. -/
theorem renamesExactly_localTree : ∃ unit result,
    readTree localText.path localText.text localTree = .ok unit ∧
      analyze { unit } = .ok result ∧
      result.patches.map (fun patch => patch.edits.map (·.span.start.offset)) =
        [[17, 48], [41, 60]] ∧
      ∀ patch ∈ result.patches, ∃ decl ∈ unit.declarations, ∃ new,
        patch.RenamesExactly unit decl new := by
  have hoffsets : ((readTree localText.path localText.text localTree).toOption.bind fun unit =>
      (analyze { unit }).toOption.map fun result =>
        result.patches.map fun patch => patch.edits.map (·.span.start.offset)) =
          some [[17, 48], [41, 60]] := by decide +kernel
  obtain ⟨unit, hunit, hoffsets⟩ := Option.bind_eq_some_iff.mp hoffsets
  obtain ⟨result, hresult, hoffsets⟩ := Option.map_eq_some_iff.mp hoffsets
  have hread := toOption_eq_some.mp hunit
  have hanalyze := toOption_eq_some.mp hresult
  refine ⟨unit, result, hread, hanalyze, hoffsets, fun patch hpatch => ?_⟩
  obtain ⟨finding, hbuilds⟩ := exists_builds_of_mem_patches hanalyze rfl hpatch
  have hrename : finding.AsksForRenaming := by
    obtain ⟨progress, -, -, hbuilt⟩ := hbuilds
    obtain ⟨request, hfix, ⟨htemplate, -⟩ | ⟨-, replacement, -, hedits⟩⟩ :=
      buildPatch_eq_some hbuilt
    · exact ⟨request, hfix, htemplate⟩
    · -- A replacement is a single edit, and every patch here has two.
      have hmem := List.mem_map_of_mem (f := fun patch : Patch =>
        patch.edits.map (·.span.start.offset)) hpatch
      rw [hoffsets, hedits] at hmem
      simp at hmem
  obtain ⟨decl, hdecl, new, -, hexact⟩ :=
    renamesExactly_of_builds hread (wellPlaced_localTree hread) rfl hbuilds hrename
  exact ⟨decl, hdecl, new, hexact⟩

end GoConventions
