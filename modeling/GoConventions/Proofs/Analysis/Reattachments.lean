import GoConventions.Proofs.Analysis.DocReports
import GoConventions.Proofs.Convention.Reattachment
import GoConventions.Proofs.Fix.Renaming

/-!
# The reattachments of a run

A run reports a comment that a blank line separates from its declaration, and the patch of such a
report closes the gap.  It stands for a remark on the declaration, and no other evaluator makes
patches under this rule, so what is known of the request (`reattaches_of_edits`) holds of the
patches in a result.

## Main results

* `reattaches_of_analyze`: the patches for detached comments reattach them.
-/

namespace GoConventions

/-- **The patches for detached comments reattach them**, and change nothing else.  In a tree whose
nodes lie inside one another and whose declarations and specifications start visibly, each such
patch of a run with the built-in evaluators belongs to an exported declaration, and reattaches the
comment that is detached from it. -/
theorem reattaches_of_analyze {run : Run} {result : FileResult} {path text : String}
    {tree : Members} (hread : readTree path text tree = .ok run.unit)
    (hvisible : run.unit.AnchorsVisibly tree) (hbuiltin : run.evaluators = builtinEvaluators)
    (hrun : analyze run = .ok result) {f : Finding} (hf : f ∈ result.findings)
    (hid : f.ruleId = "DOC004") {patch : Patch} (hpatch : f.patch = some patch) :
    ∃ decl ∈ run.unit.exportedDeclarations, f.span = decl.span ∧ decl.doc = none ∧
      ∃ comment, decl.detachedDoc = some comment ∧
        ∃ patched, run.unit.Reattaches decl comment patch patched := by
  obtain ⟨-, -, rfl⟩ := analyze_eq_ok_iff.mp hrun
  -- The finding as it was gathered, before its patch was kept or dropped.
  obtain ⟨g, hg, hmade, hlisted⟩ := Findings.of_mem_result hf
  obtain ⟨hruleId, hspan⟩ : f.ruleId = g.ruleId ∧ f.span = g.span := by
    rw [hlisted]
    exact ⟨rfl, rfl⟩
  obtain ⟨decl, hdecl, remark, hremark, hfinding⟩ :=
    Run.exists_declaration_of_mem_gathered hbuiltin (Findings.mem_of_mem_ordered hg)
      (by rw [← hruleId, hid]; rfl)
  obtain ⟨hremarkId, hremarkSpan, hnone, hfix, -⟩ := Context.of_finding_eq_ok hfinding
  obtain ⟨hplace, hdoc, comment, hcomment, hasked⟩ :=
    of_mem_declarationRemarks hremark (by rw [← hremarkId, ← hruleId, hid])
  refine ⟨decl, hdecl, by rw [hspan, hremarkSpan, hplace], hdoc, comment, hcomment, ?_⟩
  have hbuilt : (buildPatch run.unit g).1 = some patch := by
    rcases hmade with hmade | hmade
    · rw [hpatch] at hmade
      cases hmade
    · rw [← withPatch_patch hnone, ← hmade, hpatch]
  -- The patch was built from the request of the remark, which is no request to rename.
  obtain ⟨request, hrequest, hcases⟩ := buildPatch_eq_some hbuilt
  have hstated : reattachRequest? run.unit decl comment = some request :=
    hasked.symm.trans (hfix request hrequest)
  obtain ⟨hblank, rfl⟩ := reattachRequest?_eq_some hstated
  rcases hcases with ⟨htemplate, -⟩ | ⟨-, replacement, hreplacement, hedits⟩
  · exact absurd htemplate (show FixTemplate.replace.label ≠ FixTemplate.rename.label by decide)
  · obtain rfl := Option.some.inj hreplacement
    exact reattaches_of_edits hread hvisible (List.mem_of_mem_filter hdecl) hcomment hblank hedits

/-! ## Two detached comments -/

/-- A block comment before a line of blanks, and a comment in parentheses. -/
def detachedText : SourceText where
  path := "p.go"
  text := "package p\n\n/* A is. */ \n\t\nvar A int\n\nvar (\n\t// B is.\n\n\tB int\n)\n"

def detachedTree : Members :=
  node "File" 0 63 [
    ("package", name 8 9 "p"),
    ("comments", .arr [comment 11 22 "/* A is. */", comment 44 52 "// B is."]),
    ("decls", .arr [declaration 26 35 (spec 30 35 "A"), declaration 37 62 (spec 55 60 "B")])]
where
  node (kind : String) (start stop : Int) (parts : Members) : Members :=
    spannedNode kind (detachedText.spanOf start stop) parts
  name (start stop : Int) (text : String) : Json :=
    .obj (node "Ident" start stop [("name", .str text)])
  comment (start stop : Int) (text : String) : Json :=
    .obj (node "CommentGroup" start stop [
      ("list", .arr [.obj (node "Comment" start stop [("text", .str text)])])])
  spec (start stop : Int) (text : String) : Json :=
    .obj (node "ValueSpec" start stop [("names", .arr [name start (start + 1) text])])
  declaration (start stop : Int) (spec : Json) : Json :=
    .obj (node "GenDecl" start stop [("tok", .str "var"), ("specs", .arr [spec])])

theorem anchorsVisibly_detachedTree {unit : SourceUnit}
    (hread : readTree detachedText.path detachedText.text detachedTree = .ok unit) :
    unit.AnchorsVisibly detachedTree := by
  obtain ⟨hpath, htext, -⟩ := exists_history_of_readTree hread
  have hsource : unit.toSourceText = detachedText := by
    rw [← show SourceText.mk unit.path unit.text = detachedText by rw [hpath, htext]]
  constructor <;> rw [hsource] <;> decide +kernel

/-- Both comments are reattached; the blanks behind the first one go too. -/
theorem reattaches_detachedTree : ∃ unit result,
    readTree detachedText.path detachedText.text detachedTree = .ok unit ∧
      analyze { unit } = .ok result ∧
      ((result.findings.filter (·.ruleId == "DOC004")).map fun f =>
        (f.patch.bind fun patch => (applyPatches unit.text [patch]).toOption).map Text.lines) =
        [some ["package p", "", "/* A is. */", "var A int", "", "var (", "\t// B is.", "",
            "\tB int", ")", ""],
          some ["package p", "", "/* A is. */ ", "\t", "var A int", "", "var (", "\t// B is.",
            "\tB int", ")", ""]] ∧
      ∀ f ∈ result.findings, f.ruleId = "DOC004" → ∀ patch, f.patch = some patch →
        ∃ decl ∈ unit.exportedDeclarations, f.span = decl.span ∧ decl.doc = none ∧
          ∃ comment, decl.detachedDoc = some comment ∧
            ∃ patched, unit.Reattaches decl comment patch patched := by
  have hlines : ((readTree detachedText.path detachedText.text detachedTree).toOption.bind
      fun unit => (analyze { unit }).toOption.map fun result =>
        (result.findings.filter (·.ruleId == "DOC004")).map fun f =>
          (f.patch.bind fun patch => (applyPatches unit.text [patch]).toOption).map Text.lines) =
      some [some ["package p", "", "/* A is. */", "var A int", "", "var (", "\t// B is.", "",
            "\tB int", ")", ""],
          some ["package p", "", "/* A is. */ ", "\t", "var A int", "", "var (", "\t// B is.",
            "\tB int", ")", ""]] := by
    decide +kernel
  obtain ⟨unit, hunit, hlines⟩ := Option.bind_eq_some_iff.mp hlines
  obtain ⟨result, hresult, hlines⟩ := Option.map_eq_some_iff.mp hlines
  have hread := toOption_eq_some.mp hunit
  have hanalyze := toOption_eq_some.mp hresult
  exact ⟨unit, result, hread, hanalyze, hlines, fun f hf hid patch hpatch =>
    reattaches_of_analyze hread (anchorsVisibly_detachedTree hread) rfl hanalyze hf hid hpatch⟩

end GoConventions
