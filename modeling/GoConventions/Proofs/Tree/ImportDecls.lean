import GoConventions.Proofs.Tree.File
import GoConventions.Proofs.Tree.Growth

/-!
# The import declarations of a model

Only the import declarations among the declarations of a file add to the imports of a draft: the
walk of everything else leaves them as they are (`KeepsImports`).  So the imports of a model are
those of its tree, one for each import declaration and in their order
(`forall₂_readsImports_of_readTree`).

## Main definitions

* `KeepsImports`: a step that adds no import declaration.
* `ReadsImports`: what is read from an import declaration.

## Main results

* `keepsImports_readGeneral`, `keepsImports_readFunction`: other declarations add no imports.
* `forall₂_readsImports_of_readTree`: the imports of a model are read from its tree.
-/

namespace GoConventions

/-! ## Steps that keep the imports -/

/-- A step of the reader that adds no import declaration. -/
def KeepsImports {α : Type} (step : TreeReader α) : Prop :=
  ∀ draft a later, step.run draft = .ok (a, later) → later.imports = draft.imports

/-- A draft that grows in all but its imports. -/
def importGrowth : Growth where
  Grows draft later := later.imports = draft.imports
  Declares _ := True
  refl _ := rfl
  trans hfirst hrest := hrest.trans hfirst
  scope _ _ := rfl
  identifier _ _ := rfl
  call _ _ := rfl
  declaration _ _ _ := rfl
  undetached _ _ := trivial

theorem KeepsImports.of_keeps {α : Type} {step : TreeReader α} (h : importGrowth.Keeps step) :
    KeepsImports step :=
  h

/-- **A walk adds no import declaration.** -/
theorem keepsImports_walkTree {src : SourceText} (value : Json) (scope : Nat)
    (context : CallContext) : KeepsImports (walkTree src value scope context) :=
  .of_keeps (Growth.keeps_walkTree value scope context)

/-! ## Declarations of a file -/

section Files

variable {src : CommentedText} {root : Nat} {decl : Members} {draft later : Draft}

theorem keepsImports_readGeneral : KeepsImports (readGeneral src decl root) :=
  .of_keeps (Growth.keeps_readGeneral fun _ _ _ _ => trivial)

theorem keepsImports_readFunction : KeepsImports (readFunction src decl root) :=
  .of_keeps (Growth.keeps_readFunction fun _ _ => trivial)

/-- A declaration of imports. -/
def Members.declaresImports (decl : Members) : Bool :=
  decl.hasKind "GenDecl" && (decl.get "tok").isText "import"

/-- What is read from a declaration of imports: its place, whether it has parentheses, and an entry
for each of its specifications, in groups. -/
structure ReadsImports (src : CommentedText) (node : Members) (decl : ImportDecl) : Prop where
  span : src.span node = .ok decl.span
  parenthesized : isParenthesized src.toSourceText node = .ok decl.parenthesized
  entries : ∃ specs, nodesIn (node.get "specs") = .ok specs ∧
    List.Forall₂ (fun spec entry => importEntry src spec = .ok entry) specs decl.entries
  groups : decl.groups = groupEntries src.toSourceText decl.entries
  bodySpan : decl.bodySpan =
    if decl.parenthesized then parenthesizedBody? src.toSourceText decl.span else none

/-- **A declaration of imports adds what is read from it.** -/
theorem exists_of_run_readImports (h : (readImports src decl root).run draft = .ok ((), later)) :
    ∃ found, ReadsImports src decl found ∧ later.imports = draft.imports ++ [found] := by
  unfold readImports at h
  obtain ⟨span, hspan, h⟩ := run_lift_bind_eq_ok.mp h
  obtain ⟨parenthesized, hparenthesized, h⟩ := run_lift_bind_eq_ok.mp h
  obtain ⟨specs, hspecs, h⟩ := run_lift_bind_eq_ok.mp h
  obtain ⟨entries, first, hentries, h⟩ := run_bind_eq_ok.mp h
  obtain ⟨_, second, hdeclared, h⟩ := run_bind_eq_ok.mp h
  obtain ⟨-, rfl⟩ := Prod.mk.inj (Except.ok.inj h)
  have hfirst : first.imports = draft.imports :=
    Growth.Keeps.mapM (G := importGrowth) (fun spec _ => .lift (importEntry src spec))
      _ _ _ hentries
  have hsecond : second.imports = first.imports :=
    Growth.Keeps.forM (G := importGrowth) (fun entry _ => Growth.keeps_declare trivial) _ _ _
      hdeclared
  let found : ImportDecl :=
    { span, parenthesized, groups := groupEntries src.toSourceText entries
      bodySpan := if parenthesized then parenthesizedBody? src.toSourceText span else none }
  have hgrouped : found.entries = entries := flatMap_groupEntries src.toSourceText entries
  refine ⟨found, ⟨hspan, hparenthesized, ⟨specs, hspecs, ?_⟩, ?_, rfl⟩, ?_⟩
  · rw [hgrouped]
    exact run_mapM_lift hentries
  · rw [hgrouped]
  · rw [← hfirst, ← hsecond]

/-- A declaration adds what is read from it if it is one of imports, and else nothing. -/
theorem exists_of_run_readDeclaration
    (h : (readDeclaration src root decl).run draft = .ok ((), later)) :
    ∃ added, List.Forall₂ (ReadsImports src) ([decl].filter Members.declaresImports) added ∧
      later.imports = draft.imports ++ added := by
  unfold readDeclaration at h
  by_cases himports : decl.declaresImports = true
  · obtain ⟨hkind, htoken⟩ := Bool.and_eq_true_iff.mp himports
    rw [if_pos hkind, if_pos htoken] at h
    obtain ⟨found, hfound, hlater⟩ := exists_of_run_readImports h
    rw [List.filter_singleton, himports]
    exact ⟨[found], .cons hfound .nil, hlater⟩
  · have hkeeps : later.imports = draft.imports := by
      split at h
      · rename_i hkind
        rw [Members.declaresImports, hkind, Bool.true_and] at himports
        rw [if_neg himports] at h
        exact keepsImports_readGeneral _ _ _ h
      · split at h
        · exact keepsImports_readFunction _ _ _ h
        · exact keepsImports_walkTree _ _ _ _ _ _ h
    rw [List.filter_singleton, Bool.eq_false_iff.mpr himports]
    exact ⟨[], .nil, by rw [hkeeps, List.append_nil]⟩

theorem exists_of_run_forM_readDeclaration {decls : List Members}
    (h : (decls.forM (readDeclaration src root)).run draft = .ok ((), later)) :
    ∃ added, List.Forall₂ (ReadsImports src) (decls.filter Members.declaresImports) added ∧
      later.imports = draft.imports ++ added := by
  induction decls generalizing draft with
  | nil =>
    obtain ⟨-, rfl⟩ := Prod.mk.inj (Except.ok.inj h)
    exact ⟨[], .nil, (List.append_nil _).symm⟩
  | cons decl decls ih =>
    obtain ⟨_, middle, hfirst, hrest⟩ := run_bind_eq_ok.mp h
    obtain ⟨added, hadded, hmiddle⟩ := exists_of_run_readDeclaration hfirst
    obtain ⟨more, hmore, hlater⟩ := ih hrest
    refine ⟨added ++ more, ?_, ?_⟩
    · rw [← List.singleton_append, List.filter_append]
      exact List.rel_append hadded hmore
    · rw [hlater, hmiddle, List.append_assoc]

/-- **The imports of a model are read from its tree**, one for each declaration of imports, in the
order of these. -/
theorem forall₂_readsImports_of_readTree {path text : String} {tree : Members} {unit : SourceUnit}
    (h : readTree path text tree = .ok unit) :
    ∃ decls, nodesIn (tree.get "decls") = .ok decls ∧
      List.Forall₂ (ReadsImports (unit.withComments unit.comments))
        (decls.filter Members.declaresImports) unit.imports := by
  unfold readTree at h
  dsimp only at h
  split at h
  case isTrue => cases h
  case isFalse =>
    obtain ⟨comments, hcomments, h⟩ := bind_eq_ok.mp h
    obtain ⟨⟨clause, draft⟩, hread, h⟩ := bind_eq_ok.mp h
    obtain rfl := Except.ok.inj h
    unfold readFile at hread
    obtain ⟨root, first, hopened, hread⟩ := run_bind_eq_ok.mp hread
    obtain ⟨clause, hclause, hread⟩ := run_lift_bind_eq_ok.mp hread
    obtain ⟨_, second, hdeclared, hread⟩ := run_bind_eq_ok.mp hread
    obtain ⟨decls, hdecls, hread⟩ := run_lift_bind_eq_ok.mp hread
    obtain ⟨_, third, hall, hread⟩ := run_bind_eq_ok.mp hread
    obtain ⟨-, rfl⟩ := Prod.mk.inj (Except.ok.inj hread)
    obtain ⟨added, hadded, hlater⟩ := exists_of_run_forM_readDeclaration hall
    -- Neither the scope of the file nor the package clause adds imports to the empty draft.
    have hfirst : first.imports = ({} : Draft).imports :=
      Growth.keeps_openScope (G := importGrowth) _ _ _ _ _ _ _ hopened
    have hsecond : second.imports = first.imports :=
      Growth.keeps_declare (G := importGrowth) trivial _ _ _ hdeclared
    refine ⟨decls, hdecls, ?_⟩
    rw [hsecond, hfirst, List.nil_append] at hlater
    exact hlater ▸ hadded

end Files

end GoConventions
