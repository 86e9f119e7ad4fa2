import GoConventions.Proofs.Tree.Growth

/-!
# Detached comments and their declarations

A comment is detached from the line on which a declaration is anchored: a declaration of the file or
a specification in one.  The declaration itself may start at a name further on, and the comment is
the last one that stands alone and ends two lines above the anchor.

A model says nothing about anchors, so they are found by a growth: whatever is declared has no
detached comment or an anchor in the file (`anchoredGrowth`).

## Main definitions

* `Members.fileAnchors`: the nodes of a file that may be anchors.
* `CommentedText.AnchorsAmong`: a declaration with a detached comment has one of some anchors.

## Main results

* `exists_anchor_of_readTree`: every declaration with a detached comment is anchored in the file.
* `of_mem_fileAnchors`: anchors are nodes of the tree.
-/

namespace GoConventions

/-- The nodes of a file that may be the anchors of its declarations. -/
def Members.fileAnchors (tree : Members) : List Members :=
  ((nodesIn (tree.get "decls")).toOption.getD []).flatMap Members.anchors

/-- A declaration that has a detached comment has its anchor among some nodes. -/
def CommentedText.AnchorsAmong (src : CommentedText) (nodes : List Members) (decl : Declaration) :
    Prop :=
  decl.detachedDoc ≠ none → ∃ anchor ∈ nodes, src.Anchors anchor decl

/-- A draft that grows by declarations with anchors among some nodes. -/
def anchoredGrowth (src : CommentedText) (nodes : List Members) : Growth where
  Grows draft later := ∀ decl ∈ later.declarations,
    decl ∈ draft.declarations ∨ src.AnchorsAmong nodes decl
  Declares := src.AnchorsAmong nodes
  refl _ _ hdecl := .inl hdecl
  trans hfirst hrest decl hdecl := (hrest decl hdecl).elim (hfirst decl) .inr
  scope _ _ _ hdecl := .inl hdecl
  identifier _ _ _ hdecl := .inl hdecl
  call _ _ _ hdecl := .inl hdecl
  declaration _ added hadded decl hdecl := by
    rcases List.mem_append.mp hdecl with hbefore | hlast
    · exact .inl hbefore
    · obtain rfl := List.mem_singleton.mp hlast
      exact .inr hadded
  undetached _ hnone hsome := absurd hnone hsome

section Declarations

variable {src : CommentedText} {nodes : List Members} {root : Nat} {decl : Members}

/-- **What a declaration of the file declares is anchored at it** or at one of its
specifications. -/
theorem keeps_readDeclaration (hanchors : decl.anchors ⊆ nodes) :
    (anchoredGrowth src nodes).Keeps (readDeclaration src root decl) := by
  have hdeclares : ∀ anchor ∈ decl.anchors, ∀ declared, src.Anchors anchor declared →
      (anchoredGrowth src nodes).Declares declared :=
    fun anchor hanchor _ hanchored _ => ⟨anchor, hanchors hanchor, hanchored⟩
  unfold readDeclaration
  split
  · split
    · exact Growth.keeps_readImports fun _ => .ofModify fun draft _ hdecl => .inl hdecl
    · exact Growth.keeps_readGeneral hdeclares
  · split
    · exact Growth.keeps_readFunction (hdeclares decl List.mem_cons_self)
    · exact Growth.keeps_walkTree _ _ _

theorem keeps_readFile {tree : Members} :
    (anchoredGrowth src tree.fileAnchors).Keeps (readFile src tree) := by
  unfold readFile
  refine (Growth.keeps_openScope _ _ _ _).bind fun root => .lift_bind fun clause => ?_
  refine (Growth.keeps_declare ?_).bind fun _ => .found_bind fun decls hdecls => ?_
  · exact (anchoredGrowth src tree.fileAnchors).undetached _ rfl
  · refine (Growth.Keeps.forM fun decl hdecl => ?_).bind fun _ => .pure _
    refine keeps_readDeclaration fun anchor hanchor => ?_
    rw [Members.fileAnchors, hdecls]
    exact List.mem_flatMap.mpr ⟨decl, hdecl, hanchor⟩

end Declarations

/-! ## The anchors of a model -/

/-- **Every declaration with a detached comment is anchored in the file.** -/
theorem exists_anchor_of_readTree {path text : String} {tree : Members} {unit : SourceUnit}
    (h : readTree path text tree = .ok unit) {decl : Declaration}
    (hdecl : decl ∈ unit.declarations) {comment : CommentBlock}
    (hcomment : decl.detachedDoc = some comment) :
    ∃ anchor ∈ tree.fileAnchors, ∃ span, unit.span anchor = .ok span ∧
      (unit.withComments unit.comments).commentEndingOn? (span.start.line - 2) = some comment ∧
      unit.StartsFrom anchor span decl.span := by
  unfold readTree at h
  dsimp only at h
  split at h
  case isTrue => cases h
  case isFalse =>
    obtain ⟨comments, -, h⟩ := bind_eq_ok.mp h
    obtain ⟨⟨clause, draft⟩, hread, h⟩ := bind_eq_ok.mp h
    obtain rfl := Except.ok.inj h
    have hanchored := (keeps_readFile _ _ _ hread decl hdecl).resolve_left List.not_mem_nil
    obtain ⟨anchor, hanchor, span, group, hspan, hdetached, hstarts⟩ :=
      hanchored (by rw [hcomment]; exact Option.some_ne_none _)
    refine ⟨anchor, hanchor, span, hspan, ?_, hstarts⟩
    -- The line above the anchor is blank, and no comment leads the anchor.
    rw [hcomment, docsAt] at hdetached
    dsimp only at hdetached
    split at hdetached
    · cases hdetached
    · unfold CommentedText.detachedComment? at hdetached
      split at hdetached
      · exact hdetached.symm
      · cases hdetached

/-- Anchors are nodes of the tree. -/
theorem of_mem_fileAnchors {tree anchor : Members} (h : anchor ∈ tree.fileAnchors) :
    anchor ∈ (Json.obj tree).nodes := by
  have hlisted : ∀ {node listed : Members} {key : String}, key ∉ annotationKeys →
      listed ∈ (nodesIn (node.get key)).toOption.getD [] → listed ∈ node.inner := by
    intro node listed key hkey hmem
    cases hnodes : nodesIn (node.get key) with
    | error fault => rw [hnodes] at hmem; cases hmem
    | ok nodes =>
      rw [hnodes] at hmem
      exact nodes_subset_inner hkey hnodes hmem List.mem_cons_self
  obtain ⟨decl, hdecl, hanchor⟩ := List.mem_flatMap.mp h
  have hnode : decl ∈ (Json.obj tree).nodes :=
    List.mem_cons_of_mem _ (hlisted (by decide) hdecl)
  rcases List.mem_cons.mp hanchor with rfl | hspec
  · exact hnode
  · exact nodes_trans hnode (hlisted (by decide) hspec)

end GoConventions
