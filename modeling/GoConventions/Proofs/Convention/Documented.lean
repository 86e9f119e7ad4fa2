import GoConventions.Proofs.Convention.Restriction

/-!
# Documented declarations

A declaration is documented by a comment directly above it that starts with its name, perhaps after
an article.  The remarks on an exported declaration say so in one way or another: a declaration that
is not documented has one remark under one of two rules (`exists_declarationRemarks_eq`), and a
documented one has none under these rules.  Which rule it is tells whether a comment that would
document the declaration stands apart from it.

## Main definitions

* `CommentBlock.Names`: a comment starts with a name.
* `Declaration.IsDocumented`, `Declaration.IsDetached`: a comment documents a declaration, or would
  if it did not stand apart.
* `asksForComment`: the rules under which a declaration is asked for a comment.

## Main results

* `exists_declarationRemarks_eq`: the remark on a declaration that is not documented.
* `span_mem_nodeSpans_of_mem_documentationRemarks`: where the remarks on comments are.
-/

namespace GoConventions

variable {unit : SourceUnit} {context : Context} {decl : Declaration} {comment : CommentBlock}
  {name : String} {remark : Remark}

/-! ## Comments that document -/

/-- A comment starts with a name, perhaps after an article. -/
def CommentBlock.Names (comment : CommentBlock) (name : String) : Prop :=
  ∃ rest, Text.words comment.text = name :: rest ∨
    ∃ article ∈ articles, Text.words comment.text = article :: name :: rest

theorem startsWithName_iff : startsWithName comment name = true ↔ comment.Names name := by
  unfold startsWithName CommentBlock.Names
  rcases Text.words comment.text with _ | ⟨word, _ | ⟨next, rest⟩⟩
  · simp
  · simp
  · simp only [Bool.or_eq_true, Bool.and_eq_true, beq_iff_eq, List.contains_iff_mem,
      List.cons.injEq]
    constructor
    · rintro (rfl | ⟨harticle, rfl⟩)
      · exact ⟨_, .inl ⟨rfl, rfl⟩⟩
      · exact ⟨_, .inr ⟨word, harticle, rfl, rfl, rfl⟩⟩
    · rintro ⟨_, ⟨rfl, -⟩ | ⟨article, harticle, rfl, rfl, -⟩⟩
      · exact .inl rfl
      · exact .inr ⟨harticle, rfl⟩

namespace Declaration

/-- The comment of a declaration starts with its name. -/
def IsDocumented (decl : Declaration) : Prop :=
  ∃ doc, decl.doc = some doc ∧ doc.Names decl.name

/-- A declaration has no comment, but one that starts with its name stands apart from it. -/
def IsDetached (decl : Declaration) : Prop :=
  decl.doc = none ∧ ∃ comment, decl.detachedDoc = some comment ∧ comment.Names decl.name

end Declaration

/-- The rules under which a declaration is asked for a comment. -/
def asksForComment (id : String) : Bool :=
  id == "DOC001" || id == "DOC004"

/-! ## The remarks on a declaration -/

theorem ruleId_of_mem_sentenceRemark? (h : remark ∈ (sentenceRemark? unit comment).toList) :
    remark.ruleId = "DOC003" := by
  grind [sentenceRemark?]

theorem ruleId_of_mem_undocumentedRemarks (h : remark ∈ undocumentedRemarks context decl) :
    remark.ruleId = "DOC001" := by
  grind [undocumentedRemarks, Context.whenEnabled]

theorem ruleId_of_mem_documentedRemarks (h : remark ∈ documentedRemarks context decl comment) :
    remark.ruleId = "DOC001" ∨ remark.ruleId = "DOC003" := by
  grind [documentedRemarks, Context.whenEnabled, ruleId_of_mem_sentenceRemark?]

/-- A documented declaration is not asked for a comment. -/
theorem asksForComment_eq_false (hdocumented : decl.IsDocumented)
    (h : remark ∈ declarationRemarks context decl) : asksForComment remark.ruleId = false := by
  obtain ⟨doc, hdoc, hnames⟩ := hdocumented
  have hstarts := startsWithName_iff.mpr hnames
  rw [declarationRemarks, hdoc] at h
  dsimp only at h
  rw [documentedRemarks, hstarts, Bool.not_true, Bool.and_false,
    if_neg Bool.false_ne_true] at h
  rw [ruleId_of_mem_sentenceRemark? (mem_of_mem_whenEnabled h)]
  rfl

/-- **A declaration that is not documented has one remark**, at its place, which asks for a
comment. -/
theorem exists_declarationRemarks_eq (hexemptions : context.settings.docExemptions = [])
    (hform : context.enabled "DOC001" = true) (hplace : context.enabled "DOC004" = true)
    (hdocumented : ¬ decl.IsDocumented) :
    ∃ remark, declarationRemarks context decl = [remark] ∧ remark.span = decl.span ∧
      asksForComment remark.ruleId = true ∧ (remark.ruleId = "DOC004" ↔ decl.IsDetached) := by
  have hmissing : ∀ remark : Remark, remark.ruleId = "DOC001" → ¬ decl.IsDetached →
      asksForComment remark.ruleId = true ∧ (remark.ruleId = "DOC004" ↔ decl.IsDetached) := by
    intro remark hid hdetached
    rw [hid]
    exact ⟨rfl, iff_of_false (by decide) hdetached⟩
  unfold declarationRemarks
  split
  case h_1 doc hdoc =>
    have hstarts : startsWithName doc decl.name = false :=
      Bool.eq_false_iff.mpr fun h => hdocumented ⟨doc, hdoc, startsWithName_iff.mp h⟩
    refine ⟨_, by rw [documentedRemarks, hform, hstarts]; rfl, rfl, hmissing _ rfl ?_⟩
    rintro ⟨hnone, -⟩
    rw [hnone] at hdoc
    cases hdoc
  case h_2 hdoc =>
    obtain ⟨missing, hundocumented, hspan, hid⟩ : ∃ missing,
        undocumentedRemarks context decl = [missing] ∧ missing.span = decl.span ∧
          missing.ruleId = "DOC001" := by
      rw [undocumentedRemarks, hexemptions, if_neg (by simp), Context.whenEnabled, if_pos hform]
      exact ⟨_, rfl, rfl, rfl⟩
    split
    case h_1 detached hdetached =>
      -- A comment that stands apart counts only if it would document the declaration.
      by_cases hstarts : startsWithName detached decl.name = true
      · refine ⟨_, by rw [hstarts, hplace]; rfl, rfl, rfl, iff_of_true rfl ?_⟩
        exact ⟨hdoc, detached, hdetached, startsWithName_iff.mp hstarts⟩
      · rw [Bool.eq_false_iff.mpr hstarts, Bool.false_and, if_neg Bool.false_ne_true]
        refine ⟨missing, hundocumented, hspan, hmissing _ hid ?_⟩
        rintro ⟨-, other, hother, hnames⟩
        obtain rfl := Option.some.inj (hdetached.symm.trans hother)
        exact hstarts (startsWithName_iff.mpr hnames)
    case h_2 hnone =>
      refine ⟨missing, hundocumented, hspan, hmissing _ hid ?_⟩
      rintro ⟨-, other, hother, -⟩
      rw [hnone] at hother
      cases hother

/-- A remark on a sentence is one on the comment of a declaration. -/
theorem exists_doc_of_mem_declarationRemarks (h : remark ∈ declarationRemarks context decl)
    (hid : remark.ruleId = "DOC003") :
    ∃ doc, decl.doc = some doc ∧ sentenceRemark? context.unit doc = some remark := by
  have hundocumented : remark ∉ undocumentedRemarks context decl := by
    intro hmem
    rw [ruleId_of_mem_undocumentedRemarks hmem] at hid
    exact absurd hid (by decide)
  unfold declarationRemarks at h
  split at h
  case h_1 doc hdoc =>
    unfold documentedRemarks at h
    split at h
    case isTrue =>
      obtain rfl := List.mem_singleton.mp h
      exact absurd hid (show "DOC001" ≠ "DOC003" by decide)
    case isFalse =>
      exact ⟨doc, hdoc, Option.mem_toList.mp (mem_of_mem_whenEnabled h)⟩
  case h_2 hdoc =>
    split at h
    case h_1 detached hdetached =>
      split at h
      case isTrue =>
        obtain rfl := List.mem_singleton.mp h
        exact absurd hid (show "DOC004" ≠ "DOC003" by decide)
      case isFalse => exact absurd h hundocumented
    case h_2 => exact absurd h hundocumented

/-! ## The remarks on a file -/

/-- Comments are asked for at exported declarations. -/
theorem exists_declaration_of_asksForComment (hasks : asksForComment remark.ruleId = true)
    (h : remark ∈ documentationRemarks context) :
    ∃ decl ∈ context.unit.exportedDeclarations, remark ∈ declarationRemarks context decl := by
  unfold documentationRemarks at h
  dsimp only at h
  split at h
  · cases h
  · rcases List.mem_append.mp h with h | h
    · -- The other remarks are on the package comment, and under other rules.
      rcases List.mem_append.mp h with h | h
      · rw [(allMeet_packageCommentRemarks remark (mem_of_mem_whenEnabled h)).ruleId_eq] at hasks
        cases hasks
      · rw [(allMeet_packageSentence remark (mem_of_mem_whenEnabled h)).ruleId_eq] at hasks
        cases hasks
    · obtain ⟨decl, hdecl, hremark⟩ := List.mem_flatMap.mp h
      exact ⟨decl, List.mem_of_mem_filter hdecl, hremark⟩

theorem mem_documentationRemarks (hexemptions : context.settings.docExemptions = [])
    (hdecl : decl ∈ context.unit.exportedDeclarations)
    (h : remark ∈ declarationRemarks context decl) : remark ∈ documentationRemarks context := by
  rw [documentationRemarks, hexemptions, if_neg (by simp)]
  refine List.mem_append_right _ (List.mem_flatMap.mpr ⟨decl, List.mem_filter.mpr ⟨hdecl, ?_⟩, h⟩)
  simp

/-- A comment is checked for being a sentence: it is that of the package or of an exported
declaration. -/
def SourceUnit.ChecksSentence (unit : SourceUnit) (comment : CommentBlock) : Prop :=
  unit.packageDoc = some comment ∨ ∃ decl ∈ unit.exportedDeclarations, decl.doc = some comment

/-- A remark on a sentence is one on a comment that is checked. -/
theorem exists_comment_of_mem_documentationRemarks (h : remark ∈ documentationRemarks context)
    (hid : remark.ruleId = "DOC003") : ∃ comment, context.unit.ChecksSentence comment ∧
      sentenceRemark? context.unit comment = some remark := by
  unfold documentationRemarks at h
  dsimp only at h
  split at h
  · cases h
  rcases List.mem_append.mp h with h | h
  · rcases List.mem_append.mp h with h | h
    · rw [(allMeet_packageCommentRemarks remark (mem_of_mem_whenEnabled h)).ruleId_eq] at hid
      exact absurd hid (by decide)
    · obtain ⟨doc, hdoc, hsentence⟩ := Option.bind_eq_some_iff.mp
        (Option.mem_toList.mp (mem_of_mem_whenEnabled h))
      exact ⟨doc, .inl hdoc, hsentence⟩
  · obtain ⟨decl, hdecl, hremark⟩ := List.mem_flatMap.mp h
    obtain ⟨doc, hdoc, hsentence⟩ := exists_doc_of_mem_declarationRemarks hremark hid
    exact ⟨doc, .inr ⟨decl, List.mem_of_mem_filter hdecl, hdoc⟩, hsentence⟩

/-! ## Where the remarks are -/

section Places

theorem span_of_mem_declarationRemarks (h : remark ∈ declarationRemarks context decl) :
    remark.span = decl.span ∨ ∃ doc, decl.doc = some doc ∧ remark.span = doc.span := by
  grind [declarationRemarks, documentedRemarks, undocumentedRemarks, Context.whenEnabled,
    span_of_mem_sentenceRemark?]

theorem span_of_mem_packageCommentRemarks (h : remark ∈ packageCommentRemarks context) :
    remark.span = context.unit.packageSpan ∨
      ∃ comment ∈ context.unit.packageDoc.toList ++ context.unit.comments,
        remark.span = comment.span := by
  have hcomments : ∀ comment ∈ sortBy (compareOn (·.span.start.offset))
      (packageComments context.unit),
        comment ∈ context.unit.packageDoc.toList ++ context.unit.comments := by
    intro comment hcomment
    rw [mem_sortBy, packageComments, List.mem_append] at hcomment
    exact List.mem_append.mpr (hcomment.imp_right List.mem_of_mem_filter)
  unfold packageCommentRemarks at h
  dsimp only at h
  split at h
  · grind
  · rcases List.mem_append.mp h with hextra | hform
    · split at hextra
      · rename_i second rest hsorted
        obtain rfl := List.mem_singleton.mp hextra
        exact .inr ⟨second, hcomments _ (by simp [hsorted]), rfl⟩
      · cases hextra
    · grind

/-- **The remarks on comments are at nodes of the tree.** -/
theorem span_mem_nodeSpans_of_mem_documentationRemarks
    (h : remark ∈ documentationRemarks context) : remark.span ∈ context.unit.nodeSpans := by
  unfold documentationRemarks at h
  dsimp only at h
  split at h
  · cases h
  rcases List.mem_append.mp h with h | h
  · rcases List.mem_append.mp h with h | h
    · rcases span_of_mem_packageCommentRemarks (mem_of_mem_whenEnabled h) with hspan | hcomment
      · rw [hspan]
        simp [SourceUnit.nodeSpans]
      · obtain ⟨comment, hcomment, hspan⟩ := hcomment
        rw [hspan]
        exact span_mem_nodeSpans_of_comment hcomment
    · obtain ⟨doc, hdoc, hsentence⟩ := Option.bind_eq_some_iff.mp
        (Option.mem_toList.mp (mem_of_mem_whenEnabled h))
      rw [span_of_mem_sentenceRemark? (Option.mem_toList.mpr hsentence)]
      exact span_mem_nodeSpans_of_comment (List.mem_append_left _ (Option.mem_toList.mpr hdoc))
  · obtain ⟨decl, hdecl, hremark⟩ := List.mem_flatMap.mp h
    have hmem : decl ∈ context.unit.declarations :=
      List.mem_of_mem_filter (List.mem_of_mem_filter hdecl)
    refine span_mem_nodeSpans_of_mem_declarations hmem ?_
    rcases span_of_mem_declarationRemarks hremark with hspan | ⟨doc, hdoc, hspan⟩
    · rw [hspan]
      exact List.mem_cons_self
    · rw [hspan]
      simp [Declaration.spans, Declaration.comments, hdoc]

end Places

end GoConventions
