import GoConventions.Proofs.Convention.Documented
import GoConventions.Proofs.Fix.Application
import GoConventions.Proofs.Source.BlankGap
import GoConventions.Proofs.Tree.Anchors
import GoConventions.Proofs.Tree.Identifiers
import GoConventions.Proofs.Tree.Nested

/-!
# Reattached comments

A comment that is detached from a declaration is moved to it by closing the gap between them.  The
gap ends at the start of the line of the declaration, and only its being blank is checked.  That
this makes it one blank line is owed to the tree: the comment ends two lines above the anchor of the
declaration, the declaration starts at its anchor or at a name inside it, and the anchor is no
blank, so that a name on a later line has it in the gap.

## Main definitions

* `SourceUnit.AnchorsVisibly`: the conditions on a tree.
* `SourceUnit.Reattaches`: a patch moves a declaration up to its comment and changes nothing else.

## Main results

* `reattaches_of_edits`: the replacement of a blank gap does so.
-/

namespace GoConventions

/-- A node starts at a character that is no blank, as far as it has a place. -/
def SourceText.startsVisibly (src : SourceText) (node : Members) : Bool :=
  match src.span node with
  | .ok span => (src.text.toList[span.start.offset.toNat]?).any (!Text.isBlank ·)
  | .error _ => true

/-- Nodes lie inside the nodes above them, comments left aside, and the declarations of the file and
their specifications start at characters that are no blanks. -/
structure SourceUnit.AnchorsVisibly (unit : SourceUnit) (tree : Members) : Prop where
  nested : ∀ node ∈ (Json.obj tree).nodes, ∀ below ∈ node.inner, unit.liesIn below node = true
  visible : ∀ anchor ∈ tree.fileAnchors, unit.startsVisibly anchor = true

/-- **A patch reattaches the comment of a declaration.**  It replaces blanks with two line feeds,
and in the patched text, of the lines of the file, one blank line is gone and nothing else but
blanks behind the comment.  The declaration is where it was on its line, this is the one below the
comment, and the comment is the one that leads it. -/
structure SourceUnit.Reattaches (unit : SourceUnit) (decl : Declaration) (comment : CommentBlock)
    (patch : Patch) (patched : SourceText) : Prop where
  path : patched.path = unit.path
  applied : applyPatches unit.text [patch] = .ok patched.text
  edits : patch.edits = [⟨unit.gapSpan decl comment, "\n"⟩]
  blank : Text.isBlankText (unit.textAt (unit.gapSpan decl comment)) = true
  feeds : (unit.textAt (unit.gapSpan decl comment)).toList.count '\n' = 2
  lines : unit.LosesBlankLine patched comment.span.stop
  line : (patched.moved (unit.gapSpan decl comment) decl.span.start).line =
    comment.span.stop.line + 1
  column : (patched.moved (unit.gapSpan decl comment) decl.span.start).column =
    decl.span.start.column
  follows : Text.fromOffset (patched.moved (unit.gapSpan decl comment) decl.span.start).offset
    patched.text = Text.fromOffset decl.span.start.offset unit.text
  leads : (patched.withComments
      (unit.comments.map (·.moved patched (unit.gapSpan decl comment)))).leadingComment?
    (patched.moved (unit.gapSpan decl comment) decl.span.start).line =
      some (comment.moved patched (unit.gapSpan decl comment))

/-! ## The gap -/

section Gap

variable {path text : String} {tree : Members} {unit : SourceUnit} {decl : Declaration}
  {comment : CommentBlock}

/-- The comment that is detached from a declaration ends two lines above its anchor, which is a
visible place at or before the start of the declaration. -/
theorem exists_anchor (hread : readTree path text tree = .ok unit)
    (hvisible : unit.AnchorsVisibly tree) (hdecl : decl ∈ unit.declarations)
    (hcomment : decl.detachedDoc = some comment) :
    ∃ p, unit.IsCanonical p ∧ p.line = comment.span.stop.line + 2 ∧
      p.offset ≤ decl.span.start.offset ∧
      ∃ c, unit.text.toList[p.offset.toNat]? = some c ∧ Text.isBlank c = false := by
  obtain ⟨anchor, hanchor, span, hspan, hending, hstarts⟩ :=
    exists_anchor_of_readTree hread hdecl hcomment
  have hline := (List.mem_filter.mp (List.mem_of_getLast? hending)).2
  rw [beq_iff_eq] at hline
  have hcanonical := SourceText.isCanonical_of_position (SourceText.span_eq_ok.mp hspan).1
  refine ⟨span.start, hcanonical, by omega, ?_, ?_⟩
  · rcases hstarts with hstart | ⟨name, hname, inner, hinner, hstart⟩
    · exact Int.le_of_eq (congrArg Position.offset hstart.symm)
    · have hlies := hvisible.nested anchor (of_mem_fileAnchors hanchor) name hname
      have hcontains := SourceText.contains_of_liesIn hlies hspan hinner
      rw [Span.contains, Bool.and_eq_true, decide_eq_true_eq] at hcontains
      rw [hstart]
      exact hcontains.1
  · have hvisible := hvisible.visible anchor hanchor
    rw [SourceText.startsVisibly, hspan] at hvisible
    obtain ⟨c, hc, hblank⟩ := (Option.any_eq_true _ _).mp hvisible
    exact ⟨c, hc, by simpa using hblank⟩

theorem isCanonical_of_detachedDoc (hread : readTree path text tree = .ok unit)
    (hdecl : decl ∈ unit.declarations) (hcomment : decl.detachedDoc = some comment) :
    unit.IsCanonical decl.span.start ∧ unit.IsCanonical comment.span.stop := by
  obtain ⟨-, -, history, htells⟩ := exists_history_of_readTree hread
  have hstated := statesSpan_of_mem_declarations htells hdecl
  exact ⟨(isCanonical_of_statesSpan (hstated decl.span (by simp [Declaration.spans]))).1,
    (isCanonical_of_statesSpan (hstated comment.span
      (by simp [Declaration.spans, Declaration.comments, hcomment]))).2⟩

/-- **A blank gap above a declaration** is one blank line. -/
theorem nonempty_gap (hread : readTree path text tree = .ok unit)
    (hvisible : unit.AnchorsVisibly tree) (hdecl : decl ∈ unit.declarations)
    (hcomment : decl.detachedDoc = some comment)
    (hblank : Text.isBlankText (unit.textAt (unit.gapSpan decl comment)) = true) :
    decl.span.start.line = comment.span.stop.line + 2 ∧
      Nonempty (BlankGap unit.toSourceText (unit.gapSpan decl comment)) := by
  obtain ⟨hstart, hstop⟩ := isCanonical_of_detachedDoc hread hdecl hcomment
  obtain ⟨hlineStart, hsame, hcolumn⟩ := hstart.positionAt_lineStart
  obtain ⟨p, hp, hpline, hple, c, hc, hvisibleChar⟩ := exists_anchor hread hvisible hdecl hcomment
  have hmono := hp.line_mono hstart hple
  have hline : decl.span.start.line = comment.span.stop.line + 2 := by
    by_contra hne
    -- On a later line the declaration would have its anchor in the gap.
    have hbelow := hp.offset_lt_lineStart hstart (by omega)
    have habove : comment.span.stop.offset ≤ p.offset := by
      by_contra hlt
      have hlines := hp.line_mono hstop (by omega)
      omega
    have hisBlank : Text.isBlank c = true :=
      SourceText.isBlank_of_isBlankText hstop.nonneg habove hbelow hlineStart.le_length hblank hc
    rw [hisBlank] at hvisibleChar
    cases hvisibleChar
  refine ⟨hline, ?_⟩
  have hgap : (unit.gapSpan decl comment).start = comment.span.stop := hstop.eq_positionAt.symm
  refine nonempty_blankGap ?_ hlineStart ?_ hcolumn hblank
  · rw [hgap]
    exact hstop
  · rw [hgap]
    exact hsame.trans hline

/-- The replacement of a gap by a line feed closes it. -/
theorem BlankGap.apply_edit {src : SourceText} {gap : Span} (h : BlankGap src gap) :
    (TextEdit.mk gap "\n").apply src.text = h.closed.text := by
  have hsize : src.text.length = src.length := rfl
  have hlength := h.length_text
  rw [TextEdit.apply, h.start_eq.1, h.stop_eq, Text.upTo, Text.fromOffset, Text.bound_natCast,
    Text.bound_natCast, Nat.min_eq_left (by omega), Nat.min_eq_left (by omega), h.drop_text,
    h.text, List.take_left, List.drop_zero]
  show _ = String.ofList (h.before ++ (['\n'] ++ h.after))
  rw [String.ofList_append, String.ofList_append, String.append_assoc]

/-- **The replacement of a blank gap** reattaches the comment. -/
theorem reattaches_of_edits (hread : readTree path text tree = .ok unit)
    (hvisible : unit.AnchorsVisibly tree) (hdecl : decl ∈ unit.declarations)
    (hcomment : decl.detachedDoc = some comment)
    (hblank : Text.isBlankText (unit.textAt (unit.gapSpan decl comment)) = true) {patch : Patch}
    (hedits : patch.edits = [⟨unit.gapSpan decl comment, "\n"⟩]) :
    ∃ patched, unit.Reattaches decl comment patch patched := by
  obtain ⟨hstart, hstop⟩ := isCanonical_of_detachedDoc hread hdecl hcomment
  obtain ⟨-, -, history, htells⟩ := exists_history_of_readTree hread
  obtain ⟨anchor, -, span, -, hending, -⟩ := exists_anchor_of_readTree hread hdecl hcomment
  obtain ⟨hline, ⟨h⟩⟩ := nonempty_gap hread hvisible hdecl hcomment hblank
  have hgap : (unit.gapSpan decl comment).start = comment.span.stop := hstop.eq_positionAt.symm
  have hmoved : (h.closed.moved (unit.gapSpan decl comment) decl.span.start).line =
      comment.span.stop.line + 1 := by
    rw [h.line_moved hstart, hgap, if_neg (by omega), hline]
    omega
  have hending' : (unit.withComments unit.comments).commentEndingOn? comment.span.stop.line =
      some comment := by
    rw [(beq_iff_eq.mp (List.mem_filter.mp (List.mem_of_getLast? hending)).2)]
    exact hending
  refine ⟨h.closed, {
    path := rfl
    edits := hedits
    blank := hblank
    feeds := h.count_textAt_gap
    line := hmoved
    column := h.column_moved hstart (by rw [hgap]; omega)
    applied := ?_
    lines := ?_
    follows := ?_
    leads := ?_ }⟩
  · rw [applyPatches_of_pairwise _ (List.pairwise_singleton _ _), editsFromEnd,
      List.flatMap_singleton, hedits]
    exact congrArg Except.ok h.apply_edit
  · exact hgap ▸ h.losesBlankLine_closed
  · obtain ⟨-, start, -, hoffset, hle⟩ := hstart.exists_lineStart
    have hbelow : decl.span.start.offset - (decl.span.start.column - 1) ≤
        decl.span.start.offset := by
      omega
    exact h.fromOffset_closed hstart hbelow
  · rw [hmoved, CommentedText.leadingComment?, Int.add_sub_cancel,
      h.commentEndingOn?_closed ?_ (Int.le_of_eq (by rw [hgap]))]
    · exact congrArg (Option.map _) hending'
    · exact fun other hother =>
        isCanonical_of_statesSpan (htells.comments other (List.mem_append_right _ hother))

end Gap

/-! ## The request -/

section Requests

variable {unit : SourceUnit} {context : Context} {decl : Declaration} {comment : CommentBlock}
  {remark : Remark} {request : FixRequest}

/-- A remark on a detached comment asks for its gap to be closed. -/
theorem of_mem_declarationRemarks (h : remark ∈ declarationRemarks context decl)
    (hid : remark.ruleId = "DOC004") : remark.span = decl.span ∧ decl.doc = none ∧
      ∃ comment, decl.detachedDoc = some comment ∧
        remark.fix = reattachRequest? context.unit decl comment := by
  have hundocumented : remark ∉ undocumentedRemarks context decl := by
    intro hmem
    rw [ruleId_of_mem_undocumentedRemarks hmem] at hid
    exact absurd hid (by decide)
  unfold declarationRemarks at h
  split at h
  case h_1 doc hdoc =>
    rcases ruleId_of_mem_documentedRemarks h with hother | hother <;>
    · rw [hother] at hid
      exact absurd hid (by decide)
  case h_2 hdoc =>
    split at h
    case h_1 detached hdetached =>
      split at h
      · obtain rfl := List.mem_singleton.mp h
        exact ⟨rfl, hdoc, detached, hdetached, rfl⟩
      · exact absurd h hundocumented
    case h_2 => exact absurd h hundocumented

/-- The gap is closed if it is blank. -/
theorem reattachRequest?_eq_some (h : reattachRequest? unit decl comment = some request) :
    Text.isBlankText (unit.textAt (unit.gapSpan decl comment)) = true ∧
      request = { template := FixTemplate.replace.label, span := unit.gapSpan decl comment
                  replacement := some "\n" } := by
  unfold reattachRequest? at h
  dsimp only at h
  split at h
  case isTrue hblank => exact ⟨hblank, (Option.some.inj h).symm⟩
  case isFalse => cases h

end Requests

end GoConventions
