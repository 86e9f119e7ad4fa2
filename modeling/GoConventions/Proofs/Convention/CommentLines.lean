import GoConventions.Proofs.Convention.Nesting
import GoConventions.Proofs.Source.LineColumns
import GoConventions.Proofs.Tree.Ranges
import Mathlib.Data.Set.Finite.Lemmas

/-!
# Comment lines

A line that holds nothing but comment text has a limit of its own.  Which lines these are is read
off the comments that begin a line, that is, have nothing but blanks before them there: all lines of
such a comment, from its first to its last, are taken for comment lines.

That is not the same.  Behind the end of a comment there may be code, and then a line with code is
taken for a comment line (`codeFollows_iff`).  And a comment that begins behind code may go on below
it, on lines that are not taken for comment lines (`carriedOver_iff`).  Nothing else goes wrong: a
line is told correctly exactly when it is none of these, and it is measured by the limit of what it
is taken for (`measuresLines_of_readTree`).

## Main definitions

* `SourceUnit.HasCodeAt`: a character that is not blank stands on a line outside the comments.
* `SourceUnit.HoldsCommentOnly`: a line holds nothing but comment text.
* `SourceUnit.CodeFollows`, `SourceUnit.CarriedOver`: the lines that are mistaken.
* `Context.MeasuresLines`: which lines are taken for comment lines, and how all are measured.

## Main results

* `isCommentLine_lineComments_iff`: the lines that are taken for comment lines.
* `measuresLines_of_readTree`: lines are measured so, in every model that has been read.
* `not_forall_isCommentLine_iff`: some lines are mistaken.
-/

namespace GoConventions

/-! ## Code and comments on a line -/

/-- A span touches a line. -/
def Span.Touches (span : Span) (line : Int) : Prop :=
  span.start.line ≤ line ∧ line ≤ span.stop.line

namespace SourceUnit

variable (unit : SourceUnit)

/-- A place of the text belongs to a comment. -/
def InComment (n : Nat) : Prop :=
  ∃ comment ∈ unit.comments, comment.span.start.offset ≤ n ∧ n < comment.span.stop.offset

instance (n : Nat) : Decidable (unit.InComment n) :=
  inferInstanceAs (Decidable (∃ comment ∈ unit.comments, _))

/-- At a place of a line, outside the comments, is a character that is not blank. -/
structure HasCodeAt (line : Int) (n : Nat) : Prop where
  line_eq : (unit.positionAt n).line = line
  visible : ∃ c ∈ unit.text.toList[n]?, Text.isBlank c = false
  outside : ¬ unit.InComment n

/-- A line holds nothing but comment text: a comment touches it, and it has no code. -/
structure HoldsCommentOnly (line : Int) : Prop where
  touched : ∃ comment ∈ unit.comments, comment.span.Touches line
  no_code : ∀ n, ¬ unit.HasCodeAt line n

/-- Nothing but blanks stands before a comment on its first line. -/
def BeginsLine (comment : CommentBlock) : Prop :=
  ∀ (n : Nat) (c : Char), unit.text.toList[n]? = some c → (n : Int) < comment.span.start.offset →
    (unit.positionAt n).line = comment.span.start.line → Text.isBlank c = true

/-- Code follows a comment that began a line: behind its end, on its last line. -/
def CodeFollows (line : Int) : Prop :=
  ∃ comment ∈ unit.comments, unit.BeginsLine comment ∧ comment.span.start.line ≤ line ∧
    comment.span.stop.line = line ∧
      ∃ n : Nat, comment.span.stop.offset ≤ n ∧ unit.HasCodeAt line n

/-- Nothing but comments that are carried over from behind something else are on a line: one comes
from a line above, and none of them began a line. -/
structure CarriedOver (line : Int) : Prop where
  no_code : ∀ n, ¬ unit.HasCodeAt line n
  reached : ∃ comment ∈ unit.comments, comment.span.start.line < line ∧
    line ≤ comment.span.stop.line
  behind : ∀ comment ∈ unit.comments, comment.span.Touches line → ¬ unit.BeginsLine comment

/-- The ends of the comments are positions of the text. -/
def HasCommentPositions : Prop :=
  ∀ comment ∈ unit.comments, unit.IsCanonical comment.span.start ∧
    unit.IsCanonical comment.span.stop

variable {unit} {line : Int} {n : Nat}

theorem hasCommentPositions_of_readTree {path text : String} {tree : Members}
    (h : readTree path text tree = .ok unit) : unit.HasCommentPositions := by
  obtain ⟨-, -, history, htells⟩ := exists_history_of_readTree h
  intro comment hcomment
  have hmem : comment.span ∈ unit.nodeSpans :=
    span_mem_nodeSpans_of_comment (List.mem_append_right _ hcomment)
  exact isCanonical_of_mem_spans htells (List.mem_append_left _ hmem)

theorem HasCodeAt.isCanonical (h : unit.HasCodeAt line n) :
    unit.IsCanonical (unit.positionAt n) := by
  obtain ⟨c, hc, -⟩ := h.visible
  obtain ⟨hlt, -⟩ := List.getElem?_eq_some_iff.mp (Option.mem_def.mp hc)
  rw [String.length_toList] at hlt
  exact SourceText.isCanonical_positionAt_natCast (Nat.le_of_lt hlt)

/-! ## The lines that are taken for comment lines -/

section CommentLines

variable (hpositions : unit.HasCommentPositions)

include hpositions

/-- **A line is taken for a comment line** if a comment touches it that began a line. -/
theorem isCommentLine_lineComments_iff : isCommentLine (lineComments unit) line = true ↔
    ∃ comment ∈ unit.comments, unit.BeginsLine comment ∧ comment.span.Touches line := by
  have hbegins : ∀ comment ∈ unit.comments,
      (unit.standsAlone comment = true ↔ unit.BeginsLine comment) := fun comment hcomment =>
    SourceText.isBlankText_lineBefore_iff (hpositions comment hcomment).1
  simp only [isCommentLine, lineComments, SourceText.standalone, List.any_eq_true, List.mem_filter,
    Bool.and_eq_true, decide_eq_true_eq]
  constructor
  · rintro ⟨comment, ⟨hcomment, halone⟩, htouches⟩
    exact ⟨comment, hcomment, (hbegins comment hcomment).mp halone, htouches⟩
  · rintro ⟨comment, hcomment, halone, htouches⟩
    exact ⟨comment, ⟨hcomment, (hbegins comment hcomment).mpr halone⟩, htouches⟩

/-- **Lines with code are taken for comment lines** where code follows a comment. -/
theorem codeFollows_iff : unit.CodeFollows line ↔
    isCommentLine (lineComments unit) line = true ∧ ∃ n, unit.HasCodeAt line n := by
  rw [isCommentLine_lineComments_iff hpositions]
  constructor
  · rintro ⟨comment, hcomment, hbegins, hstart, rfl, n, -, hcode⟩
    exact ⟨⟨comment, hcomment, hbegins, hstart, Int.le_refl _⟩, n, hcode⟩
  · rintro ⟨⟨comment, hcomment, hbegins, hstart, hstop⟩, n, hcode⟩
    obtain ⟨hfirst, hlast⟩ := hpositions comment hcomment
    have hplace : (unit.positionAt n).offset = n := rfl
    -- Code before the comment would be on its first line, which the comment begins.
    have hbehind : comment.span.start.offset ≤ n := by
      by_contra hbefore
      have hlines := hcode.isCanonical.line_mono hfirst (by omega)
      rw [hcode.line_eq] at hlines
      obtain ⟨c, hc, hvisible⟩ := hcode.visible
      have hblank := hbegins n c hc (by omega)
        (hcode.line_eq.trans (Int.le_antisymm hlines hstart))
      rw [hblank] at hvisible
      cases hvisible
    have hend : comment.span.stop.offset ≤ n := by
      by_contra hinside
      exact hcode.outside ⟨comment, hcomment, hbehind, by omega⟩
    have hlines := hlast.line_mono hcode.isCanonical (by omega)
    rw [hcode.line_eq] at hlines
    exact ⟨comment, hcomment, hbegins, hstart, Int.le_antisymm hlines hstop, n, hend, hcode⟩

/-- The first comment on a line begins it, or comes from a line above, if the line has no code. -/
theorem exists_of_holdsCommentOnly (h : unit.HoldsCommentOnly line) :
    ∃ comment ∈ unit.comments, comment.span.Touches line ∧
      (unit.BeginsLine comment ∨ comment.span.start.line < line) := by
  have hfinite : {comment | comment ∈ unit.comments ∧ comment.span.Touches line}.Finite :=
    unit.comments.finite_toSet.subset fun comment hcomment => hcomment.1
  -- Any comment that begins first on the line will do; that there is only one is not needed.
  obtain ⟨first, ⟨hfirst, htouches⟩, hleast⟩ :=
    Set.exists_min_image _ (fun comment => comment.span.start.offset) hfinite h.touched
  refine ⟨first, hfirst, htouches, ?_⟩
  by_contra! hnot
  obtain ⟨hbehind, hline⟩ := hnot
  have hstart : first.span.start.line = line := Int.le_antisymm htouches.1 hline
  refine hbehind fun n c hc hbefore hsame => ?_
  by_contra hvisible
  -- What stands before the comment is in another one, which begins before the first.
  have hinside : unit.InComment n := by
    by_contra houtside
    have hblank := Bool.eq_false_of_not_eq_true hvisible
    exact h.no_code n ⟨hsame.trans hstart, ⟨c, hc, hblank⟩, houtside⟩
  obtain ⟨other, hother, hfrom, hto⟩ := hinside
  obtain ⟨hotherStart, hotherStop⟩ := hpositions other hother
  have hcanonical : unit.IsCanonical (unit.positionAt n) := by
    have hle := hotherStop.le_length
    exact SourceText.isCanonical_positionAt_natCast (by omega)
  have htouchesOther : other.span.Touches line := by
    have hbelow := hotherStart.line_mono hcanonical hfrom
    have habove := hcanonical.line_mono hotherStop (Int.le_of_lt hto)
    rw [hsame, hstart] at hbelow habove
    exact ⟨hbelow, habove⟩
  have hle := hleast other ⟨hother, htouchesOther⟩
  omega

/-- **Lines without code are not taken for comment lines** where comments are carried over. -/
theorem carriedOver_iff : unit.CarriedOver line ↔
    unit.HoldsCommentOnly line ∧ ¬ isCommentLine (lineComments unit) line = true := by
  rw [isCommentLine_lineComments_iff hpositions]
  constructor
  · rintro ⟨hcode, ⟨comment, hcomment, hstart, hstop⟩, hbehind⟩
    refine ⟨⟨⟨comment, hcomment, Int.le_of_lt hstart, hstop⟩, hcode⟩, ?_⟩
    rintro ⟨other, hother, hbegins, htouches⟩
    exact hbehind other hother htouches hbegins
  · rintro ⟨honly, hnone⟩
    have hbehind : ∀ comment ∈ unit.comments, comment.span.Touches line →
        ¬ unit.BeginsLine comment := fun comment hcomment htouches hbegins =>
      hnone ⟨comment, hcomment, hbegins, htouches⟩
    obtain ⟨first, hfirst, htouches, hbegins | habove⟩ :=
      exists_of_holdsCommentOnly hpositions honly
    · exact absurd hbegins (hbehind first hfirst htouches)
    · exact ⟨honly.no_code, ⟨first, hfirst, habove, htouches.2⟩, hbehind⟩

/-- **Comment lines are told correctly** where neither of the two is the case. -/
theorem isCommentLine_exact_iff :
    (isCommentLine (lineComments unit) line = true ↔ unit.HoldsCommentOnly line) ↔
      ¬ unit.CodeFollows line ∧ ¬ unit.CarriedOver line := by
  rw [codeFollows_iff hpositions, carriedOver_iff hpositions]
  constructor
  · intro hexact
    refine ⟨fun ⟨htakes, n, hcode⟩ => ?_, fun ⟨honly, hnot⟩ => hnot (hexact.mpr honly)⟩
    exact (hexact.mp htakes).no_code n hcode
  · rintro ⟨hfollows, hcarried⟩
    constructor
    · intro htakes
      obtain ⟨comment, hcomment, -, htouches⟩ :=
        (isCommentLine_lineComments_iff hpositions).mp htakes
      exact ⟨⟨comment, hcomment, htouches⟩, fun n hcode => hfollows ⟨htakes, n, hcode⟩⟩
    · intro honly
      by_contra hnot
      exact hcarried ⟨honly, hnot⟩

end CommentLines

end SourceUnit

/-! ## How lines are measured -/

/-- The rule on the length of comment lines, or of all others. -/
def lengthRule (ofComment : Bool) : String :=
  if ofComment then "FMT002" else "FMT001"

namespace Context

variable (context : Context)

/-- The limit for comment lines, or for all others. -/
def lengthLimit (ofComment : Bool) : Int :=
  if ofComment then context.settings.maxCommentLineLength else context.settings.maxLineLength

/-- A line is taken for a comment line. -/
def takesForComment (line : Int) : Bool :=
  isCommentLine (lineComments context.unit) line

/-- A line that can be broken is wider than the limit, and the rule on that is enabled. -/
def exceeds (ofComment : Bool) (line : String) : Bool :=
  !unbreakableMarks.any (Text.contains line) &&
    (context.lengthLimit ofComment < displayWidth line && context.enabled (lengthRule ofComment))

/-- The spans of the lines that are taken for comment lines, or of all others, and exceed their
limit. -/
def wideLines (ofComment : Bool) : List Span :=
  ((context.unit.lines.zip context.unit.lineStarts).zipIdx.filter fun ((line, _), index) =>
    context.takesForComment (index + 1) == ofComment && context.exceeds ofComment line).map
      fun ((line, start), index) => SourceText.lineSpan (index + 1) start line.toList.length

/-- What the lines of a file are taken for, and the findings on their lengths. -/
structure MeasuresLines (findings : List Finding) : Prop where
  /-- A line with code is taken for a comment line where code follows a comment. -/
  takes_code_iff : ∀ line, (∃ n, context.unit.HasCodeAt line n) →
    (context.takesForComment line = true ↔ context.unit.CodeFollows line)
  /-- A line of nothing but comment text is taken for one unless it is carried over. -/
  takes_comment_iff : ∀ line, context.unit.HoldsCommentOnly line →
    (context.takesForComment line = true ↔ ¬ context.unit.CarriedOver line)
  /-- So the lines that are taken for comment lines are those of nothing but comment text, with
  these two exceptions. -/
  exact_iff : ∀ line,
    (context.takesForComment line = true ↔ context.unit.HoldsCommentOnly line) ↔
      ¬ context.unit.CodeFollows line ∧ ¬ context.unit.CarriedOver line
  /-- A line is measured by the limit of what it is taken for. -/
  found : ∀ ofComment, (findings.filter (·.ruleId == lengthRule ofComment)).map (·.span) =
    context.wideLines ofComment

variable {context}

theorem lengthRule_beq (ofComment other : Bool) :
    (lengthRule ofComment == lengthRule other) = (ofComment == other) := by
  revert ofComment other
  decide

/-- The remark on a line is under the rule for what the line is taken for. -/
theorem exists_lineRemark?_eq (context : Context) (number start : Nat) (line : String) :
    ∃ message, lineRemark? context (lineComments context.unit) number start line =
      if context.exceeds (context.takesForComment number) line then
        some {
          ruleId := lengthRule (context.takesForComment number)
          span := SourceText.lineSpan number start line.toList.length, message }
      else none := by
  have htakes : isCommentLine (lineComments context.unit) number =
    context.takesForComment number := rfl
  unfold lineRemark? exceeds
  rw [htakes]
  cases unbreakableMarks.any (Text.contains line) with
  | true => exact ⟨"", rfl⟩
  | false => cases context.takesForComment number <;> exact ⟨_, rfl⟩

theorem map_span_filter_lineRemark? (ofComment : Bool) (number start : Nat) (line : String) :
    ((lineRemark? context (lineComments context.unit) number start line).filter
      (·.ruleId == lengthRule ofComment)).map (·.span) =
    if context.takesForComment number == ofComment && context.exceeds ofComment line then
      some (SourceText.lineSpan number start line.toList.length) else none := by
  obtain ⟨message, hremark⟩ := exists_lineRemark?_eq context number start line
  rw [hremark]
  by_cases htakes : context.takesForComment number = ofComment
  · subst htakes
    cases context.exceeds (context.takesForComment number) line <;> simp
  · have hother := lengthRule_beq (context.takesForComment number) ofComment
    -- The remark, if there is one, is under the other of the two rules.
    rw [beq_eq_false_iff_ne.mpr htakes] at hother ⊢
    cases context.exceeds (context.takesForComment number) line <;>
      simp [Option.filter_some, hother]

/-- **The remarks on the lengths of lines** are on the lines that exceed the limit of what they are
taken for. -/
theorem map_span_filter_layoutRemarks (context : Context) (ofComment : Bool) :
    ((layoutRemarks context).filter (·.ruleId == lengthRule ofComment)).map (·.span) =
      context.wideLines ofComment := by
  have himports : (context.whenEnabled "FMT003" (spreadImportRemarks context.unit)).filter
      (·.ruleId == lengthRule ofComment) = [] :=
    filter_whenEnabled_of_ne (by cases ofComment <;> decide) allMeet_spreadImportRemarks
  rw [layoutRemarks, List.filter_append, himports, List.append_nil, List.filter_filterMap,
    List.map_filterMap, wideLines, ← List.filterMap_eq_map, List.filterMap_filter]
  refine List.filterMap_congr fun ((line, start), index) _ => ?_
  exact map_span_filter_lineRemark? ofComment (index + 1) start line

end Context

/-- **Lines are taken for comment lines, and measured as such**, with the exceptions that are told:
code behind a comment that began a line, and comments that are carried over to a line. -/
theorem measuresLines_of_readTree {context : Context} {path text : String} {tree : Members}
    (h : readTree path text tree = .ok context.unit) :
    ∃ findings, layoutEvaluator.evaluate context = .ok findings ∧
      context.MeasuresLines findings := by
  have hpositions := SourceUnit.hasCommentPositions_of_readTree h
  obtain ⟨findings, hfindings⟩ : ∃ findings,
      context.findings (layoutRemarks context) = .ok findings :=
    acceptsAll_layoutRemarks.exists_findings
  refine ⟨findings, hfindings, ?_, ?_, ?_, fun ofComment => ?_⟩
  · intro line hcode
    rw [SourceUnit.codeFollows_iff hpositions]
    exact ⟨fun htakes => ⟨htakes, hcode⟩, fun h => h.1⟩
  · intro line honly
    rw [SourceUnit.carriedOver_iff hpositions, not_and, not_not]
    exact ⟨fun htakes _ => htakes, fun h => h honly⟩
  · exact fun line => SourceUnit.isCommentLine_exact_iff hpositions
  · rw [map_span_filter_findings hfindings, Context.map_span_filter_layoutRemarks]

/-! ## Comments around a constant -/

/-- A constant between two comments, the second of which is carried over to the next line. -/
def notedSource : SourceText :=
  ⟨"p.go", "package p\n\n/* one */ const a = 1 /* two\nthree */\n// four\n"⟩

def notedNode (kind : String) (start stop : Int) (parts : Members) : Members :=
  spannedNode kind (notedSource.spanOf start stop) parts

def notedComment (start stop : Int) : Members :=
  notedNode "CommentGroup" start stop [
    ("list", .arr [.obj (notedNode "Comment" start stop [
      ("text", .str (notedSource.textAt (notedSource.spanOf start stop)))])])]

def notedTree : Members :=
  notedNode "File" 0 57 [
    ("package", .obj (notedNode "Ident" 8 9 [("name", .str "p")])),
    ("decls", .arr [.obj (notedNode "GenDecl" 21 32 [
      ("tok", .str "const"),
      ("specs", .arr [.obj (notedNode "ValueSpec" 27 32 [
        ("names", .arr [.obj (notedNode "Ident" 27 28 [("name", .str "a")])]),
        ("values", .arr [.obj (notedNode "BasicLit" 31 32 [
          ("literal", .str "INT"), ("value", .str "1")])])])])])]),
    ("comments", .arr [.obj (notedComment 11 20), .obj (notedComment 33 48),
      .obj (notedComment 49 56)])]

/-- The line of the constant is taken for a comment line and is too wide for one; the line below it
is not taken for one. -/
theorem measuresLines_notedTree : ∃ (context : Context) (findings : List Finding),
    readTree notedSource.path notedSource.text notedTree = .ok context.unit ∧
      context.settings.maxCommentLineLength = 20 ∧
      layoutEvaluator.evaluate context = .ok findings ∧ context.MeasuresLines findings ∧
      [1, 2, 3, 4, 5].filter context.takesForComment = [3, 5] ∧
      (findings.filter (·.ruleId == "FMT002")).map (·.span.start.line) = [3] := by
  have htaken : ((readTree notedSource.path notedSource.text notedTree).toOption.map fun unit =>
      let context : Context :=
        ⟨unit, packagedRegistry.toRuleSet, { maxCommentLineLength := 20 }⟩
      ([1, 2, 3, 4, 5].filter context.takesForComment,
        (context.wideLines true).map (·.start.line))) = some ([3, 5], [3]) := by decide +kernel
  obtain ⟨unit, hunit, hfacts⟩ := Option.map_eq_some_iff.mp htaken
  obtain ⟨htaken, hwide⟩ := Prod.mk.inj hfacts
  let context : Context := ⟨unit, packagedRegistry.toRuleSet, { maxCommentLineLength := 20 }⟩
  have hread : readTree notedSource.path notedSource.text notedTree = .ok context.unit :=
    toOption_eq_some.mp hunit
  obtain ⟨findings, hfindings, hmeasures⟩ := measuresLines_of_readTree hread
  refine ⟨context, findings, hread, rfl, hfindings, hmeasures, htaken, ?_⟩
  have hfound := congrArg (List.map fun span => span.start.line) (hmeasures.found true)
  rw [List.map_map] at hfound
  exact hfound.trans hwide

/-- **Some lines with code are taken for comment lines.** -/
theorem not_forall_isCommentLine_iff :
    ¬ ∀ (path text : String) (tree : Members) (unit : SourceUnit),
      readTree path text tree = .ok unit → ∀ line,
        (isCommentLine (lineComments unit) line = true ↔ unit.HoldsCommentOnly line) := by
  intro hall
  have hconst : ((readTree notedSource.path notedSource.text notedTree).toOption.map fun unit =>
      decide (isCommentLine (lineComments unit) 3 = true ∧ (unit.positionAt 21).line = 3 ∧
        unit.text.toList[21]? = some 'c' ∧ ¬ unit.InComment 21)) = some true := by decide +kernel
  obtain ⟨unit, hunit, hfacts⟩ := Option.map_eq_some_iff.mp hconst
  obtain ⟨htakes, hline, hc, houtside⟩ := of_decide_eq_true hfacts
  have honly := (hall _ _ _ _ (toOption_eq_some.mp hunit) 3).mp htakes
  exact honly.no_code 21 ⟨hline, ⟨'c', hc, by decide⟩, houtside⟩

end GoConventions
