import GoConventions.Convention.Documentation
import GoConventions.Proofs.Fix.Application
import GoConventions.Proofs.Fix.Renaming
import GoConventions.Proofs.Source.Lines
import GoConventions.Proofs.Source.Trimming

/-!
# Comments that are completed by a period

A comment that does not end like a sentence is given a period.  Whether it ends so is read off its
text, where all lines are joined and trimmed; the period is put into the source, behind the last
line and in front of spaces and tabs there.

The two agree when the last line says something and does not end in another blank
(`commentText_withPeriod_eq_iff`).  Otherwise the period follows a blank: that of an empty line
comment stands on a line of its own.

## Main definitions

* `lineContent`, `takesPeriod`: what a line comment says, and whether it can take a period.
* `withPeriod`: a line comment with a period.
* `CommentBlock.lengthened`: a comment as it stands in a patched text.

## Main results

* `commentText_withPeriod_eq_iff`: when a comment with a period has its text and a period.
* `lengthened_of_edits`: the insertion of the period gives the last line one.
-/

namespace GoConventions

open Text (EndsOutside isBlank trimChars dropEndWhile)

/-! ## Line comments -/

/-- The characters in front of which a period is put. -/
def isSpacing (c : Char) : Bool :=
  c == ' ' || c == '\t'

/-- What a line comment says: the rest behind its slashes, without spaces and tabs at its end. -/
def lineContent (line : String) : List Char :=
  dropEndWhile isSpacing (line.toList.drop 2)

/-- A line comment can take a period: it says something, and does not end in another blank. -/
def takesPeriod (line : String) : Bool :=
  (lineContent line).getLast?.any (!isBlank ·)

/-- A line comment with a period behind what it says. -/
def withPeriod (line : String) : String :=
  String.ofList ('/' :: '/' :: lineContent line ++
    '.' :: (line.toList.drop 2).drop (lineContent line).length)

section Lines

variable {line : String}

theorem isBlank_of_isSpacing {c : Char} (h : isSpacing c = true) : isBlank c = true := by
  rw [isSpacing, Bool.or_eq_true, beq_iff_eq, beq_iff_eq] at h
  rcases h with rfl | rfl <;> decide

/-- **A line comment, taken apart**: its slashes, what it says, and spaces and tabs. -/
theorem exists_eq_lineContent_append (hline : Text.startsWith line "//" = true) :
    ∃ spacing, line.toList = '/' :: '/' :: lineContent line ++ spacing ∧
      (withPeriod line).toList = '/' :: '/' :: lineContent line ++ '.' :: spacing ∧
      ∀ c ∈ spacing, isSpacing c = true := by
  obtain ⟨spacing, hrest, hspacing⟩ :=
    Text.exists_eq_dropEndWhile_append isSpacing (line.toList.drop 2)
  obtain ⟨rest, hchars⟩ := List.isPrefixOf_iff_prefix.mp hline
  have hdrop : line.toList.drop 2 = rest := by rw [← hchars]; rfl
  refine ⟨spacing, ?_, ?_, hspacing⟩
  · rw [← hchars, ← hdrop]
    exact congrArg (['/', '/'] ++ ·) hrest
  · rw [withPeriod, String.toList_ofList]
    conv_lhs => rw [hrest]
    rw [← lineContent, List.drop_left]

theorem takesPeriod_iff : takesPeriod line = true ↔
    lineContent line ≠ [] ∧ EndsOutside isBlank (lineContent line) := by
  rw [takesPeriod, Option.any_eq_true]
  constructor
  · rintro ⟨c, hc, hvisible⟩
    constructor
    · intro hnil
      rw [hnil] at hc
      cases hc
    · intro d hd
      obtain rfl := Option.some.inj (hc.symm.trans hd)
      simpa using hvisible
  · rintro ⟨hne, hends⟩
    have hlast := List.getLast?_eq_some_getLast hne
    exact ⟨_, hlast, by rw [hends _ hlast]; rfl⟩

end Lines

/-! ## The text of a comment by its last line -/

/-- The characters of the text of comments in front of a further line, before the text is
trimmed. -/
def charsAbove (raws : List String) : List Char :=
  (raws.flatMap commentLines).flatMap fun line => line.toList ++ ['\n']

/-- What stands above a line ends in a line feed. -/
theorem charsAbove_eq_nil {raws : List String} (h : EndsOutside isBlank (charsAbove raws)) :
    charsAbove raws = [] := by
  rw [charsAbove] at h ⊢
  rcases List.eq_nil_or_concat (raws.flatMap commentLines) with hnil | ⟨before, last, hlast⟩
  · rw [hnil, List.flatMap_nil]
  · rw [hlast, List.concat_eq_append, List.flatMap_append, List.flatMap_singleton,
      ← List.append_assoc] at h
    exact absurd (h '\n' List.getLast?_concat) (by decide)

theorem toList_join_concat (parts : List String) (last : String) :
    (Text.join "\n" (parts ++ [last])).toList =
      (parts.flatMap fun line => line.toList ++ ['\n']) ++ last.toList := by
  induction parts with
  | nil => rw [List.nil_append, Text.join, String.intercalate_singleton]; rfl
  | cons part parts ih =>
    obtain ⟨next, rest, hrest⟩ : ∃ next rest, parts ++ [last] = next :: rest :=
      List.exists_cons_of_ne_nil (by simp)
    rw [Text.join] at ih ⊢
    rw [List.cons_append, hrest, String.intercalate_cons_cons, ← hrest, String.toList_append,
      String.toList_append, ih, List.flatMap_cons, ← List.append_assoc]
    rfl

section Text

variable {raws : List String} {line : String}

/-- The text of comments of which the last one is a line comment. -/
theorem toList_commentText_concat (hline : Text.startsWith line "//" = true) :
    (commentText (raws ++ [line])).toList =
      trimChars (charsAbove raws ++ trimChars (line.toList.drop 2)) := by
  have hlast : commentLines line = [Text.trim (Text.dropFirst 2 line)] := by
    rw [commentLines, if_pos hline]
  rw [commentText, List.flatMap_append, List.flatMap_singleton, hlast, Text.trim,
    String.toList_ofList, toList_join_concat, charsAbove, Text.trim, String.toList_ofList,
    Text.dropFirst, String.toList_ofList]

/-- Without a period, the text ends as what the last line says. -/
theorem toList_commentText (hline : Text.startsWith line "//" = true) :
    (commentText (raws ++ [line])).toList =
      trimChars (charsAbove raws ++ (lineContent line).dropWhile isBlank) := by
  obtain ⟨spacing, hchars, -, hspacing⟩ := exists_eq_lineContent_append hline
  rw [toList_commentText_concat hline, hchars]
  show trimChars (charsAbove raws ++ trimChars (lineContent line ++ spacing)) = _
  rw [Text.trimChars_append_of_all fun c hc => isBlank_of_isSpacing (hspacing c hc)]
  exact Text.trimChars_append_dropEndWhile

/-- **With a period**, the text keeps what stands in front of it, blanks included. -/
theorem toList_commentText_withPeriod (hline : Text.startsWith line "//" = true) :
    (commentText (raws ++ [withPeriod line])).toList =
      (charsAbove raws ++ (lineContent line).dropWhile isBlank).dropWhile isBlank ++ ['.'] := by
  obtain ⟨spacing, -, hchars, hspacing⟩ := exists_eq_lineContent_append hline
  have hstarts : Text.startsWith (withPeriod line) "//" = true := by
    rw [Text.startsWith, hchars]
    rfl
  rw [toList_commentText_concat hstarts, hchars]
  show trimChars (charsAbove raws ++ trimChars (lineContent line ++ (['.'] ++ spacing))) = _
  rw [← List.append_assoc,
    Text.trimChars_append_of_all fun c hc => isBlank_of_isSpacing (hspacing c hc),
    Text.trimChars_concat (by decide), ← List.append_assoc, Text.trimChars_concat (by decide)]

/-- **A comment with a period has its text and a period** exactly when its last line can take
one. -/
theorem commentText_withPeriod_eq_iff (hline : Text.startsWith line "//" = true)
    (htext : commentText (raws ++ [line]) ≠ "") :
    commentText (raws ++ [withPeriod line]) = commentText (raws ++ [line]) ++ "." ↔
      takesPeriod line = true := by
  have hne : trimChars (charsAbove raws ++ (lineContent line).dropWhile isBlank) ≠ [] := by
    rw [← toList_commentText hline]
    exact mt String.toList_eq_nil_iff.mp htext
  have hperiod : (".").toList = ['.'] := rfl
  rw [← String.toList_inj, String.toList_append, toList_commentText hline,
    toList_commentText_withPeriod hline, hperiod, List.append_left_inj, eq_comm,
    Text.trimChars_eq_dropWhile_iff hne, takesPeriod_iff]
  by_cases hcontent : (lineContent line).dropWhile isBlank = []
  · -- The last line is blank, and what stands above it ends in a line feed.
    rw [hcontent, List.append_nil] at hne ⊢
    refine iff_of_false (fun hends => hne (by rw [charsAbove_eq_nil hends]; rfl)) ?_
    rintro ⟨hsome, hends⟩
    have hlast := List.getLast?_eq_some_getLast hsome
    have hblank := List.dropWhile_eq_nil_iff.mp hcontent _ (List.mem_of_getLast? hlast)
    rw [hends _ hlast] at hblank
    cases hblank
  · -- The text ends as the last line does.
    rw [Text.endsOutside_append_iff hcontent, Text.endsOutside_dropWhile_iff hcontent]
    exact (and_iff_right fun hnil => hcontent (by rw [hnil]; rfl)).symm

end Text

/-! ## The remark -/

section Remarks

variable {unit : SourceUnit} {comment : CommentBlock} {remark : Remark}

/-- A comment that is remarked on has a text, ends in a line comment, and is to have a period. -/
theorem sentenceRemark?_eq_some (h : sentenceRemark? unit comment = some remark) :
    comment.text ≠ "" ∧ remark.span = comment.span ∧
      remark.fix = some (periodRequest unit comment) ∧
      ∃ raws line, comment.lines = raws ++ [line] ∧ Text.startsWith line "//" = true := by
  unfold sentenceRemark? at h
  dsimp only at h
  split at h
  case isTrue => cases h
  case isFalse hsaid =>
    split at h
    case isTrue => cases h
    case isFalse =>
      split at h
      case isFalse => cases h
      case isTrue hprose =>
        obtain rfl := Option.some.inj h
        rw [isProseLine, Bool.and_eq_true, Bool.and_eq_true] at hprose
        exact ⟨fun hempty => hsaid (by rw [hempty]; rfl), rfl, rfl, _, _,
          (List.dropLast_append_getLast (CommentBlock.lines_ne_nil hsaid)).symm, hprose.1.1⟩

/-- Nothing is remarked on a comment that ends in a period. -/
theorem sentenceRemark?_eq_none {chars : List Char} (h : comment.text.toList = chars ++ ['.']) :
    sentenceRemark? unit comment = none := by
  have htrim : Text.trimEnd comment.text = comment.text := by
    rw [Text.trimEnd, h, Text.dropEndWhile_eq_self_iff.mpr (Text.endsOutside_concat (by decide)),
      ← h, String.ofList_toList]
  have hends : endsSentence comment.text = true := by
    have hperiod : Text.endsWith comment.text "." = true := by
      rw [Text.endsWith, h]
      exact List.isSuffixOf_iff_suffix.mpr (List.suffix_append _ _)
    rw [endsSentence, List.any_cons, hperiod, Bool.true_or]
  have hsaid : endsSentence (Text.trimEnd comment.text) = true := htrim.symm ▸ hends
  simp [sentenceRemark?, hsaid]

end Remarks

/-! ## The insertion -/

/-- A comment in a text in which its last line is one character longer: this line is read off the
text. -/
def CommentBlock.lengthened (comment : CommentBlock) (patched : SourceText) : CommentBlock where
  span := ⟨comment.span.start, patched.positionAt (comment.span.stop.offset + 1)⟩
  lines := comment.lines.dropLast ++ comment.lines.getLast?.toList.map fun line =>
    Text.slice (comment.span.stop.offset - line.length) (comment.span.stop.offset + 1) patched.text

section Insertion

variable {unit : SourceUnit} {comment : CommentBlock} {line : String}

/-- The source around the last line of a comment. -/
theorem exists_eq_append_line {src : SourceText} {span : Span} (hstop : 0 ≤ span.stop.offset)
    (hlength : span.stop.offset ≤ src.length)
    (hends : Text.endsWith (src.textAt span) line = true) :
    ∃ before after, src.text.toList = before ++ line.toList ++ after ∧
      span.stop.offset = (before.length + line.toList.length : Nat) := by
  obtain ⟨stop, hstop⟩ := Int.eq_ofNat_of_zero_le hstop
  have hchars : stop ≤ src.text.toList.length := by
    rw [String.length_toList]
    show stop ≤ src.length
    omega
  have hsuffix : line.toList <:+ src.text.toList.take stop := by
    refine (List.isSuffixOf_iff_suffix.mp hends).trans ?_
    rw [SourceText.textAt, Text.slice, String.toList_ofList, Text.sliceList, hstop,
      Text.bound_natCast, Nat.min_eq_left hchars]
    exact List.drop_suffix _ _
  obtain ⟨before, hbefore⟩ := hsuffix
  refine ⟨before, src.text.toList.drop stop, ?_, ?_⟩
  · rw [hbefore, List.take_append_drop]
  · rw [hstop, ← List.length_append, hbefore, List.length_take, Nat.min_eq_left hchars]

theorem endsOutside_slashes (line : String) :
    EndsOutside isSpacing ('/' :: '/' :: lineContent line) := by
  by_cases hnil : lineContent line = []
  · rw [hnil]
    exact Text.endsOutside_concat (s := ['/']) (by decide)
  · exact (Text.endsOutside_append_iff (s := ['/', '/']) hnil).mpr Text.endsOutside_dropEndWhile

/-- A period is put in front of the spaces and tabs behind the last line. -/
theorem span_periodRequest
    (hends : Text.endsWith (unit.textAt comment.span) line = true) {spacing : List Char}
    (hchars : line.toList = '/' :: '/' :: lineContent line ++ spacing)
    (hspacing : ∀ c ∈ spacing, isSpacing c = true) :
    (periodRequest unit comment).span = unit.spanOf (comment.span.stop.offset - spacing.length)
      (comment.span.stop.offset - spacing.length) := by
  obtain ⟨above, habove⟩ := List.isSuffixOf_iff_suffix.mp hends
  have hwhole : (unit.textAt comment.span).toList =
      (above ++ '/' :: '/' :: lineContent line) ++ spacing := by
    rw [← habove, hchars, List.append_assoc]
  have houtside : EndsOutside isSpacing (above ++ '/' :: '/' :: lineContent line) :=
    (Text.endsOutside_append_iff (List.cons_ne_nil _ _)).mpr (endsOutside_slashes line)
  have hblanks : ((unit.textAt comment.span).toList.reverse.takeWhile fun c =>
      c == ' ' || c == '\t').length = spacing.length := by
    rw [hwhole, ← @List.length_reverse _ spacing,
      ← Text.takeWhile_reverse_append houtside hspacing]
    rfl
  rw [periodRequest, hblanks]

/-- **The insertion of the period** gives the last line one, and leaves all others alone. -/
theorem lines_lengthened {raws : List String} (hlines : comment.lines = raws ++ [line])
    (hline : Text.startsWith line "//" = true) (hstop : 0 ≤ comment.span.stop.offset)
    (hlength : comment.span.stop.offset ≤ unit.length)
    (hends : Text.endsWith (unit.textAt comment.span) line = true) {patched : SourceText}
    (hpatched : patched.text =
      (TextEdit.mk (periodRequest unit comment).span ".").apply unit.text) :
    (comment.lengthened patched).lines = raws ++ [withPeriod line] := by
  obtain ⟨spacing, hchars, hperiod, hspacing⟩ := exists_eq_lineContent_append hline
  obtain ⟨before, after, htext, hoffset⟩ := exists_eq_append_line hstop hlength hends
  -- The text is cut where the last line begins, behind what it says, and where it ends.
  generalize hsaid : '/' :: '/' :: lineContent line = said at hchars hperiod
  have hplace : comment.span.stop.offset - spacing.length = (before ++ said).length := by
    rw [hoffset, hchars, List.length_append, List.length_append]
    omega
  have hcut : patched.text.toList = before ++ (withPeriod line).toList ++ after := by
    rw [hpatched, span_periodRequest hends (hsaid ▸ hchars) hspacing,
      toList_apply hplace hplace (Nat.le_refl _) ?_, htext, hchars, hperiod]
    · have hsplit :
          before ++ (said ++ spacing) ++ after = before ++ said ++ (spacing ++ after) := by
        simp only [List.append_assoc]
      rw [hsplit, List.take_left, List.drop_left]
      simp
    · rw [htext, hchars, List.length_append, List.length_append, List.length_append,
        List.length_append]
      omega
  have hread : Text.slice (comment.span.stop.offset - line.length)
      (comment.span.stop.offset + 1) patched.text = withPeriod line := by
    have hbegin : comment.span.stop.offset - line.length = before.length := by
      rw [hoffset, String.length_toList]
      omega
    have hend : comment.span.stop.offset + 1 =
        (before ++ (withPeriod line).toList).length := by
      rw [hoffset, hchars, hperiod]
      simp only [List.length_append, List.length_cons]
      omega
    rw [← String.toList_inj, Text.slice, String.toList_ofList, hbegin, hend,
      Text.sliceList_of_le ?_, hcut, List.take_left, Nat.min_eq_left ?_, List.drop_left]
    all_goals
      simp only [hcut, List.length_append]
      omega
  rw [CommentBlock.lengthened, hlines, List.dropLast_concat, List.getLast?_concat]
  exact congrArg (raws ++ [·]) hread

end Insertion

end GoConventions
