import GoConventions.Proofs.Source.LinesBefore
import GoConventions.Tree.Comments

/-!
# Closing a gap

A gap reaches from somewhere on a line over blanks and a blank line to the start of the line after
that.  When it is closed to a single line feed, one line is gone, and the lines around it stay as
they are, except for the blanks (`BlankGap.losesBlankLine_closed`).

A position that is not inside the gap stays with its character.  One that is inside has none any
more: on the line on which the gap starts it moves back to where the gap starts, and on the blank
line it moves on to the line after that.  So a position changes its line only if it is behind the
blank line, and then by one (`BlankGap.line_moved`), and it has blanks alone before it on its line
if and only if it had so before (`BlankGap.isBlankText_lineBefore_moved`).  The comments that end on
a line before the blank line are thereby found again (`BlankGap.commentEndingOn?_closed`).

## Main definitions

* `BlankGap`: the parts of a text with a gap.
* `BlankGap.closed`: the text with the gap closed.
* `Span.closedOffset`, `SourceText.moved`, `CommentBlock.moved`: where a position or a comment is
  once a gap is closed.

## Main results

* `BlankGap.losesBlankLine_closed`, `BlankGap.commentEndingOn?_closed`.
* `nonempty_blankGap`: a blank range that ends at the start of a line, two lines below.
-/

namespace GoConventions

/-- The parts of a text with a gap: what stands before the gap, blanks, the blank line, and what
stands behind the gap. -/
structure BlankGap (src : SourceText) (gap : Span) where
  before : List Char
  blanks : List Char
  blank : List Char
  after : List Char
  text : src.text.toList = before ++ (blanks ++ '\n' :: (blank ++ '\n' :: after))
  start : gap.start = src.positionAt before.length
  stop : gap.stop.offset = before.length + blanks.length + blank.length + 2
  noFeed : '\n' ∉ blanks ∧ '\n' ∉ blank
  allBlank : blanks.all Text.isBlank = true ∧ blank.all Text.isBlank = true

/-- The offset of a position once a gap has been closed to a line feed. -/
def Span.closedOffset (gap : Span) (p : Position) : Int :=
  if p.offset ≤ gap.start.offset then p.offset
  else if gap.stop.offset ≤ p.offset then
    p.offset - (gap.stop.offset - gap.start.offset - 1)
  else if p.line = gap.start.line then gap.start.offset
  else gap.start.offset + 1

/-- Where a position is in the text in which a gap has been closed. -/
def SourceText.moved (closed : SourceText) (gap : Span) (p : Position) : Position :=
  closed.positionAt (gap.closedOffset p)

/-- A comment in the text in which a gap has been closed. -/
def CommentBlock.moved (closed : SourceText) (gap : Span) (comment : CommentBlock) :
    CommentBlock :=
  { comment with span := ⟨closed.moved gap comment.span.start, closed.moved gap comment.span.stop⟩ }

/-- A text has become another one in which a blank line below a position is gone, and the blanks
behind the position on its line. -/
def SourceText.LosesBlankLine (src closed : SourceText) (p : Position) : Prop :=
  ∃ (above below : List String) (blanks blank : String), (above.length : Int) + 1 = p.line ∧
    Text.isBlankText blanks = true ∧ Text.isBlankText blank = true ∧
    src.lines = above ++ (src.lineBefore p ++ blanks) :: blank :: below ∧
    closed.lines = above ++ src.lineBefore p :: below

namespace BlankGap

open Text (lastLine)

variable {src : SourceText} {gap : Span} (h : BlankGap src gap) {p : Position}

/-- The text with the gap closed to a line feed. -/
def closed : SourceText :=
  ⟨src.path, String.ofList (h.before ++ '\n' :: h.after)⟩

theorem length_text : src.length =
    h.before.length + h.blanks.length + h.blank.length + 2 + h.after.length := by
  rw [← show src.text.toList.length = src.length from String.length_toList, h.text]
  simp only [List.length_append, List.length_cons]
  omega

theorem stop_eq : gap.stop.offset =
    (h.before.length + (h.blanks.length + (h.blank.length + (0 + 1) + 1)) : Nat) := by
  rw [h.stop]
  omega

/-- A gap is blank but for its two line feeds. -/
theorem textAt_gap :
    (src.textAt gap).toList = h.blanks ++ '\n' :: (h.blank ++ ['\n']) := by
  have hstart : gap.start.offset = (h.before.length : Nat) := by
    rw [h.start]
    rfl
  have htake := src.take_eq_append_textAt hstart h.stop_eq (by omega) (by rw [h.length_text]; omega)
  rw [h.text, List.take_left, List.take_length_add_append, List.take_length_add_append,
    List.take_succ_cons, List.take_length_add_append, List.take_succ_cons, List.take_zero] at htake
  exact (List.append_cancel_left htake).symm

include h in
theorem count_textAt_gap : (src.textAt gap).toList.count '\n' = 2 := by
  rw [h.textAt_gap, List.count_append, List.count_cons_self, List.count_append,
    List.count_eq_zero.mpr h.noFeed.1, List.count_eq_zero.mpr h.noFeed.2]
  rfl

/-! ## Lines -/

/-- **Closing a gap removes the blank line**, and the blanks on the line before it. -/
theorem losesBlankLine_closed : src.LosesBlankLine h.closed gap.start := by
  have htake : src.text.toList.take h.before.length = h.before := by rw [h.text, List.take_left]
  have hcontent : src.lineBefore gap.start = String.ofList (lastLine h.before) := by
    have hle : h.before.length ≤ src.length := by rw [h.length_text]; omega
    have hplace := SourceText.lineBefore_positionAt hle
    rw [← h.start, htake] at hplace
    rw [← hplace, String.ofList_toList]
  obtain ⟨above, habove⟩ : ∃ above, Text.splitChars '\n' h.before = above ++ [lastLine h.before] :=
    ⟨_, (List.dropLast_append_getLast (Text.splitChars_ne_nil '\n' h.before)).symm⟩
  have hdrop : (Text.splitChars '\n' h.before).dropLast = above := by
    rw [habove, List.dropLast_concat]
  refine ⟨above.map String.ofList, Text.lines (String.ofList h.after), String.ofList h.blanks,
    String.ofList h.blank, ?_, ?_, ?_, ?_, ?_⟩
  · rw [h.start, SourceText.line_positionAt, htake, List.length_map, ← hdrop, List.length_dropLast,
      Text.length_splitChars, Nat.add_sub_cancel]
  · rw [Text.isBlankText, String.toList_ofList]
    exact h.allBlank.1
  · rw [Text.isBlankText, String.toList_ofList]
    exact h.allBlank.2
  · -- The blanks go on with the last line before the gap, and a line feed on each side divides the
    -- blank line from what is around it.
    rw [SourceText.lines, Text.lines, Text.splitAt, h.text, ← List.append_assoc,
      Text.splitChars_append, Text.splitChars_append, Text.splitChars_eq_singleton h.noFeed.2,
      Text.splitChars_append_of_notMem h.noFeed.1, Text.lines, Text.splitAt,
      String.toList_ofList, hdrop, hcontent, ← String.ofList_append, List.map_append,
      List.map_append, List.map_append, List.append_assoc]
    rfl
  · rw [SourceText.lines, Text.lines, Text.splitAt, closed, String.toList_ofList,
      Text.splitChars_append, habove, Text.lines, Text.splitAt, String.toList_ofList, hcontent,
      List.map_append, List.map_append, List.append_assoc]
    rfl

/-! ## Positions -/

theorem length_closed : h.closed.length = h.before.length + 1 + h.after.length := by
  rw [← show h.closed.text.toList.length = h.closed.length from String.length_toList, closed,
    String.toList_ofList, List.length_append, List.length_cons]
  omega

/-- **The text before a place**, by where the place is: before the gap, on the line on which the gap
starts, on the blank line, or behind the gap. -/
theorem take_cases {n : Nat} (hn : n ≤ src.length) :
    (n ≤ h.before.length ∧ src.text.toList.take n = h.before.take n) ∨
    (∃ k, n = h.before.length + (k + 1) ∧ k + 1 ≤ h.blanks.length ∧
      src.text.toList.take n = h.before ++ h.blanks.take (k + 1)) ∨
    (∃ k, n = h.before.length + (h.blanks.length + (k + 1)) ∧ k ≤ h.blank.length ∧
      src.text.toList.take n = h.before ++ (h.blanks ++ '\n' :: h.blank.take k)) ∨
    ∃ k, n = h.before.length + (h.blanks.length + (h.blank.length + (k + 1) + 1)) ∧
      k ≤ h.after.length ∧ src.text.toList.take n =
        h.before ++ (h.blanks ++ '\n' :: (h.blank ++ '\n' :: h.after.take k)) := by
  rw [h.length_text] at hn
  rw [h.text]
  -- Part after part is passed, and with it a line feed, until the place is in the next one.
  by_cases hle : n ≤ h.before.length
  · exact .inl ⟨hle, List.take_append_of_le_length hle⟩
  obtain ⟨k, rfl⟩ := Nat.exists_eq_add_of_lt (Nat.lt_of_not_le hle)
  rw [Nat.add_assoc, List.take_length_add_append]
  by_cases hle : k + 1 ≤ h.blanks.length
  · exact .inr (.inl ⟨k, rfl, hle, by rw [List.take_append_of_le_length hle]⟩)
  obtain ⟨j, hj⟩ := Nat.exists_eq_add_of_lt (Nat.lt_of_not_le hle)
  rw [hj, Nat.add_assoc, List.take_length_add_append, List.take_succ_cons]
  by_cases hle : j ≤ h.blank.length
  · exact .inr (.inr (.inl ⟨j, rfl, hle, by rw [List.take_append_of_le_length hle]⟩))
  obtain ⟨i, rfl⟩ := Nat.exists_eq_add_of_lt (Nat.lt_of_not_le hle)
  rw [Nat.add_assoc h.blank.length, List.take_length_add_append, List.take_succ_cons]
  exact .inr (.inr (.inr ⟨i, rfl, by omega, rfl⟩))

theorem take_closed (k : Nat) : h.closed.text.toList.take (h.before.length + (k + 1)) =
    h.before ++ '\n' :: h.after.take k := by
  rw [closed, String.toList_ofList, List.take_length_add_append, List.take_succ_cons]

theorem take_closed_of_le {n : Nat} (hn : n ≤ h.before.length) :
    h.closed.text.toList.take n = h.before.take n := by
  rw [closed, String.toList_ofList, List.take_append_of_le_length hn]

theorem start_eq : gap.start.offset = h.before.length ∧
    gap.start.line = h.before.count '\n' + 1 := by
  rw [h.start, SourceText.line_positionAt, h.text, List.take_left]
  exact ⟨rfl, rfl⟩

/-- The text before a place, and the text before it once the gap is closed. -/
inductive Heads : List Char → List Char → Prop
  | before (n : Nat) : Heads (h.before.take n) (h.before.take n)
  | blanks (k : Nat) : Heads (h.before ++ h.blanks.take k) h.before
  | blank (k : Nat) : Heads (h.before ++ (h.blanks ++ '\n' :: h.blank.take k)) (h.before ++ ['\n'])
  | after (k : Nat) : Heads
      (h.before ++ (h.blanks ++ '\n' :: (h.blank ++ '\n' :: h.after.take k)))
      (h.before ++ '\n' :: h.after.take k)

namespace Heads

variable {h} {old new : List Char}

/-- A place changes its line if it is behind the blank line. -/
theorem count_eq (hheads : h.Heads old new) : new.count '\n' =
    if old.count '\n' ≤ h.before.count '\n' + 1 then old.count '\n' else old.count '\n' - 1 := by
  have hblanks : h.blanks.count '\n' = 0 := List.count_eq_zero.mpr h.noFeed.1
  have hblank : h.blank.count '\n' = 0 := List.count_eq_zero.mpr h.noFeed.2
  cases hheads with
  | before n =>
    have hle := (List.take_sublist n h.before).count_le '\n'
    rw [if_pos (Nat.le_succ_of_le hle)]
  | blanks k =>
    have hle := (List.take_sublist k h.blanks).count_le '\n'
    rw [List.count_append, if_pos (by omega)]
    omega
  | blank k =>
    have hle := (List.take_sublist k h.blank).count_le '\n'
    simp only [List.count_append, List.count_cons_self, List.count_nil]
    rw [if_pos (by omega)]
    omega
  | after k =>
    simp only [List.count_append, List.count_cons_self]
    split <;> omega

/-- A place has blanks alone before it on its line if it had so before. -/
theorem all_isBlank_eq (hheads : h.Heads old new) :
    (lastLine new).all Text.isBlank = (lastLine old).all Text.isBlank := by
  cases hheads with
  | before n => rfl
  | blanks k =>
    have hall : (h.blanks.take k).all Text.isBlank = true := List.all_eq_true.mpr fun c hc =>
      List.all_eq_true.mp h.allBlank.1 c (List.mem_of_mem_take hc)
    rw [Text.lastLine_append_of_notMem (mt List.mem_of_mem_take h.noFeed.1), List.all_append, hall,
      Bool.and_true]
  | blank k =>
    have hall : (h.blank.take k).all Text.isBlank = true := List.all_eq_true.mpr fun c hc =>
      List.all_eq_true.mp h.allBlank.2 c (List.mem_of_mem_take hc)
    rw [Text.lastLine_append_cons, ← List.append_assoc, Text.lastLine_append_cons,
      Text.lastLine_eq_self (mt List.mem_of_mem_take h.noFeed.2), hall]
    rfl
  | after k =>
    rw [Text.lastLine_append_cons, ← List.append_assoc, Text.lastLine_append_cons,
      Text.lastLine_append_cons]

/-- Behind the blank line a place keeps what stands before it on its line. -/
theorem lastLine_eq (hheads : h.Heads old new)
    (hbehind : h.before.count '\n' + 1 < old.count '\n') : lastLine new = lastLine old := by
  have hblanks : h.blanks.count '\n' = 0 := List.count_eq_zero.mpr h.noFeed.1
  have hblank : h.blank.count '\n' = 0 := List.count_eq_zero.mpr h.noFeed.2
  cases hheads with
  | before n => rfl
  | blanks k =>
    have hle := (List.take_sublist k h.blanks).count_le '\n'
    rw [List.count_append] at hbehind
    omega
  | blank k =>
    have hle := (List.take_sublist k h.blank).count_le '\n'
    simp only [List.count_append, List.count_cons_self] at hbehind
    omega
  | after k =>
    rw [Text.lastLine_append_cons, ← List.append_assoc, Text.lastLine_append_cons,
      Text.lastLine_append_cons]

end Heads

/-- **Where a position goes** when the gap is closed. -/
theorem exists_heads (hp : src.IsCanonical p) : ∃ m : Nat, gap.closedOffset p = m ∧
    m ≤ h.closed.length ∧
    h.Heads (src.text.toList.take p.offset.toNat) (h.closed.text.toList.take m) := by
  obtain ⟨hstart, hstartLine⟩ := h.start_eq
  have hstop := h.stop
  have hlength := h.length_closed
  obtain ⟨n, hn⟩ := Int.eq_ofNat_of_zero_le hp.nonneg
  have hline : p.line = (src.text.toList.take n).count '\n' + 1 := by
    rw [hp.eq_positionAt, hn, SourceText.line_positionAt]
  have hblanks : h.blanks.count '\n' = 0 := List.count_eq_zero.mpr h.noFeed.1
  have hle : n ≤ src.length := by
    have hle := hp.le_length
    omega
  rw [hn, Int.toNat_natCast]
  unfold Span.closedOffset
  rcases h.take_cases hle with ⟨hplace, htake⟩ | ⟨k, rfl, hk, htake⟩ | ⟨k, rfl, hk, htake⟩ |
    ⟨k, rfl, hk, htake⟩
  · refine ⟨n, by rw [if_pos (by omega), hn], by omega, ?_⟩
    rw [htake, h.take_closed_of_le hplace]
    exact .before n
  · -- The blanks are on the line on which the gap starts.
    have hcount := (List.take_sublist (k + 1) h.blanks).count_le '\n'
    rw [htake, List.count_append] at hline
    refine ⟨h.before.length, ?_, by omega, ?_⟩
    · rw [if_neg (by omega), if_neg (by omega), if_pos (by omega), hstart]
    · rw [htake, h.take_closed_of_le (Nat.le_refl _), List.take_length]
      exact .blanks (k + 1)
  · -- The blank line is the next one.
    simp only [htake, List.count_append, List.count_cons_self] at hline
    refine ⟨h.before.length + (0 + 1), ?_, by omega, ?_⟩
    · rw [if_neg (by omega), if_neg (by omega), if_neg (by omega), hstart]
      rfl
    · rw [htake, h.take_closed, List.take_zero]
      exact .blank k
  · refine ⟨h.before.length + (k + 1), ?_, by omega, ?_⟩
    · rw [if_neg (by omega), if_pos (by omega)]
      omega
    · rw [htake, h.take_closed]
      exact .after k

/-- **A position changes its line** if it is behind the blank line, and then by one. -/
theorem line_moved (hp : src.IsCanonical p) : (h.closed.moved gap p).line =
    if p.line ≤ gap.start.line + 1 then p.line else p.line - 1 := by
  obtain ⟨m, hm, -, hheads⟩ := h.exists_heads hp
  obtain ⟨n, hn⟩ := Int.eq_ofNat_of_zero_le hp.nonneg
  have hline : p.line = (src.text.toList.take p.offset.toNat).count '\n' + 1 := by
    rw [hp.eq_positionAt, hn, SourceText.line_positionAt]
    rfl
  rw [SourceText.moved, hm, SourceText.line_positionAt, hheads.count_eq, hline, h.start_eq.2]
  split <;> split <;> omega

/-- A position behind the blank line keeps its column. -/
theorem column_moved (hp : src.IsCanonical p) (hbehind : gap.start.line + 1 < p.line) :
    (h.closed.moved gap p).column = p.column := by
  obtain ⟨m, hm, hle, hheads⟩ := h.exists_heads hp
  obtain ⟨n, hn⟩ := Int.eq_ofNat_of_zero_le hp.nonneg
  have hlength := hp.le_length
  have hplace : p = src.positionAt (p.offset.toNat : Nat) := by
    rw [Int.toNat_of_nonneg hp.nonneg]
    exact hp.eq_positionAt
  rw [hplace, SourceText.line_positionAt, h.start_eq.2] at hbehind
  rw [SourceText.moved, hm, SourceText.column_positionAt hle, hheads.lastLine_eq (by omega)]
  conv_rhs => rw [hplace, SourceText.column_positionAt (by omega)]

/-- **A position has blanks alone before it** on its line if it had so before. -/
theorem isBlankText_lineBefore_moved (hp : src.IsCanonical p) :
    Text.isBlankText (h.closed.lineBefore (h.closed.moved gap p)) =
      Text.isBlankText (src.lineBefore p) := by
  obtain ⟨m, hm, hle, hheads⟩ := h.exists_heads hp
  obtain ⟨n, hn⟩ := Int.eq_ofNat_of_zero_le hp.nonneg
  have hlength := hp.le_length
  have hbound : n ≤ src.length := by omega
  have hold := SourceText.lineBefore_positionAt hbound
  rw [← hn, ← hp.eq_positionAt, show n = p.offset.toNat by omega] at hold
  rw [SourceText.moved, hm, Text.isBlankText, Text.isBlankText,
    SourceText.lineBefore_positionAt hle, hold, hheads.all_isBlank_eq]

/-- Behind the gap the text stays as it is. -/
theorem drop_text (k : Nat) : src.text.toList.drop
    (h.before.length + (h.blanks.length + (h.blank.length + (k + 1) + 1))) = h.after.drop k := by
  rw [h.text, List.drop_length_add_append, List.drop_length_add_append, List.drop_succ_cons,
    List.drop_length_add_append, List.drop_succ_cons]

theorem drop_closed (k : Nat) :
    h.closed.text.toList.drop (h.before.length + (k + 1)) = h.after.drop k := by
  rw [closed, String.toList_ofList, List.drop_length_add_append, List.drop_succ_cons]

/-- **A position behind the gap stays with what follows it.** -/
theorem fromOffset_closed (hp : src.IsCanonical p) (hbehind : gap.stop.offset ≤ p.offset) :
    Text.fromOffset (gap.closedOffset p) h.closed.text = Text.fromOffset p.offset src.text := by
  have hstart := h.start_eq.1
  have hstop := h.stop
  have hlength := h.length_text
  have hclosed := h.length_closed
  have hle := hp.le_length
  have hsize : src.text.length = src.length := rfl
  have hsizeClosed : h.closed.text.length = h.closed.length := rfl
  obtain ⟨k, hk⟩ := Int.eq_ofNat_of_zero_le (Int.sub_nonneg_of_le hbehind)
  have hold : p.offset =
      (h.before.length + (h.blanks.length + (h.blank.length + (k + 1) + 1)) : Nat) := by omega
  have hnew : gap.closedOffset p = (h.before.length + (k + 1) : Nat) := by
    unfold Span.closedOffset
    rw [if_neg (by omega), if_pos hbehind]
    omega
  rw [hnew, hold, Text.fromOffset, Text.fromOffset, Text.bound_natCast, Text.bound_natCast,
    Nat.min_eq_left (by omega), Nat.min_eq_left (by omega), h.drop_text, h.drop_closed]

/-! ## Comments -/

/-- A comment stands alone once the gap is closed if it did so before. -/
theorem standsAlone_moved {comment : CommentBlock} (hstart : src.IsCanonical comment.span.start) :
    h.closed.standsAlone (comment.moved h.closed gap) = src.standsAlone comment :=
  h.isBlankText_lineBefore_moved hstart

/-- **The comments that end above the blank line are found again.** -/
theorem commentEndingOn?_closed {comments : List CommentBlock}
    (hcanonical : ∀ comment ∈ comments,
      src.IsCanonical comment.span.start ∧ src.IsCanonical comment.span.stop)
    {line : Int} (hline : line ≤ gap.start.line) :
    (h.closed.withComments (comments.map (·.moved h.closed gap))).commentEndingOn? line =
      ((src.withComments comments).commentEndingOn? line).map (·.moved h.closed gap) := by
  -- The comments are in the same order, and the same ones are picked.
  have hkept : ∀ comment ∈ comments,
      ((comment.moved h.closed gap).span.stop.line == line &&
        h.closed.standsAlone (comment.moved h.closed gap)) =
      (comment.span.stop.line == line && src.standsAlone comment) := by
    intro comment hcomment
    obtain ⟨hstart, hstop⟩ := hcanonical comment hcomment
    have hmoved : (comment.moved h.closed gap).span.stop.line = line ↔
        comment.span.stop.line = line := by
      show (h.closed.moved gap comment.span.stop).line = line ↔ _
      rw [h.line_moved hstop]
      split <;> omega
    rw [h.standsAlone_moved hstart, beq_eq_beq.mpr hmoved]
  simp only [CommentedText.commentEndingOn?, SourceText.withComments, SourceText.standalone,
    List.filter_filter, List.filter_map, ← List.getLast?_map]
  congr 2
  exact List.filter_congr hkept

end BlankGap

/-! ## Blank ranges -/

theorem Text.exists_eq_of_count_eq_two {chars : List Char} (h : chars.count '\n' = 2) :
    ∃ first second rest, chars = first ++ '\n' :: (second ++ '\n' :: rest) ∧
      '\n' ∉ first ∧ '\n' ∉ second ∧ '\n' ∉ rest := by
  obtain ⟨first, tail, rfl, hfirst⟩ := List.eq_append_cons_of_mem
    (List.count_pos_iff.mp (show 0 < chars.count '\n' by omega))
  rw [List.count_append, List.count_eq_zero.mpr hfirst, List.count_cons_self] at h
  obtain ⟨second, rest, rfl, hsecond⟩ := List.eq_append_cons_of_mem
    (List.count_pos_iff.mp (show 0 < tail.count '\n' by omega))
  rw [List.count_append, List.count_eq_zero.mpr hsecond, List.count_cons_self] at h
  exact ⟨first, second, rest, rfl, hfirst, hsecond, List.count_eq_zero.mp (by omega)⟩

/-- The characters of a blank range are blanks. -/
theorem SourceText.isBlank_of_isBlankText {src : SourceText} {span : Span} {p : Position}
    (hstart : 0 ≤ span.start.offset) (hle : span.start.offset ≤ p.offset)
    (hlt : p.offset < span.stop.offset) (hstop : span.stop.offset ≤ src.length)
    (hblank : Text.isBlankText (src.textAt span) = true) {c : Char}
    (hc : src.text.toList[p.offset.toNat]? = some c) : Text.isBlank c = true := by
  obtain ⟨n, hn⟩ := Int.eq_ofNat_of_zero_le hstart
  obtain ⟨m, hm⟩ := Int.eq_ofNat_of_zero_le (show 0 ≤ span.stop.offset by omega)
  have htake := src.take_eq_append_textAt hn hm (by omega) (by omega)
  have hchars : src.text.toList.length = src.length := String.length_toList
  have hmem : (src.textAt span).toList[p.offset.toNat - n]? = some c := by
    have hbefore : (src.text.toList.take n).length = n := by
      rw [List.length_take]
      omega
    have hfound : (src.text.toList.take m)[p.offset.toNat]? = some c := by
      rw [List.getElem?_take_of_lt (by omega), hc]
    rwa [htake, List.getElem?_append_right (by omega), hbefore] at hfound
  exact List.all_eq_true.mp hblank c (List.mem_of_getElem? hmem)

/-- **A blank range down to the start of a line** is a gap if it starts two lines above. -/
theorem nonempty_blankGap {src : SourceText} {span : Span} (hstart : src.IsCanonical span.start)
    (hstop : src.IsCanonical span.stop) (hlines : span.stop.line = span.start.line + 2)
    (hcolumn : span.stop.column = 1) (hblank : Text.isBlankText (src.textAt span) = true) :
    Nonempty (BlankGap src span) := by
  have horder : span.start.offset < span.stop.offset := by
    by_contra hle
    have hmono := hstop.line_mono hstart (by omega)
    omega
  obtain ⟨n, hn⟩ := Int.eq_ofNat_of_zero_le hstart.nonneg
  obtain ⟨m, hm⟩ := Int.eq_ofNat_of_zero_le hstop.nonneg
  have hend := hstop.le_length
  have htake := src.take_eq_append_textAt hn hm (by omega) (by omega)
  have hfirst : span.start = src.positionAt n := by rw [hstart.eq_positionAt, hn]
  have hlast : span.stop = src.positionAt m := by rw [hstop.eq_positionAt, hm]
  -- Two line feeds lead from the line of the start to that of the stop.
  rw [hfirst, hlast, SourceText.line_positionAt, SourceText.line_positionAt, htake,
    List.count_append] at hlines
  obtain ⟨blanks, blank, rest, hgap, hblanks, hblankLine, hrest⟩ :=
    Text.exists_eq_of_count_eq_two (show (src.textAt span).toList.count '\n' = 2 by omega)
  -- Nothing stands before the stop on its line.
  rw [hlast, SourceText.column_positionAt (by omega), htake, hgap, ← List.append_assoc,
    Text.lastLine_append_cons, Text.lastLine_append_cons, Text.lastLine_eq_self hrest] at hcolumn
  obtain rfl := List.eq_nil_of_length_eq_zero (show rest.length = 0 by omega)
  rw [Text.isBlankText, hgap] at hblank
  simp only [List.all_append, List.all_cons, Bool.and_eq_true] at hblank
  have hchars : src.text.toList.length = src.length := String.length_toList
  have hbefore : (src.text.toList.take n).length = n := by
    rw [List.length_take]
    omega
  refine ⟨{
    before := src.text.toList.take n
    blanks, blank, after := src.text.toList.drop m
    text := ?_
    start := ?_
    stop := ?_
    noFeed := ⟨hblanks, hblankLine⟩
    allBlank := ⟨hblank.1, hblank.2.2.1⟩ }⟩
  · conv_lhs => rw [← List.take_append_drop m src.text.toList, htake, hgap]
    simp only [List.append_assoc, List.cons_append, List.nil_append]
  · rw [hbefore, hfirst]
  · have hlength := congrArg List.length htake
    simp only [hgap, List.length_append, hbefore, List.length_take, List.length_cons,
      List.length_nil] at hlength
    omega

end GoConventions
