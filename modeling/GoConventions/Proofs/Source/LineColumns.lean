import GoConventions.Proofs.Source.LinesBefore

/-!
# Lines and columns

A place of a text is told by its offset, and it is told by its line and its column.  Lines and the
offsets at which they start are read off the text separately, the lines by dividing it and the
starts by listing its line feeds; a position is found by a search among the starts.  All of this
fits together: the offsets of a text and the columns of its lines correspond one to one
(`locatesByLine`), in the same order.

Everything is read off one division of the text: what stands before a line, the line, and what
stands behind it (`exists_lineDivides`).  Below the start of a line the text has as many line feeds
as lines before that one, and behind the line comes a line feed or the end.

## Main definitions

* `Text.LineDivides`: a line and the text around it.
* `SourceText.LocatesByLine`: what lines, line starts and positions say of one another.

## Main results

* `SourceText.positionAt_lineStart_add`: the position at a column of a line.
* `SourceText.order_positionAt`: positions are in the order of their offsets.
* `SourceText.isBlankText_lineBefore_iff`: what stands before a position on its line.
* `SourceText.locatesByLine`: offsets and positions correspond one to one.
-/

namespace GoConventions

open Std (TransCmp OrientedCmp ReflCmp)

/-- Positions are ordered by three numbers, one after the other. -/
instance : TransCmp Position.order :=
  inferInstanceAs (TransCmp (compareLex (compareOn Position.line)
    (compareLex (compareOn Position.column) (compareOn Position.offset))))

/-! ## A line and the text around it -/

namespace Text

/-- A line of a text with a number of lines before it: where it starts no line has begun, it goes on
to the next line feed, and that is where it ends, unless the text does. -/
structure LineDivides (chars before line rest : List Char) (number : Nat) : Prop where
  eq_append : chars = before ++ (line ++ rest)
  count_before : before.count '\n' = number
  lastLine_before : lastLine before = []
  notMem_line : '\n' ∉ line
  head?_rest : ∀ c ∈ rest.head?, c = '\n'

variable {chars line : List Char} {i number start : Nat}

/-- **A line divides a text**, at the offset that is listed as its start.  The next start that is
listed is behind the line feed that ends the line. -/
theorem exists_lineDivides (hline : (splitChars '\n' chars)[number]? = some line)
    (hstart : (i :: startsAfter i chars)[number]? = some start) :
    ∃ before rest, LineDivides chars before line rest number ∧ start = i + before.length ∧
      (i :: startsAfter i chars)[number + 1]? =
        rest.head?.map fun _ => start + line.length + 1 := by
  -- The induction goes down the lines, and the first line feed divides the first from all others.
  induction number generalizing chars i with
  | zero =>
    obtain rfl : i = start := Option.some.inj hstart
    by_cases hfeed : '\n' ∈ chars
    · obtain ⟨first, below, rfl, hfirst⟩ := List.eq_append_cons_of_mem hfeed
      rw [splitChars_append, splitChars_eq_singleton hfirst] at hline
      obtain rfl : first = line := Option.some.inj hline
      refine ⟨[], '\n' :: below, ⟨rfl, rfl, rfl, hfirst, by simp⟩, rfl, ?_⟩
      rw [startsAfter_append_cons, startsAfter_eq_nil hfirst]
      rfl
    · rw [splitChars_eq_singleton hfeed] at hline
      obtain rfl : chars = line := Option.some.inj hline
      refine ⟨[], [], ⟨by simp, rfl, rfl, hfeed, by simp⟩, rfl, ?_⟩
      rw [startsAfter_eq_nil hfeed]
      rfl
  | succ number ih =>
    by_cases hfeed : '\n' ∈ chars
    · obtain ⟨first, below, rfl, hfirst⟩ := List.eq_append_cons_of_mem hfeed
      rw [splitChars_append, splitChars_eq_singleton hfirst] at hline
      rw [startsAfter_append_cons, startsAfter_eq_nil hfirst] at hstart ⊢
      obtain ⟨before, rest, hdivides, rfl, hnext⟩ := ih hline hstart
      refine ⟨first ++ '\n' :: before, rest, ?_, ?_, hnext⟩
      · obtain ⟨rfl, hcount, hlast, hnotMem, hhead⟩ := hdivides
        refine ⟨by simp, ?_, ?_, hnotMem, hhead⟩
        · rw [List.count_append, List.count_cons_self, List.count_eq_zero.mpr hfirst, hcount]
          omega
        · rw [lastLine_append_cons, hlast]
      · rw [List.length_append, List.length_cons]
        omega
    · rw [splitChars_eq_singleton hfeed] at hline
      cases hline

namespace LineDivides

variable {before rest : List Char} (h : LineDivides chars before line rest number)

include h

/-- The text before a column of a line. -/
theorem take_eq {j : Nat} (hj : j ≤ line.length) :
    chars.take (before.length + j) = before ++ line.take j := by
  rw [h.eq_append, List.take_length_add_append, List.take_append_of_le_length hj]

/-- The text from the start of a line to its end. -/
theorem sliceList_eq :
    sliceList before.length (before.length + line.length : Nat) chars = line := by
  have hlength : before.length + line.length ≤ chars.length := by
    rw [h.eq_append, List.length_append, List.length_append]
    omega
  rw [sliceList_of_le hlength, h.take_eq (Nat.le_refl _), List.take_length,
    Nat.min_eq_left (by omega), List.drop_left]

/-- A line that the text goes on behind is ended by a line feed. -/
theorem getElem?_stop (hrest : rest ≠ []) : chars[before.length + line.length]? = some '\n' := by
  obtain ⟨c, below, rfl⟩ := List.exists_cons_of_ne_nil hrest
  obtain rfl : c = '\n' := h.head?_rest c rfl
  rw [h.eq_append, ← List.append_assoc, ← List.length_append,
    List.getElem?_append_right (Nat.le_refl _)]
  simp

end LineDivides

/-- A text ends in its last line. -/
theorem lastLine_suffix (chars : List Char) : lastLine chars <:+ chars := by
  by_cases h : '\n' ∈ chars
  · obtain ⟨first, last, rfl, hlast⟩ := exists_eq_append_cons_of_mem h
    rw [lastLine_append_cons, lastLine_eq_self hlast]
    exact ⟨first ++ ['\n'], by simp⟩
  · exact ⟨[], lastLine_eq_self h⟩

end Text

namespace SourceText

variable {src : SourceText}

/-- The lines and the line starts of a text are found in the same division of it. -/
theorem exists_lineDivides {line : String} {number start : Nat}
    (hline : src.lines[number]? = some line) (hstart : src.lineStarts[number]? = some start) :
    ∃ before rest, Text.LineDivides src.text.toList before line.toList rest number ∧
      start = before.length ∧
      src.lineStarts[number + 1]? = rest.head?.map fun _ => start + line.length + 1 := by
  rw [lines, Text.lines, Text.splitAt, List.getElem?_map] at hline
  obtain ⟨chars, hchars, rfl⟩ := Option.map_eq_some_iff.mp hline
  obtain ⟨before, rest, hdivides, hlength, hnext⟩ := Text.exists_lineDivides hchars hstart
  refine ⟨before, rest, ?_, ?_, ?_⟩
  · rwa [String.toList_ofList]
  · rw [hlength, Nat.zero_add]
  · rw [String.length_ofList]
    exact hnext

/-! ## Columns -/

/-- Places of a text have canonical positions. -/
theorem isCanonical_positionAt_natCast {n : Nat} (h : n ≤ src.length) :
    src.IsCanonical (src.positionAt n) :=
  isCanonical_positionAt (Int.natCast_nonneg n) (Int.ofNat_le.mpr h)

/-- A later place is not on an earlier line. -/
theorem line_positionAt_mono {n m : Nat} (hle : n ≤ m) (hm : m ≤ src.length) :
    (src.positionAt n).line ≤ (src.positionAt m).line :=
  (isCanonical_positionAt_natCast (Nat.le_trans hle hm)).line_mono
    (isCanonical_positionAt_natCast hm) (Int.ofNat_le.mpr hle)

/-- **The position at a column of a line**, from its start to its end. -/
theorem positionAt_lineStart_add {line : String} {number start j : Nat}
    (hline : src.lines[number]? = some line) (hstart : src.lineStarts[number]? = some start)
    (hj : j ≤ line.length) :
    start + j ≤ src.length ∧
      src.positionAt (start + j : Nat) = ⟨number + 1, j + 1, (start + j : Nat)⟩ := by
  obtain ⟨before, rest, hdivides, rfl, -⟩ := exists_lineDivides hline hstart
  have hchars : j ≤ line.toList.length := by rwa [String.length_toList]
  have htake := hdivides.take_eq hchars
  have hfeed : '\n' ∉ line.toList.take j := fun hmem =>
    hdivides.notMem_line (List.mem_of_mem_take hmem)
  have hle : before.length + j ≤ src.length := by
    rw [length, ← String.length_toList, hdivides.eq_append]
    simp only [List.length_append]
    omega
  refine ⟨hle, ?_⟩
  have hcolumn := column_positionAt hle
  rw [htake, Text.lastLine_append_of_notMem hfeed, hdivides.lastLine_before, List.nil_append,
    List.length_take, Nat.min_eq_left hchars] at hcolumn
  have hnumber := line_positionAt src (before.length + j)
  rw [htake, List.count_append, hdivides.count_before, List.count_eq_zero.mpr hfeed] at hnumber
  show (⟨_, _, _⟩ : Position) = _
  rw [Position.mk.injEq]
  exact ⟨hnumber, hcolumn, rfl⟩

/-- A column is one of its line, or the place behind it. -/
theorem column_le_length_lineText {n : Nat} (h : n ≤ src.length) :
    (src.positionAt n).column ≤ (src.lineText (src.positionAt n).line).length + 1 := by
  have hbefore := lineBefore_positionAt h
  rw [column_positionAt h, ← hbefore, lineBefore, Text.upTo, String.toList_ofList,
    ← String.length_toList, List.length_take]
  omega

/-- A later place has a later position. -/
theorem order_positionAt_of_lt {n m : Nat} (hlt : n < m) (hm : m ≤ src.length) :
    Position.order (src.positionAt n) (src.positionAt m) = .lt := by
  have hmono := line_positionAt_mono (Nat.le_of_lt hlt) hm
  rw [Position.order, compareLex, compareLex, compareOn, compareOn, compareOn]
  rcases Int.lt_or_eq_of_le hmono with hlines | hlines
  · rw [Int.compare_eq_lt.mpr hlines]
    rfl
  · -- On one line the columns are counted from the same place.
    have hn := Nat.le_trans (Nat.le_of_lt hlt) hm
    obtain ⟨-, start, hstart, hcolumn, -⟩ := (isCanonical_positionAt_natCast hn).exists_lineStart
    obtain ⟨-, start', hstart', hcolumn', -⟩ := (isCanonical_positionAt_natCast hm).exists_lineStart
    rw [hlines, hstart'] at hstart
    obtain rfl := Option.some.inj hstart
    have hoffset : (src.positionAt n).offset = n := rfl
    have hoffset' : (src.positionAt m).offset = m := rfl
    have hcolumns : (src.positionAt n).column < (src.positionAt m).column := by omega
    rw [hlines, Int.compare_eq_eq.mpr rfl, Int.compare_eq_lt.mpr hcolumns]
    rfl

/-- **Positions are in the order of their offsets.** -/
theorem order_positionAt {n m : Nat} (hn : n ≤ src.length) (hm : m ≤ src.length) :
    Position.order (src.positionAt n) (src.positionAt m) = compare n m := by
  rcases Nat.lt_trichotomy n m with hlt | rfl | hlt
  · rw [order_positionAt_of_lt hlt hm, Nat.compare_eq_lt.mpr hlt]
  · rw [Nat.compare_eq_eq.mpr rfl]
    exact ReflCmp.compare_self
  · have hswap : Position.order (src.positionAt n) (src.positionAt m) =
        (Position.order (src.positionAt m) (src.positionAt n)).swap := OrientedCmp.eq_swap
    rw [hswap, order_positionAt_of_lt hlt hn, Nat.compare_eq_gt.mpr hlt]
    rfl

/-! ## What stands before a position -/

/-- The characters before a place on its line are those from the start of the line on. -/
theorem mem_lineBefore_iff {m : Nat} (hm : m ≤ src.length) {c : Char} :
    c ∈ (src.lineBefore (src.positionAt m)).toList ↔
      ∃ n < m, src.text.toList[n]? = some c ∧
        (src.positionAt n).line = (src.positionAt m).line := by
  obtain ⟨hline, start, hstart, hcolumn, -⟩ :=
    (isCanonical_positionAt_natCast hm).exists_lineStart
  have hoffset : (src.positionAt m).offset = m := rfl
  have hlength : (src.text.toList.take m).length = m := by
    rw [List.length_take, String.length_toList]
    exact Nat.min_eq_left hm
  -- A place before the other one is on its line if it is not before the start of the line.
  have hsame : ∀ n < m, (src.positionAt n).line = (src.positionAt m).line ↔ start ≤ n := by
    intro n hlt
    have hmono := line_positionAt_mono (Nat.le_of_lt hlt) hm
    rw [← Int.ofNat_le, lineStart_le_iff hstart]
    omega
  have hlast := List.suffix_iff_eq_drop.mp (Text.lastLine_suffix (src.text.toList.take m))
  have hdrop : m - (Text.lastLine (src.text.toList.take m)).length = start := by
    have hwidth := column_positionAt hm
    omega
  rw [lineBefore_positionAt hm, hlast, hlength, hdrop, List.mem_iff_getElem?]
  constructor
  · rintro ⟨i, hi⟩
    rw [List.getElem?_drop] at hi
    obtain ⟨hlt, -⟩ := List.getElem?_eq_some_iff.mp hi
    have hlt : start + i < m := by omega
    rw [List.getElem?_take_of_lt hlt] at hi
    exact ⟨start + i, hlt, hi, (hsame _ hlt).mpr (Nat.le_add_right _ _)⟩
  · rintro ⟨n, hn, hc, hline⟩
    have hle := (hsame n hn).mp hline
    refine ⟨n - start, ?_⟩
    rw [List.getElem?_drop, Nat.add_sub_of_le hle, List.getElem?_take_of_lt hn, hc]

/-- **Blanks stand before a position** on its line if all characters there are blank that are before
it. -/
theorem isBlankText_lineBefore_iff {p : Position} (hp : src.IsCanonical p) :
    Text.isBlankText (src.lineBefore p) = true ↔
      ∀ (n : Nat) (c : Char), src.text.toList[n]? = some c → (n : Int) < p.offset →
        (src.positionAt n).line = p.line → Text.isBlank c = true := by
  obtain ⟨m, hm⟩ := Int.eq_ofNat_of_zero_le hp.nonneg
  have hle := hp.le_length
  obtain rfl : p = src.positionAt m := by rw [hp.eq_positionAt, hm]
  rw [Text.isBlankText, List.all_eq_true]
  constructor
  · intro hall n c hc hlt hline
    exact hall c ((mem_lineBefore_iff (by omega)).mpr ⟨n, by omega, hc, hline⟩)
  · intro hall c hmem
    obtain ⟨n, hn, hc, hline⟩ := (mem_lineBefore_iff (by omega)).mp hmem
    exact hall n c hc (by omega) hline

/-! ## Offsets and positions -/

variable (src) in
/-- What the lines of a text, the offsets at which they start and the positions of its offsets say
of one another. -/
structure LocatesByLine : Prop where
  /-- The line of an offset is one more than the line feeds before it. -/
  line_eq : ∀ n : Nat, n ≤ src.length →
    (src.positionAt n).line = 1 + (src.text.toList.take n).count '\n'
  /-- The start of the line and the column give the offset back. -/
  lineStart_add : ∀ n : Nat, n ≤ src.length → ∃ start : Nat,
    src.lineStarts[((src.positionAt n).line - 1).toNat]? = some start ∧
      start + (src.positionAt n).column - 1 = n
  column_bounds : ∀ n : Nat, n ≤ src.length → 1 ≤ (src.positionAt n).column ∧
    (src.positionAt n).column ≤ (src.lineText (src.positionAt n).line).length + 1
  /-- Every column of every line, and the place behind the line, is the position of an offset. -/
  exists_offset : ∀ (number start : Nat) (line : String), src.lines[number]? = some line →
    src.lineStarts[number]? = some start → ∀ j ≤ line.length,
      start + j ≤ src.length ∧
        src.positionAt (start + j : Nat) = ⟨number + 1, j + 1, (start + j : Nat)⟩
  length_lines : src.lines.length = src.lineStarts.length
  /-- A line is the text from its start to the line feed in front of the next start. -/
  line_eq_slice : ∀ number start next : Nat, src.lineStarts[number]? = some start →
    src.lineStarts[number + 1]? = some next →
      src.lines[number]? = some (Text.slice start (next - 1) src.text) ∧
        src.text.toList[next - 1]? = some '\n'
  /-- The last line is the text from its start on. -/
  lastLine_eq_slice : ∀ start : Nat, src.lineStarts.getLast? = some start →
    src.lines.getLast? = some (Text.slice start src.length src.text)
  order_eq : ∀ n m : Nat, n ≤ src.length → m ≤ src.length →
    Position.order (src.positionAt n) (src.positionAt m) = compare n m

theorem length_lines_eq : src.lines.length = src.lineStarts.length :=
  (Text.length_lineStarts src.text).symm

theorem exists_line_of_lineStart {number start : Nat}
    (hstart : src.lineStarts[number]? = some start) : ∃ line, src.lines[number]? = some line := by
  obtain ⟨hlt, -⟩ := List.getElem?_eq_some_iff.mp hstart
  rw [← length_lines_eq] at hlt
  exact ⟨_, List.getElem?_eq_getElem hlt⟩

/-- **A line is the text between two starts**, without the line feed that ends it. -/
theorem line_eq_slice {number start next : Nat} (hstart : src.lineStarts[number]? = some start)
    (hnext : src.lineStarts[number + 1]? = some next) :
    src.lines[number]? = some (Text.slice start (next - 1) src.text) ∧
      src.text.toList[next - 1]? = some '\n' := by
  obtain ⟨line, hline⟩ := exists_line_of_lineStart hstart
  obtain ⟨before, rest, hdivides, rfl, hfound⟩ := exists_lineDivides hline hstart
  rw [hnext] at hfound
  obtain ⟨c, hc, hnext⟩ := Option.map_eq_some_iff.mp hfound.symm
  have hrest : rest ≠ [] := by
    rintro rfl
    cases hc
  have hstop : next - 1 = before.length + line.toList.length := by
    rw [String.length_toList]
    omega
  have hcast : (next : Int) - 1 = (before.length + line.toList.length : Nat) := by omega
  refine ⟨?_, ?_⟩
  · rw [hline, Text.slice, hcast, hdivides.sliceList_eq, String.ofList_toList]
  · rw [hstop, hdivides.getElem?_stop hrest]

/-- The last line is the text from its start on. -/
theorem getLast?_lines_eq_slice {start : Nat} (hstart : src.lineStarts.getLast? = some start) :
    src.lines.getLast? = some (Text.slice start src.length src.text) := by
  rw [List.getLast?_eq_getElem?] at hstart
  obtain ⟨line, hline⟩ := exists_line_of_lineStart hstart
  obtain ⟨before, rest, hdivides, rfl, hfound⟩ := exists_lineDivides hline hstart
  -- No start is listed behind the last one, so nothing stands behind the line.
  have hpos : 0 < src.lineStarts.length := Nat.succ_pos _
  rw [Nat.sub_add_cancel hpos, List.getElem?_eq_none (Nat.le_refl _)] at hfound
  have hrest : rest = [] := by
    cases rest with
    | nil => rfl
    | cons c rest => cases hfound
  have hlength : src.length = before.length + line.toList.length := by
    rw [length, ← String.length_toList, hdivides.eq_append, hrest, List.append_nil,
      List.length_append]
  rw [List.getLast?_eq_getElem?, length_lines_eq, hline, Text.slice, hlength,
    hdivides.sliceList_eq, String.ofList_toList]

/-- **Offsets and positions correspond one to one**, and in order: the lines, the line starts and
the search among them agree on every place of a text. -/
theorem locatesByLine (src : SourceText) : src.LocatesByLine where
  line_eq n _ := by rw [line_positionAt, Int.add_comm]
  lineStart_add n hn := by
    obtain ⟨-, start, hstart, hcolumn, -⟩ := (isCanonical_positionAt_natCast hn).exists_lineStart
    have hoffset : (src.positionAt n).offset = n := rfl
    exact ⟨start, hstart, by omega⟩
  column_bounds n hn := by
    refine ⟨?_, column_le_length_lineText hn⟩
    rw [column_positionAt hn]
    omega
  exists_offset number start line hline hstart j hj := positionAt_lineStart_add hline hstart hj
  length_lines := length_lines_eq
  line_eq_slice number start next hstart hnext := line_eq_slice hstart hnext
  lastLine_eq_slice start hstart := getLast?_lines_eq_slice hstart
  order_eq n m hn hm := order_positionAt hn hm

end SourceText

end GoConventions
