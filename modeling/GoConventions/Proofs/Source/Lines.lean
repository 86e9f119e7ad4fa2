import GoConventions.Proofs.Source.Position

/-!
# Lines and offsets

The positions of a text are in one order by their lines and by their offsets: a position that is not
after another one is not on a later line, and a position on an earlier line is before the whole of
the later one.  So a span between two positions in order is a range of the text, and touches a line.

## Main results

* `SourceText.IsCanonical.line_mono`, `SourceText.IsCanonical.offset_lt_lineStart`: the order of
  positions by lines and by offsets.
* `SourceText.linesBetween_ne_nil`: a span touches a line.
* `SourceText.containsSpan_lineSpan`: the lines of a text lie in it.
* `SourceText.length_textAt`: the text of a span is as long as the span.
-/

namespace GoConventions

namespace Text

theorem pairwise_startsAfter (i : Nat) (chars : List Char) :
    (startsAfter i chars).Pairwise (· < ·) := by
  induction chars generalizing i with
  | nil => exact List.Pairwise.nil
  | cons c chars ih =>
    rw [startsAfter]
    split
    · exact List.pairwise_cons.mpr ⟨fun start => SourceText.lt_of_mem_startsAfter, ih (i + 1)⟩
    · exact ih (i + 1)

/-- The lines start one after the other. -/
theorem pairwise_lineStarts (s : String) : (lineStarts s).Pairwise (· < ·) :=
  List.pairwise_cons.mpr
    ⟨fun _ hstart => SourceText.lt_of_mem_startsAfter hstart, pairwise_startsAfter 0 s.toList⟩

/-- In an ascending list, what comes before the first number beyond a bound are the numbers up to
the bound. -/
theorem le_iff_lt_length_takeWhile {starts : List Nat} (hstarts : starts.Pairwise (· < ·))
    {bound : Int} {i start : Nat} (h : starts[i]? = some start) :
    (start : Int) ≤ bound ↔ i < (starts.takeWhile fun (s : Nat) => (s : Int) ≤ bound).length := by
  induction starts generalizing i with
  | nil => cases h
  | cons first starts ih =>
    obtain ⟨hfirst, hrest⟩ := List.pairwise_cons.mp hstarts
    by_cases hle : (first : Int) ≤ bound
    · rw [List.takeWhile_cons_of_pos (by simpa using hle), List.length_cons]
      cases i with
      | zero =>
        obtain rfl := Option.some.inj h
        exact iff_of_true hle (Nat.succ_pos _)
      | succ i => rw [ih hrest h, Nat.succ_lt_succ_iff]
    · rw [List.takeWhile_cons_of_neg (by simpa using hle)]
      -- The first number is beyond the bound, and all others are beyond the first.
      have hge : first ≤ start := by
        cases i with
        | zero => exact Nat.le_of_eq (Option.some.inj h)
        | succ i => exact Nat.le_of_lt (hfirst start (List.mem_of_getElem? h))
      exact iff_of_false (by omega) (Nat.not_lt_zero i)

/-- A line ends where the text ends, or before that. -/
theorem le_of_mem_zip_startsAfter {chars line : List Char} {i start : Nat}
    (h : (line, start) ∈ (splitChars '\n' chars).zip (i :: startsAfter i chars)) :
    start + line.length ≤ i + chars.length := by
  induction chars generalizing i line start with
  | nil =>
    obtain ⟨rfl, rfl⟩ := Prod.mk.inj (List.mem_singleton.mp h)
    exact Nat.le_refl _
  | cons c chars ih =>
    rw [splitChars, startsAfter] at h
    rw [List.length_cons]
    split at h
    · rw [List.zip_cons_cons] at h
      rcases List.mem_cons.mp h with hhead | hmem
      · obtain ⟨rfl, rfl⟩ := Prod.mk.inj hhead
        exact Nat.le_add_right _ _
      · have hle := ih hmem
        omega
    · split at h
      case h_1 hnil => exact absurd hnil (splitChars_ne_nil _ _)
      case h_2 first rest hsplit =>
        -- The character is put before the first line of the rest.
        rw [hsplit] at ih
        rcases List.mem_cons.mp h with hhead | hmem
        · obtain ⟨rfl, rfl⟩ := Prod.mk.inj hhead
          have hle := ih (i := start + 1) List.mem_cons_self
          rw [List.length_cons]
          omega
        · have hle := ih (i := i + 1) (List.mem_cons_of_mem _ hmem)
          omega

end Text

namespace SourceText

variable {src : SourceText} {p q : Position}

/-! ## The order of positions -/

/-- The lines that start up to an offset are as many as the line of its position says. -/
theorem lineStart_le_iff {offset : Int} {i start : Nat} (h : src.lineStarts[i]? = some start) :
    (start : Int) ≤ offset ↔ (i : Int) < (src.positionAt offset).line := by
  rw [Text.le_iff_lt_length_takeWhile (Text.pairwise_lineStarts src.text) h, ← Int.ofNat_lt]
  rfl

/-- A position of the text is on a line, which starts up to it, and has its column from there. -/
theorem IsCanonical.exists_lineStart (hp : src.IsCanonical p) :
    1 ≤ p.line ∧ ∃ start : Nat, src.lineStarts[(p.line - 1).toNat]? = some start ∧
      p.offset - (p.column - 1) = start ∧ (start : Int) ≤ p.offset := by
  have hnonneg := hp.nonneg
  let begun := src.lineStarts.takeWhile fun (start : Nat) => (start : Int) ≤ p.offset
  have hfirst : src.lineStarts[0]? = some 0 := rfl
  have hpos : 0 < begun.length :=
    (Text.le_iff_lt_length_takeWhile (Text.pairwise_lineStarts src.text) hfirst).mp hnonneg
  have hline : p.line = begun.length := by rw [hp.eq_positionAt]; rfl
  have hlt : begun.length - 1 < begun.length := Nat.sub_one_lt (Nat.ne_of_gt hpos)
  have hbegun : begun <+: src.lineStarts := List.takeWhile_prefix _
  obtain ⟨start, hlast, hstart⟩ : ∃ start, begun[begun.length - 1]? = some start ∧
      src.lineStarts[begun.length - 1]? = some start := by
    refine ⟨_, List.getElem?_eq_getElem hlt, ?_⟩
    rw [List.getElem?_eq_getElem (Nat.lt_of_lt_of_le hlt hbegun.length_le), hbegun.getElem hlt]
  have hcolumn : p.column = p.offset - start + 1 := by
    refine (congrArg Position.column hp.eq_positionAt).trans ?_
    show p.offset - (((begun.getLast?.or src.lineStarts.getLast?).getD 0 : Nat) : Int) + 1 = _
    rw [List.getLast?_eq_getElem?, hlast]
    rfl
  refine ⟨by omega, start, ?_, by omega, ?_⟩
  · rw [← hstart, hline]
    congr 1
    omega
  · exact (Text.le_iff_lt_length_takeWhile (Text.pairwise_lineStarts src.text) hstart).mpr hlt

/-- **A position that is not after another one is not on a later line.** -/
theorem IsCanonical.line_mono (hp : src.IsCanonical p) (hq : src.IsCanonical q)
    (h : p.offset ≤ q.offset) : p.line ≤ q.line := by
  obtain ⟨hline, start, hstart, -, hle⟩ := hp.exists_lineStart
  have hlt := (lineStart_le_iff hstart).mp (Int.le_trans hle h)
  rw [← hq.eq_positionAt] at hlt
  omega

/-- **A position on an earlier line is before the start of the later line.** -/
theorem IsCanonical.offset_lt_lineStart (hp : src.IsCanonical p) (hq : src.IsCanonical q)
    (h : p.line < q.line) : p.offset < q.offset - (q.column - 1) := by
  obtain ⟨hpline, -⟩ := hp.exists_lineStart
  obtain ⟨-, last, hlast, hcolumn, -⟩ := hq.exists_lineStart
  have hlength := (List.getElem?_eq_some_iff.mp hlast).1
  -- The line after that of the first position starts after it, and not after the later line.
  obtain ⟨next, hnext⟩ : ∃ next, src.lineStarts[p.line.toNat]? = some next :=
    ⟨_, List.getElem?_eq_getElem (Nat.lt_of_le_of_lt (by omega) hlength)⟩
  have hafter : p.offset < next := by
    rw [← Int.not_le, lineStart_le_iff hnext, ← hp.eq_positionAt]
    omega
  have hle : next ≤ last := by
    rcases Nat.eq_or_lt_of_le (show p.line.toNat ≤ (q.line - 1).toNat by omega) with heq | hlt
    · rw [heq, hlast] at hnext
      exact Nat.le_of_eq (Option.some.inj hnext).symm
    · obtain ⟨hi, rfl⟩ := List.getElem?_eq_some_iff.mp hnext
      obtain ⟨hj, rfl⟩ := List.getElem?_eq_some_iff.mp hlast
      exact Nat.le_of_lt
        (List.pairwise_iff_getElem.mp (Text.pairwise_lineStarts src.text) _ _ hi hj hlt)
  rw [hcolumn]
  omega

/-- A line starts in its first column. -/
theorem IsCanonical.positionAt_lineStart (hp : src.IsCanonical p) :
    src.IsCanonical (src.positionAt (p.offset - (p.column - 1))) ∧
      (src.positionAt (p.offset - (p.column - 1))).line = p.line ∧
      (src.positionAt (p.offset - (p.column - 1))).column = 1 := by
  obtain ⟨hline, start, hstart, hoffset, hle⟩ := hp.exists_lineStart
  have hlength := hp.le_length
  rw [hoffset]
  have hq : src.IsCanonical (src.positionAt start) :=
    isCanonical_positionAt (Int.natCast_nonneg start) (by omega)
  have hmono := hq.line_mono hp hle
  have hreached := (lineStart_le_iff hstart).mp (Int.le_refl (start : Int))
  have hsame : (src.positionAt start).line = p.line := by omega
  refine ⟨hq, hsame, ?_⟩
  -- The line of the line start starts there.
  obtain ⟨-, start', hstart', hoffset', -⟩ := hq.exists_lineStart
  rw [hsame, hstart] at hstart'
  obtain rfl := Option.some.inj hstart'
  have hplace : (src.positionAt start).offset = start := rfl
  omega

/-- Between the lines of two positions in order there is a line. -/
theorem linesBetween_ne_nil (hp : src.IsCanonical p) (hq : src.IsCanonical q)
    (h : p.offset ≤ q.offset) : src.linesBetween p.line q.line ≠ [] := by
  obtain ⟨hline, start, hstart, -⟩ := hp.exists_lineStart
  have hmono := hp.line_mono hq h
  have hlt := (List.getElem?_eq_some_iff.mp hstart).1
  have hlength : src.lineStarts.length = src.lines.length := Text.length_lineStarts src.text
  rw [← List.length_pos_iff, linesBetween, List.length_drop, List.length_take]
  omega

/-! ## Ranges of the text -/

theorem containsSpan_iff {span : Span} :
    src.containsSpan span = true ↔ 0 ≤ span.start.offset ∧
      span.start.offset ≤ span.stop.offset ∧ span.stop.offset ≤ src.length := by
  rw [containsSpan, Bool.and_eq_true, Bool.and_eq_true, decide_eq_true_eq, decide_eq_true_eq,
    decide_eq_true_eq, and_assoc]

/-- A text lies in itself. -/
theorem containsSpan_wholeSpan : src.containsSpan src.wholeSpan = true :=
  containsSpan_iff.mpr ⟨Int.le_refl 0, Int.natCast_nonneg _, Int.le_refl _⟩

theorem containsSpan_spanOf {start stop : Int} :
    src.containsSpan (src.spanOf start stop) = true ↔
      0 ≤ start ∧ start ≤ stop ∧ stop ≤ src.length :=
  containsSpan_iff

/-- The lines of a text lie in it. -/
theorem containsSpan_lineSpan {line : String} {start : Nat} (number : Nat)
    (h : (line, start) ∈ src.lines.zip src.lineStarts) :
    src.containsSpan (lineSpan number start line.toList.length) = true := by
  have hmem : (line.toList, start) ∈
      (Text.splitChars '\n' src.text.toList).zip (0 :: Text.startsAfter 0 src.text.toList) := by
    rw [lines, Text.lines, Text.splitAt, List.zip_map_left] at h
    obtain ⟨⟨chars, start'⟩, hmem, heq⟩ := List.mem_map.mp h
    obtain ⟨rfl, rfl⟩ := Prod.mk.inj heq
    rwa [String.toList_ofList]
  have hle := Text.le_of_mem_zip_startsAfter hmem
  have hlength : src.text.toList.length = src.length := String.length_toList
  refine containsSpan_iff.mpr ⟨Int.natCast_nonneg _, ?_, ?_⟩ <;> simp only [lineSpan] <;> omega

/-- The text of a span is as long as the span. -/
theorem length_textAt {span : Span} (h : src.containsSpan span = true) :
    ((src.textAt span).toList.length : Int) = span.stop.offset - span.start.offset := by
  obtain ⟨hpos, hle, hstop⟩ := containsSpan_iff.mp h
  have hlength : src.text.toList.length = src.length := String.length_toList
  have hbound : ∀ {i : Int}, 0 ≤ i → i ≤ src.length →
      Text.bound src.text.toList.length i = i.toNat := by
    intro i hi hlast
    unfold Text.bound
    split <;> omega
  rw [textAt, Text.slice, String.toList_ofList, Text.sliceList, List.length_drop, List.length_take,
    hbound hpos (by omega), hbound (by omega) hstop]
  omega

/-- The text up to the end of a range is the text before the range and that of the range. -/
theorem take_eq_append_textAt {span : Span} {n m : Nat}
    (hstart : span.start.offset = n) (hstop : span.stop.offset = m) (hle : n ≤ m)
    (hlength : m ≤ src.length) :
    src.text.toList.take m = src.text.toList.take n ++ (src.textAt span).toList := by
  have hchars : m ≤ src.text.toList.length := by
    rw [String.length_toList]
    exact hlength
  rw [textAt, Text.slice, String.toList_ofList, hstart, hstop, Text.sliceList_of_le hchars,
    Nat.min_eq_left (Nat.le_trans hle hchars)]
  conv_lhs => rw [← List.take_append_drop n (src.text.toList.take m), List.take_take,
    Nat.min_eq_left hle]

/-- The range between parentheses is a range of the text. -/
theorem containsSpan_parenthesizedBody? {span body : Span} (hspan : src.IsCanonical span.start)
    (h : parenthesizedBody? src span = some body) : src.containsSpan body = true := by
  obtain ⟨hstart, hstop⟩ := isCanonical_parenthesizedBody? hspan h
  refine containsSpan_iff.mpr ⟨hstart.nonneg, ?_, hstop.le_length⟩
  unfold parenthesizedBody? at h
  dsimp only at h
  split at h
  case h_2 => cases h
  case h_1 opening fromEnd _ _ =>
    split at h
    case isFalse => cases h
    case isTrue hlt =>
      obtain rfl := Option.some.inj h
      show span.start.offset + opening + 1 ≤ span.start.offset + _
      omega

end SourceText

end GoConventions
