import GoConventions.Text.Blank
import GoConventions.Text.Lines

/-!
# Lines that are joined

A line feed divides a text: its lines are those before the line feed and those after it
(`splitChars_append`, `lines_append`).  So lines that are joined by line feeds are read back as they
were.  In the same way a blank line divides lines into blocks (`blocksOf_append`), and blocks that
are joined by blank lines are read back.

## Main definitions

* `Text.IsLine`: a text is a line, and not a blank one.
* `Text.blocks`: the blocks of a text, each the longest run of lines that are not blank.

## Main results

* `Text.lines_intercalate`: lines that are joined by line feeds.
* `Text.blocks_intercalate`: blocks that are joined by blank lines.
-/

namespace GoConventions.Text

/-! ## Lines -/

/-- **A separator divides a list**: its parts are those before it and those after it. -/
theorem splitChars_append (sep : Char) (before after : List Char) :
    splitChars sep (before ++ sep :: after) = splitChars sep before ++ splitChars sep after := by
  induction before with
  | nil => rw [List.nil_append, splitChars.eq_2, if_pos rfl, splitChars, List.singleton_append]
  | cons c before ih =>
    rw [List.cons_append, splitChars, splitChars, ih]
    split
    · rfl
    -- A character that does not separate goes to the first part, which there always is.
    · cases hsplit : splitChars sep before with
      | nil => exact absurd hsplit (splitChars_ne_nil sep before)
      | cons part parts => rfl

theorem splitChars_eq_singleton {sep : Char} {chars : List Char} (h : sep ∉ chars) :
    splitChars sep chars = [chars] := by
  induction chars with
  | nil => rfl
  | cons c chars ih =>
    obtain ⟨hc, hchars⟩ := not_or.mp (mt List.mem_cons.mpr h)
    rw [splitChars, if_neg (Ne.symm hc), ih hchars]

/-- **A line feed divides a text**: its lines are those before it and those after it. -/
theorem lines_append (before after : String) :
    lines (before ++ "\n" ++ after) = lines before ++ lines after := by
  have hchars : (before ++ "\n" ++ after).toList = before.toList ++ '\n' :: after.toList := by
    rw [String.toList_append, String.toList_append, List.append_assoc]
    rfl
  rw [lines, splitAt, hchars, splitChars_append, List.map_append]
  rfl

theorem lines_eq_singleton {line : String} (h : '\n' ∉ line.toList) : lines line = [line] := by
  rw [lines, splitAt, splitChars_eq_singleton h, List.map_singleton, String.ofList_toList]

/-- **Lines that are joined by line feeds are read back.** -/
theorem lines_intercalate {parts : List String} (hne : parts ≠ [])
    (h : ∀ part ∈ parts, '\n' ∉ part.toList) : lines ("\n".intercalate parts) = parts := by
  induction parts with
  | nil => exact absurd rfl hne
  | cons part parts ih =>
    obtain ⟨hpart, hparts⟩ := List.forall_mem_cons.mp h
    cases parts with
    | nil => rw [String.intercalate_singleton, lines_eq_singleton hpart]
    | cons next parts =>
      rw [String.intercalate_cons_cons, lines_append, lines_eq_singleton hpart,
        ih (List.cons_ne_nil _ _) hparts, List.singleton_append]

/-! ## Blocks -/

/-- A text is a line that is not blank. -/
structure IsLine (s : String) : Prop where
  notMem : '\n' ∉ s.toList
  notBlank : isBlankText s = false

instance (s : String) : Decidable (IsLine s) :=
  decidable_of_iff ('\n' ∉ s.toList ∧ isBlankText s = false)
    ⟨fun h => ⟨h.1, h.2⟩, fun h => ⟨h.1, h.2⟩⟩

/-- A line stays one behind a tab. -/
theorem IsLine.indent {s : String} (h : IsLine s) : IsLine ("\t" ++ s) where
  notMem := by
    rw [String.toList_append]
    exact List.not_mem_append (by decide) h.notMem
  notBlank := by
    have hblank := h.notBlank
    rw [isBlankText] at hblank ⊢
    rw [String.toList_append, List.all_append, hblank, Bool.and_false]

/-- The longest runs of lines that are not blank. -/
def blocksOf (content : List String) : List (List String) :=
  (content.splitOnP isBlankText).filter (!·.isEmpty)

/-- The blocks of a text: what is between its blank lines. -/
def blocks (s : String) : List (List String) :=
  blocksOf (lines s)

theorem blocksOf_nil : blocksOf [] = [] := rfl

/-- **A blank line divides lines into blocks.** -/
theorem blocksOf_append {blank : String} (h : isBlankText blank = true)
    (before after : List String) :
    blocksOf (before ++ blank :: after) = blocksOf before ++ blocksOf after := by
  rw [blocksOf, List.splitOnP_append_cons before after h, List.filter_append]
  rfl

theorem blocksOf_eq_singleton {block : List String} (hne : block ≠ [])
    (h : ∀ line ∈ block, isBlankText line = false) : blocksOf block = [block] := by
  rw [blocksOf, List.splitOnP_eq_singleton h,
    List.filter_cons_of_pos (by simpa using hne), List.filter_nil]

theorem lines_empty : lines "" = [""] := rfl

theorem blocks_append_blank (before after : String) :
    blocks (before ++ "\n\n" ++ after) = blocks before ++ blocks after := by
  have hfeeds : before ++ "\n\n" ++ after = before ++ "\n" ++ ("" ++ "\n" ++ after) := by
    rw [String.empty_append, show "\n\n" = "\n" ++ "\n" from rfl]
    simp only [String.append_assoc]
  rw [hfeeds, blocks, lines_append, lines_append, lines_empty, List.singleton_append,
    blocksOf_append rfl]
  rfl

/-- Line feeds around a text do not change its blocks. -/
theorem blocks_surround (s : String) : blocks ("\n" ++ s ++ "\n") = blocks s := by
  -- The line feeds put an empty line before the text and one behind it.
  have hfeeds : "\n" ++ s ++ "\n" = "" ++ "\n" ++ (s ++ "\n" ++ "") := by
    rw [String.empty_append, String.append_empty, String.append_assoc]
  rw [hfeeds, blocks, lines_append, lines_append, lines_empty, List.singleton_append,
    ← List.nil_append ("" :: _), blocksOf_append rfl, blocksOf_append rfl, blocksOf_nil,
    List.nil_append, List.append_nil]
  rfl

theorem blocks_lines {block : List String} (hne : block ≠ [])
    (h : ∀ line ∈ block, IsLine line) : blocks ("\n".intercalate block) = [block] := by
  rw [blocks, lines_intercalate hne fun line hline => (h line hline).notMem,
    blocksOf_eq_singleton hne fun line hline => (h line hline).notBlank]

/-- **Blocks that are joined by blank lines are read back.** -/
theorem blocks_intercalate {parts : List (List String)} (hne : ∀ block ∈ parts, block ≠ [])
    (h : ∀ block ∈ parts, ∀ line ∈ block, IsLine line) :
    blocks ("\n\n".intercalate (parts.map "\n".intercalate)) = parts := by
  induction parts with
  | nil => rfl
  | cons block parts ih =>
    obtain ⟨hblockNe, hpartsNe⟩ := List.forall_mem_cons.mp hne
    obtain ⟨hblock, hparts⟩ := List.forall_mem_cons.mp h
    cases parts with
    | nil => rw [List.map_singleton, String.intercalate_singleton, blocks_lines hblockNe hblock]
    | cons next parts =>
      rw [List.map_cons, List.map_cons, String.intercalate_cons_cons, blocks_append_blank,
        blocks_lines hblockNe hblock, ← List.map_cons, ih hpartsNe hparts, List.singleton_append]

end GoConventions.Text
