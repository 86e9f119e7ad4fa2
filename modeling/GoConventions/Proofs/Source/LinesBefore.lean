import GoConventions.Proofs.Source.JoinedLines
import GoConventions.Proofs.Source.Lines

/-!
# Positions by the text before them

A position is told by the text before it: its line is the number of lines of that text, and its
column is the place after the last of them.  So when texts are put together from parts, the
positions in them are found from how lines are put together: text without line feeds goes on with
the last line (`splitChars_append_of_notMem`), and a line feed begins another one
(`splitChars_append`).

## Main definitions

* `Text.lastLine`: the last line of a list of characters.

## Main results

* `SourceText.line_positionAt`, `SourceText.column_positionAt`: the line and the column of an
  offset.
* `SourceText.lineBefore_positionAt`: what stands before an offset on its line.
-/

namespace GoConventions

namespace Text

/-! ## Last lines -/

/-- The last line feed divides a list of characters. -/
theorem exists_eq_append_cons_of_mem {chars : List Char} (h : '\n' ∈ chars) :
    ∃ first last, chars = first ++ '\n' :: last ∧ '\n' ∉ last := by
  obtain ⟨last, first, hreverse, hlast⟩ := List.eq_append_cons_of_mem (List.mem_reverse.mpr h)
  refine ⟨first.reverse, last.reverse, ?_, mt List.mem_reverse.mp hlast⟩
  rw [← List.reverse_reverse chars, hreverse, List.reverse_append, List.reverse_cons,
    List.append_assoc]
  rfl

/-- The last line of a list of characters. -/
def lastLine (chars : List Char) : List Char :=
  (splitChars '\n' chars).getLast (splitChars_ne_nil '\n' chars)

/-- What comes after a line feed has the last line. -/
theorem lastLine_append_cons (before after : List Char) :
    lastLine (before ++ '\n' :: after) = lastLine after := by
  simp only [lastLine, splitChars_append]
  exact List.getLast_append_of_ne_nil _ (splitChars_ne_nil '\n' after)

theorem lastLine_eq_self {chars : List Char} (h : '\n' ∉ chars) : lastLine chars = chars := by
  simp only [lastLine, splitChars_eq_singleton h, List.getLast_singleton]

/-- **Text without line feeds goes on with the last line.** -/
theorem splitChars_append_of_notMem {before after : List Char} (h : '\n' ∉ after) :
    splitChars '\n' (before ++ after) =
      (splitChars '\n' before).dropLast ++ [lastLine before ++ after] := by
  by_cases hbefore : '\n' ∈ before
  · obtain ⟨first, last, rfl, hlast⟩ := exists_eq_append_cons_of_mem hbefore
    rw [List.append_assoc, List.cons_append, splitChars_append,
      splitChars_eq_singleton (List.not_mem_append hlast h), lastLine_append_cons,
      lastLine_eq_self hlast, splitChars_append, splitChars_eq_singleton hlast,
      List.dropLast_concat]
  · rw [splitChars_eq_singleton (List.not_mem_append hbefore h), lastLine_eq_self hbefore,
      splitChars_eq_singleton hbefore]
    rfl

theorem lastLine_append_of_notMem {before after : List Char} (h : '\n' ∉ after) :
    lastLine (before ++ after) = lastLine before ++ after := by
  simp only [lastLine, splitChars_append_of_notMem h, List.getLast_concat]

theorem length_lastLine_le (chars : List Char) : (lastLine chars).length ≤ chars.length := by
  by_cases h : '\n' ∈ chars
  · obtain ⟨first, last, rfl, hlast⟩ := exists_eq_append_cons_of_mem h
    rw [lastLine_append_cons, lastLine_eq_self hlast, List.length_append, List.length_cons]
    omega
  · exact Nat.le_of_eq (congrArg List.length (lastLine_eq_self h))

/-- There is one line more than there are line feeds. -/
theorem length_splitChars (chars : List Char) :
    (splitChars '\n' chars).length = chars.count '\n' + 1 := by
  -- The lines are counted by their starts, which are listed one at a time.
  induction chars with
  | nil => rfl
  | cons c chars ih =>
    rw [← length_startsAfter 0 (c :: chars), startsAfter, List.count_cons]
    rw [← length_startsAfter 1 chars] at ih
    split
    · rename_i hc
      rw [hc, List.length_cons, ih]
      rfl
    · rename_i hc
      rw [ih, if_neg (by simpa using hc), Nat.add_zero]

/-- The line that is the last one before a place goes on after it. -/
theorem exists_getElem?_splitChars (before after : List Char) :
    ∃ rest, (splitChars '\n' (before ++ after))[before.count '\n']? =
      some (lastLine before ++ rest) := by
  have hindex : before.count '\n' = (splitChars '\n' before).dropLast.length := by
    rw [List.length_dropLast, length_splitChars, Nat.add_sub_cancel]
  by_cases hafter : '\n' ∈ after
  · -- The line goes on to the first line feed.
    obtain ⟨rest, last, rfl, hrest⟩ := List.eq_append_cons_of_mem hafter
    refine ⟨rest, ?_⟩
    rw [← List.append_assoc, splitChars_append, splitChars_append_of_notMem hrest, hindex,
      List.append_assoc]
    exact List.getElem?_append_right (Nat.le_refl _) |>.trans (by rw [Nat.sub_self]; rfl)
  · refine ⟨after, ?_⟩
    rw [splitChars_append_of_notMem hafter, hindex]
    exact List.getElem?_concat_length

/-! ## Line starts -/

/-- The lines that start up to an offset are those of the text before it. -/
theorem takeWhile_startsAfter (i n : Nat) (chars : List Char) :
    (startsAfter i chars).takeWhile (fun (start : Nat) => (start : Int) ≤ (i + n : Nat)) =
      startsAfter i (chars.take n) := by
  induction chars generalizing i n with
  | nil => rw [List.take_nil]; rfl
  | cons c chars ih =>
    cases n with
    | zero =>
      -- Every line but the first starts later.
      have hlater : ∀ start ∈ startsAfter i (c :: chars), ¬ (start : Int) ≤ (i + 0 : Nat) := by
        intro start hstart
        have hlt := SourceText.lt_of_mem_startsAfter hstart
        omega
      rw [List.take_zero]
      cases hstarts : startsAfter i (c :: chars) with
      | nil => rfl
      | cons start starts =>
        rw [List.takeWhile_cons_of_neg (by
          simpa using hlater start (by rw [hstarts]; exact List.mem_cons_self))]
        rfl
    | succ n =>
      have hnext := ih (i + 1) n
      rw [show i + 1 + n = i + (n + 1) by omega] at hnext
      rw [List.take_succ_cons, startsAfter, startsAfter]
      split
      · rw [List.takeWhile_cons_of_pos, hnext]
        exact decide_eq_true (by omega)
      · exact hnext

theorem startsAfter_eq_nil {chars : List Char} (h : '\n' ∉ chars) (i : Nat) :
    startsAfter i chars = [] := by
  have hlength := length_startsAfter i chars
  rw [splitChars_eq_singleton h] at hlength
  exact List.eq_nil_of_length_eq_zero (Nat.succ.inj hlength)

theorem startsAfter_append_cons (i : Nat) (before after : List Char) :
    startsAfter i (before ++ '\n' :: after) =
      startsAfter i before ++
        (i + before.length + 1) :: startsAfter (i + before.length + 1) after := by
  induction before generalizing i with
  | nil => exact if_pos rfl
  | cons c before ih =>
    have hnext := ih (i + 1)
    rw [show i + 1 + before.length = i + (before.length + 1) by omega] at hnext
    rw [List.cons_append, startsAfter, startsAfter, hnext, List.length_cons]
    split <;> rfl

/-- The last line reaches from where it starts to the end. -/
theorem getLast?_startsAfter (i : Nat) (chars : List Char) :
    (i :: startsAfter i chars).getLast? = some (i + chars.length - (lastLine chars).length) := by
  by_cases h : '\n' ∈ chars
  · obtain ⟨first, rest, rfl, hrest⟩ := exists_eq_append_cons_of_mem h
    rw [startsAfter_append_cons, startsAfter_eq_nil hrest, lastLine_append_cons,
      lastLine_eq_self hrest, ← List.cons_append, List.getLast?_concat, List.length_append,
      List.length_cons]
    congr 1
    omega
  · rw [startsAfter_eq_nil h, lastLine_eq_self h, Nat.add_sub_cancel]
    rfl

end Text

/-! ## Positions -/

namespace SourceText

variable {src : SourceText} {n : Nat}

theorem begun_eq (src : SourceText) (n : Nat) :
    src.lineStarts.takeWhile (fun (start : Nat) => (start : Int) ≤ (n : Int)) =
      0 :: Text.startsAfter 0 (src.text.toList.take n) := by
  rw [lineStarts, Text.lineStarts, List.takeWhile_cons_of_pos (by simp)]
  have hbegun := Text.takeWhile_startsAfter 0 n src.text.toList
  rw [Nat.zero_add] at hbegun
  rw [hbegun]

/-- **The line of an offset** is the number of lines of the text before it. -/
theorem line_positionAt (src : SourceText) (n : Nat) :
    (src.positionAt n).line = (src.text.toList.take n).count '\n' + 1 := by
  simp only [positionAt, begun_eq]
  rw [List.length_cons, Text.length_startsAfter, Text.length_splitChars]
  rfl

/-- **The column of an offset** is the place after the last line of the text before it. -/
theorem column_positionAt (h : n ≤ src.length) :
    (src.positionAt n).column = (Text.lastLine (src.text.toList.take n)).length + 1 := by
  have hlength : src.text.toList.length = src.length := String.length_toList
  have htake : (src.text.toList.take n).length = n := by
    rw [List.length_take]
    omega
  have hlast : (Text.lastLine (src.text.toList.take n)).length ≤ n :=
    Nat.le_trans (Text.length_lastLine_le _) (Nat.le_of_eq htake)
  simp only [positionAt, begun_eq]
  rw [Text.getLast?_startsAfter, htake, Option.some_or, Option.getD_some]
  omega

/-- **What stands before an offset on its line** is the last line of the text before it. -/
theorem lineBefore_positionAt (h : n ≤ src.length) :
    (src.lineBefore (src.positionAt n)).toList = Text.lastLine (src.text.toList.take n) := by
  have hline := line_positionAt src n
  obtain ⟨rest, hrest⟩ := Text.exists_getElem?_splitChars (src.text.toList.take n)
    (src.text.toList.drop n)
  rw [List.take_append_drop] at hrest
  have htext : src.lineText (src.positionAt n).line =
      String.ofList (Text.lastLine (src.text.toList.take n) ++ rest) := by
    rw [lineText, if_neg (by omega), hline, lines, Text.lines, Text.splitAt, List.getElem?_map,
      show (((src.text.toList.take n).count '\n' + 1 : Int) - 1).toNat =
        (src.text.toList.take n).count '\n' by omega, hrest]
    rfl
  rw [lineBefore, htext, column_positionAt h, Int.add_sub_cancel, Text.upTo, String.toList_ofList,
    String.toList_ofList, Text.bound_natCast, String.length_ofList, List.length_append,
    Nat.min_eq_left (Nat.le_add_right _ _), List.take_left]

end SourceText

end GoConventions
