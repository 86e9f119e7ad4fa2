import GoConventions.Text.Search
import GoConventions.Text.Blank
import Mathlib.Data.List.DropRight

/-!
# Trimming

A text is trimmed of the characters at its end up to the last one that stays, so what is left ends
in a character that stays, and a list that ends so is left as it is.  Both ends of a text can be
trimmed in any order, and blanks that go with the end of a part go with the end of the whole
(`trimChars_append_dropEndWhile`).

## Main definitions

* `EndsOutside p`: the last character, if there is one, does not satisfy `p`.

## Main results

* `dropEndWhile_eq_self_iff`, `endsOutside_dropEndWhile`: what is left when the end is trimmed.
* `trimChars_concat`: a character that is no blank keeps everything before it.
* `trimChars_eq_dropWhile_iff`: when there is nothing to be trimmed at the end.
-/

namespace GoConventions.Text

variable {p : Char → Bool} {s t blanks : List Char}

/-- A list does not end in a character that satisfies `p`. -/
def EndsOutside (p : Char → Bool) (s : List Char) : Prop :=
  ∀ c ∈ s.getLast?, p c = false

theorem endsOutside_concat {c : Char} (hc : p c = false) : EndsOutside p (s ++ [c]) := by
  intro d hd
  rw [List.getLast?_concat] at hd
  rwa [← Option.some.inj hd]

/-- How a list ends is how its last part ends. -/
theorem endsOutside_append_iff (ht : t ≠ []) : EndsOutside p (s ++ t) ↔ EndsOutside p t := by
  rw [EndsOutside, EndsOutside, List.getLast?_append_of_ne_nil _ ht]

/-! ## Trimming the end -/

theorem dropEndWhile_eq_rdropWhile : dropEndWhile p s = s.rdropWhile p := rfl

theorem dropEndWhile_eq_self_iff : dropEndWhile p s = s ↔ EndsOutside p s := by
  rw [dropEndWhile_eq_rdropWhile, List.rdropWhile_eq_self_iff, EndsOutside]
  constructor
  · intro h c hc
    obtain ⟨hne, hlast⟩ := List.mem_getLast?_eq_getLast hc
    exact Bool.eq_false_iff.mpr (hlast ▸ h hne)
  · intro h hne
    exact Bool.eq_false_iff.mp (h _ (List.getLast?_eq_some_getLast hne))

theorem dropEndWhile_append_of_all (h : ∀ c ∈ blanks, p c = true) :
    dropEndWhile p (s ++ blanks) = dropEndWhile p s := by
  rw [dropEndWhile, List.reverse_append, List.dropWhile_append_of_pos, dropEndWhile]
  exact fun c hc => h c (List.mem_reverse.mp hc)

/-- A list is what is left of it and characters that go. -/
theorem exists_eq_dropEndWhile_append (p : Char → Bool) (s : List Char) :
    ∃ blanks, s = dropEndWhile p s ++ blanks ∧ ∀ c ∈ blanks, p c = true :=
  ⟨s.rtakeWhile p, List.rdropWhile_append_rtakeWhile.symm, fun _ => List.mem_rtakeWhile_imp⟩

theorem endsOutside_dropEndWhile : EndsOutside p (dropEndWhile p s) :=
  dropEndWhile_eq_self_iff.mp (List.rdropWhile_idempotent p s)

/-- What goes at the end is what follows the last character that stays. -/
theorem takeWhile_reverse_append (hs : EndsOutside p s) (h : ∀ c ∈ blanks, p c = true) :
    (s ++ blanks).reverse.takeWhile p = blanks.reverse := by
  have hnone : s.reverse.takeWhile p = [] := by
    rw [← List.length_eq_zero_iff]
    have hlength := congrArg List.length (List.takeWhile_append_dropWhile (p := p) (l := s.reverse))
    rw [List.length_append, ← @List.length_reverse _ (s.reverse.dropWhile p), ← dropEndWhile,
      dropEndWhile_eq_self_iff.mpr hs, List.length_reverse] at hlength
    omega
  rw [List.reverse_append, List.takeWhile_append_of_pos fun c hc => h c (List.mem_reverse.mp hc),
    hnone, List.append_nil]

/-! ## Trimming both ends -/

/-- Blanks at the end go. -/
theorem trimChars_append_of_all (h : ∀ c ∈ blanks, isBlank c = true) :
    trimChars (s ++ blanks) = trimChars s := by
  rw [trimChars, List.dropWhile_append]
  split
  case isTrue hempty =>
    rw [List.dropWhile_eq_nil_iff.mpr h, trimChars, List.isEmpty_iff.mp hempty]
  case isFalse => rw [dropEndWhile_append_of_all h, trimChars]

/-- Blanks that go with the end of a part go with the end of the whole. -/
theorem trimChars_append_dropEndWhile :
    trimChars (s ++ dropEndWhile isBlank t) = trimChars (s ++ t) := by
  obtain ⟨blanks, ht, hblanks⟩ := exists_eq_dropEndWhile_append isBlank t
  conv_rhs => rw [ht, ← List.append_assoc, trimChars_append_of_all hblanks]

/-- **A character that is no blank keeps everything before it**, but for the blanks at the start. -/
theorem trimChars_concat {c : Char} (hc : isBlank c = false) :
    trimChars (s ++ [c]) = s.dropWhile isBlank ++ [c] := by
  have hstart : (s ++ [c]).dropWhile isBlank = s.dropWhile isBlank ++ [c] := by
    rw [List.dropWhile_append, List.dropWhile_cons_of_neg (by simp [hc])]
    split
    case isTrue hempty => rw [List.isEmpty_iff.mp hempty, List.nil_append]
    case isFalse => rfl
  rw [trimChars, hstart, dropEndWhile_eq_self_iff.mpr (endsOutside_concat hc)]

/-- What is left when the start is trimmed ends as before. -/
theorem endsOutside_dropWhile_iff (h : s.dropWhile isBlank ≠ []) :
    EndsOutside p (s.dropWhile isBlank) ↔ EndsOutside p s := by
  conv_rhs => rw [← List.takeWhile_append_dropWhile (p := isBlank) (l := s)]
  exact (endsOutside_append_iff h).symm

/-- **There is nothing to be trimmed at the end** of a text that is not blank exactly when it does
not end in a blank. -/
theorem trimChars_eq_dropWhile_iff (h : trimChars s ≠ []) :
    trimChars s = s.dropWhile isBlank ↔ EndsOutside isBlank s := by
  have hstart : s.dropWhile isBlank ≠ [] := fun hnil => h (by rw [trimChars, hnil]; rfl)
  rw [trimChars, dropEndWhile_eq_self_iff, endsOutside_dropWhile_iff hstart]

end GoConventions.Text
