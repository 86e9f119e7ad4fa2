import GoConventions.Proofs.Source.Words

/-!
# Upper case in all scripts

The upper case of a character is one character or several, and never none, so a text has no fewer
characters in upper case.  What has an upper case of its own is a letter, and so are the characters
of that: no code point of the tables is below that of the capital A.

## Main results

* `length_le_length_upperChars`: upper case has no fewer characters.
* `ne_of_mem_upperChar`: no letter becomes a character that stands before the letters.
* `upperChar_of_isAlphanum`: the upper case of a letter or digit of ASCII.
-/

namespace GoConventions.Text

/-! ## The tables -/

/-- A mapping that is listed as runs has no image below that of the first code point of a run. -/
theorem le_of_imageIn {k n image : Nat} {runs : List (Nat × Nat × Nat × Nat)}
    (hruns : ∀ run ∈ runs, k ≤ run.2.2.2) (h : imageIn n runs = some image) : k ≤ image := by
  induction runs with
  | nil => cases h
  | cons run runs ih =>
    obtain ⟨hfirst, hrest⟩ := List.forall_mem_cons.mp hruns
    rw [imageIn] at h
    split at h
    · cases h
    · split at h
      · split at h
        · rw [← Option.some.inj h]
          exact Nat.le_add_right_of_le hfirst
        · cases h
      · exact ih hrest h

theorem exists_mem_of_longImageIn {n : Nat} {points : List (Nat × List Nat)} {image : List Nat}
    (h : longImageIn n points = some image) : ∃ point ∈ points, point.2 = image := by
  induction points with
  | nil => cases h
  | cons point points ih =>
    rw [longImageIn] at h
    split at h
    · cases h
    · split at h
      · exact ⟨point, List.mem_cons_self, Option.some.inj h⟩
      · obtain ⟨other, hother, himage⟩ := ih h
        exact ⟨other, List.mem_cons_of_mem point hother, himage⟩

/-- The upper case of a character is the character, or it comes from one of the tables. -/
theorem upperChar_cases (c : Char) :
    upperChar c = [c] ∨ (∃ image, 0x41 ≤ image ∧ upperChar c = [Char.ofNat image]) ∨
      ∃ point ∈ longUpper, upperChar c = point.2.map Char.ofNat := by
  have hruns : ∀ run ∈ upperRuns, 0x41 ≤ run.2.2.2 := by decide +kernel
  rw [upperChar]
  split
  · rename_i image himage
    exact Or.inr (Or.inl ⟨image, le_of_imageIn hruns himage, rfl⟩)
  · split
    · rename_i image himage
      obtain ⟨point, hpoint, rfl⟩ := exists_mem_of_longImageIn himage
      exact Or.inr (Or.inr ⟨point, hpoint, rfl⟩)
    · exact Or.inl rfl

/-! ## The number of characters -/

theorem upperChar_ne_nil (c : Char) : upperChar c ≠ [] := by
  have hpoints : ∀ point ∈ longUpper, point.2 ≠ [] := by decide +kernel
  obtain h | ⟨image, -, h⟩ | ⟨point, hpoint, h⟩ := upperChar_cases c
  · exact h ▸ List.cons_ne_nil _ _
  · exact h ▸ List.cons_ne_nil _ _
  · intro hnil
    exact hpoints point hpoint (List.map_eq_nil_iff.mp (h ▸ hnil))

/-- **A text has no fewer characters in upper case.** -/
theorem length_le_length_upperChars (s : List Char) : s.length ≤ (upperChars s).length := by
  induction s with
  | nil => exact Nat.le_refl 0
  | cons c s ih =>
    have hc := List.length_pos_of_ne_nil (upperChar_ne_nil c)
    rw [upperChars] at ih ⊢
    rw [List.flatMap_cons, List.length_append, List.length_cons]
    omega

/-! ## The characters -/

/-- The character of a code point from the letters on is none before them.  What is no code point
stands for the zero character, hence the other condition. -/
theorem ofNat_ne {n : Nat} {d : Char} (hn : 0x41 ≤ n) (hd : d.toNat < 0x41) (hzero : d ≠ '\x00') :
    Char.ofNat n ≠ d := by
  rintro rfl
  by_cases hvalid : n.isValidChar
  · have hpoint : Char.ofNat n = Char.ofNatAux n hvalid := dif_pos hvalid
    rw [hpoint] at hd
    exact absurd hn (Nat.not_le.mpr hd)
  · exact hzero (dif_neg hvalid)

/-- **No other character becomes one that stands before the letters**, such as a blank or a sign. -/
theorem ne_of_mem_upperChar {c d e : Char} (he : e ∈ upperChar c) (hd : d.toNat < 0x41)
    (hzero : d ≠ '\x00') (hc : c ≠ d) : e ≠ d := by
  have hpoints : ∀ point ∈ longUpper, ∀ n ∈ point.2, 0x41 ≤ n := by decide +kernel
  obtain h | ⟨image, himage, h⟩ | ⟨point, hpoint, h⟩ := upperChar_cases c
  · rw [h, List.mem_singleton] at he
    exact he ▸ hc
  · rw [h, List.mem_singleton] at he
    exact he ▸ ofNat_ne himage hd hzero
  · rw [h] at he
    obtain ⟨n, hn, rfl⟩ := List.mem_map.mp he
    exact ofNat_ne (hpoints point hpoint n hn) hd hzero

/-- A letter or digit of ASCII is a capital or a digit in upper case. -/
theorem upperChar_of_isAlphanum {c : Char} (h : c.isAlphanum = true) :
    upperChar c = [c.toUpper] ∧ (c.toUpper.isUpper || c.toUpper.isDigit) = true := by
  have hplain := upperChar_eq_toUpper ⟨c.toNat, toNat_lt_of_isAlphanum h⟩
  rw [Char.ofNat_toNat] at hplain
  refine ⟨hplain, ?_⟩
  rw [isUpper_toUpper]
  cases halpha : c.isAlpha with
  | true => rfl
  | false =>
    rw [Char.isAlphanum, halpha, Bool.false_or] at h
    rw [toUpper_eq_self (not_isLower_of_isDigit h), h, Bool.or_true]

end GoConventions.Text
