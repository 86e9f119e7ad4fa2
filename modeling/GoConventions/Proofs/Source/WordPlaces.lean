import GoConventions.Proofs.Source.Words

/-!
# Where the words of a name stand

The words of a name stand one after the other, each where its offset says, and together they are all
of its letters and digits of ASCII (`tokenizes_wordsWithOffsets`).  What follows a word in the name
is what the scanner saw when it cut the word off (`Divides.exists_isFirstWord_of_mem`), so the
condition on what may follow a run of capitals holds in the name itself.

## Main definitions

* `IsCapitalWord`, `IsLetterWord`, `IsDigitWord`: the forms of words.
* `Tokenizes`: words with their offsets are the words of a name.

## Main results

* `Divides.isAlphanum_iff`: which characters of a text stand in its words.
* `tokenizes_wordsWithOffsets`: the words of every name.
-/

namespace GoConventions

/-! ## Forms of words -/

/-- Capitals with digits after them. -/
def IsCapitalWord (word : List Char) : Prop :=
  ∃ cs ds, word = cs ++ ds ∧ cs ≠ [] ∧ (∀ c ∈ cs, c.isUpper = true) ∧ ∀ d ∈ ds, d.isDigit = true

/-- Small letters, with at most one capital before them and digits after them. -/
def IsLetterWord (word : List Char) : Prop :=
  ∃ (first : Option Char) (ss ds : List Char), word = first.toList ++ (ss ++ ds) ∧
    (∀ c ∈ first, c.isUpper = true) ∧ ss ≠ [] ∧ (∀ s ∈ ss, s.isLower = true) ∧
    ∀ d ∈ ds, d.isDigit = true

/-- Digits only. -/
def IsDigitWord (word : List Char) : Prop :=
  word ≠ [] ∧ ∀ d ∈ word, d.isDigit = true

/-- The offset behind a word that stands at an offset. -/
def wordEnd (entry : String × Nat) : Nat :=
  entry.2 + entry.1.length

/-- Words with their offsets are the words of a name: they are not empty, stand one after the other
where their offsets say, and are together its letters and digits of ASCII.  Each has one of the
three forms, and no small letter follows a word of capitals. -/
structure Tokenizes (name : String) (words : List (String × Nat)) : Prop where
  nonempty : ∀ entry ∈ words, entry.1 ≠ ""
  ascending : words.Pairwise fun first second => first.2 < second.2
  apart : words.Pairwise fun first second => wordEnd first ≤ second.2
  stands : ∀ entry ∈ words,
    (name.toList.drop entry.2).take entry.1.length = entry.1.toList
  covers : ∀ i c, name.toList[i]? = some c →
    (c.isAlphanum = true ↔ ∃ entry ∈ words, entry.2 ≤ i ∧ i < wordEnd entry)
  form : ∀ entry ∈ words, IsCapitalWord entry.1.toList ∨ IsLetterWord entry.1.toList ∨
    IsDigitWord entry.1.toList
  /-- A run of capitals leaves its last capital, or its last digit, to the small letters. -/
  capitalEnd : ∀ entry ∈ words, IsCapitalWord entry.1.toList →
    ∀ c, name.toList[wordEnd entry]? = some c → c.isLower = false

namespace IsFirstWord

variable {word rest : List Char}

theorem form (h : IsFirstWord word rest) :
    IsCapitalWord word ∨ IsLetterWord word ∨ IsDigitWord word := by
  cases h with
  | digits hne hds => exact Or.inr (Or.inr ⟨hne, hds⟩)
  | capitals hne hcs hds => exact Or.inl ⟨_, _, rfl, hne, hcs, hds⟩
  | @small ss ds _ hne hss hds =>
    exact Or.inr (Or.inl ⟨none, ss, ds, rfl, nofun, hne, hss, hds⟩)
  | @title c ss ds _ hc hne hss hds =>
    exact Or.inr (Or.inl ⟨some c, ss, ds, rfl, by simpa using hc, hne, hss, hds⟩)

/-- What follows a word of capitals does not begin with a small letter, wherever the word stands: a
word of another form has small letters, or begins with a digit. -/
theorem stopsAt_of_isCapitalWord (h : IsFirstWord word rest) (hword : IsCapitalWord word) :
    StopsAt Char.isLower rest := by
  obtain ⟨cs, ds, hcut, hne, hcs, hds⟩ := hword
  have hnone : ∀ c ∈ word, c.isLower = false := by
    intro c hc
    rcases List.mem_append.mp (hcut ▸ hc) with hc | hc
    · exact Text.not_isLower_of_isUpper (hcs c hc)
    · exact Text.not_isLower_of_isDigit (hds c hc)
  have hsmall : ∀ ss : List Char, ss ≠ [] → (∀ s ∈ ss, s.isLower = true) → ¬ ss ⊆ word := by
    intro ss hss hlower hsubset
    obtain ⟨s, hs⟩ := List.exists_mem_of_ne_nil ss hss
    exact absurd (hlower s hs) (by simp [hnone s (hsubset hs)])
  cases h with
  | digits _ hdigits =>
    obtain ⟨c, hc⟩ := List.exists_mem_of_ne_nil cs hne
    have hdigit := hdigits c (hcut ▸ List.mem_append_left ds hc)
    exact absurd (hcs c hc) (by simp [Text.not_isUpper_of_isDigit hdigit])
  | capitals _ _ _ hend => exact hend
  | small hss hlower =>
    exact absurd (List.subset_append_left _ _) (hsmall _ hss hlower)
  | title _ hss hlower =>
    exact absurd (List.subset_cons_of_subset _ (List.subset_append_left _ _)) (hsmall _ hss hlower)

end IsFirstWord

/-! ## Places in a text -/

namespace Divides

variable {i : Nat} {s chars : List Char} {words : List (String × Nat)} {entry : String × Nat}

theorem le_of_mem (h : Divides i s words) (hentry : entry ∈ words) : i ≤ entry.2 := by
  induction h with
  | nil => cases hentry
  | other _ _ ih => exact Nat.le_of_succ_le (ih hentry)
  | word _ _ ih =>
    rcases List.mem_cons.mp hentry with rfl | hentry
    · exact Nat.le_refl _
    · exact Nat.le_trans (Nat.le_add_right _ _) (ih hentry)

theorem pairwise (h : Divides i s words) :
    words.Pairwise fun first second => wordEnd first ≤ second.2 := by
  induction h with
  | nil => exact .nil
  | other _ _ ih => exact ih
  | word _ hrest ih =>
    refine .cons (fun entry hentry => ?_) ih
    simpa [wordEnd] using hrest.le_of_mem hentry

/-- A word stands in the text as the first word of what begins at its offset. -/
theorem exists_isFirstWord_of_mem (h : Divides i s words) (hchars : chars.drop i = s)
    (hentry : entry ∈ words) :
    ∃ rest, chars.drop entry.2 = entry.1.toList ++ rest ∧
      IsFirstWord entry.1.toList rest := by
  induction h with
  | nil => cases hentry
  | other _ _ ih =>
    refine ih ?_ hentry
    rw [← List.drop_drop, hchars, List.drop_one, List.tail_cons]
  | @word i word rest words hword _ ih =>
    rcases List.mem_cons.mp hentry with rfl | hentry
    · exact ⟨rest, by simpa using hchars, by simpa using hword⟩
    · refine ih ?_ hentry
      rw [← List.drop_drop, hchars, List.drop_left]

/-- **The words of a text cover its letters and digits of ASCII**, and nothing else. -/
theorem isAlphanum_iff (h : Divides i s words) (hchars : chars.drop i = s) {k : Nat} {c : Char}
    (hle : i ≤ k) (hc : chars[k]? = some c) :
    c.isAlphanum = true ↔ ∃ entry ∈ words, entry.2 ≤ k ∧ k < wordEnd entry := by
  -- The character stands in what the division has still to go through, at the offset `k - i`.
  have hrest : s[k - i]? = some c := by
    rw [← hchars, List.getElem?_drop, Nat.add_sub_cancel' hle, hc]
  induction h with
  | nil => cases hrest
  | @other i c' rest words hother h ih =>
    rcases Nat.eq_or_lt_of_le hle with rfl | hlt
    · obtain rfl : c' = c := by simpa using hrest
      refine iff_of_false (by simp [hother]) ?_
      rintro ⟨entry, hentry, hstart, -⟩
      exact absurd (h.le_of_mem hentry) (Nat.not_le_of_lt (Nat.lt_succ_of_le hstart))
    · have hlater : chars.drop (i + 1) = rest := by
        rw [← List.drop_drop, hchars, List.drop_one, List.tail_cons]
      exact ih hlater hlt (by rw [← hlater, List.getElem?_drop, Nat.add_sub_cancel' hlt, hc])
  | @word i word rest words hword h ih =>
    have hend : wordEnd (String.ofList word, i) = i + word.length := by simp [wordEnd]
    rw [List.exists_mem_cons_iff, hend]
    rcases Nat.lt_or_ge k (i + word.length) with hlt | hge
    · refine iff_of_true ?_ (Or.inl ⟨hle, hlt⟩)
      rw [List.getElem?_append_left (by omega)] at hrest
      have hisWord : IsWord (String.ofList word) := ⟨rest, by rwa [String.toList_ofList]⟩
      refine hisWord.isAlphanum c ?_
      rw [String.toList_ofList]
      exact List.mem_of_getElem? hrest
    · have hlater : chars.drop (i + word.length) = rest := by
        rw [← List.drop_drop, hchars, List.drop_left]
      rw [or_iff_right fun hin => absurd hin.2 (Nat.not_lt_of_le hge)]
      exact ih hlater hge (by rw [← hlater, List.getElem?_drop, Nat.add_sub_cancel' hge, hc])

end Divides

/-- **The words of a name tokenize it.** -/
theorem tokenizes_wordsWithOffsets (name : String) : Tokenizes name (wordsWithOffsets name) := by
  have h : Divides 0 name.toList (wordsWithOffsets name) := divides_wordsFrom 0 name.toList
  have hplace : ∀ entry ∈ wordsWithOffsets name, ∃ rest,
      name.toList.drop entry.2 = entry.1.toList ++ rest ∧ IsFirstWord entry.1.toList rest :=
    fun entry hentry => h.exists_isFirstWord_of_mem rfl hentry
  have hnonempty : ∀ entry ∈ wordsWithOffsets name, entry.1 ≠ "" := by
    intro entry hentry hempty
    obtain ⟨rest, -, hword⟩ := hplace entry hentry
    exact hword.ne_nil (by rw [hempty]; rfl)
  refine ⟨hnonempty, ?_, h.pairwise, fun entry hentry => ?_, ?_, ?_, ?_⟩
  · refine h.pairwise.imp_of_mem fun {first second} hfirst _ hle => ?_
    have hlength : 0 < first.1.length := Nat.pos_of_ne_zero fun hzero =>
      hnonempty first hfirst (by simpa using hzero)
    rw [wordEnd] at hle
    omega
  · obtain ⟨rest, hdrop, -⟩ := hplace entry hentry
    rw [hdrop, ← String.length_toList, List.take_left]
  · exact fun i c hc => h.isAlphanum_iff rfl (Nat.zero_le i) hc
  · intro entry hentry
    obtain ⟨rest, -, hword⟩ := hplace entry hentry
    exact hword.form
  · intro entry hentry hcapital c hc
    obtain ⟨rest, hdrop, hword⟩ := hplace entry hentry
    refine hword.stopsAt_of_isCapitalWord hcapital c ?_
    rw [wordEnd, ← List.getElem?_drop, hdrop, ← String.length_toList,
      List.getElem?_append_right (Nat.le_refl _), Nat.sub_self] at hc
    rwa [List.head?_eq_getElem?]

end GoConventions
