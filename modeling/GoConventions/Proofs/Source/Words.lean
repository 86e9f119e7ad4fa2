import Mathlib.Data.List.DropRight
import GoConventions.Source.Name

/-!
# How a name divides into words

The scanner counts the characters of the first word of a text.  What it finds is one of four forms,
each with a condition on what follows (`IsFirstWord`): digits, capitals with digits, small letters
with digits, and a *title*, which is a capital with small letters and digits.  The division of a
text goes from word to word and passes over all characters that are no letters and digits of ASCII
(`Divides`), so that a fact about the words of a name is an induction over its division.

A title is the same word wherever it stands: a run of capitals before it gives up its last one, and
no other word goes on with small letters after a capital.  So the titles of a text can be read off
at each place without regard to what stands before it (`titleAt`).

## Main definitions

* `StopsAt`: a text that does not go on with a class of characters.
* `IsFirstWord`: a word and what follows it.
* `Divides`: a text, from an offset on, has these words.
* `titleAt`: the title that a text begins with.

## Main results

* `divides_wordsFrom`: the words of a name divide it.
* `titleAt_of_isUpper`, `titleAt_of_not_isUpper`, `titleAt_of_stopsAt`: where a title begins.
-/

namespace GoConventions

/-! ## Letters and digits of ASCII -/

namespace Text

section CodePoints

variable {c : Char}

theorem isUpper_iff : c.isUpper = true ↔ 65 ≤ c.toNat ∧ c.toNat ≤ 90 :=
  decide_eq_true_iff.trans (and_congr UInt32.le_iff_toNat_le UInt32.le_iff_toNat_le)

theorem isLower_iff : c.isLower = true ↔ 97 ≤ c.toNat ∧ c.toNat ≤ 122 :=
  Bool.and_eq_true_iff.trans (and_congr
    (decide_eq_true_iff.trans UInt32.le_iff_toNat_le)
    (decide_eq_true_iff.trans UInt32.le_iff_toNat_le))

theorem isAlpha_eq : c.isAlpha = (c.isUpper || c.isLower) := rfl

theorem toNat_toUpper : c.toUpper.toNat = if c.isLower then c.toNat - 32 else c.toNat := by
  have hcond : 'a'.val ≤ c.val ∧ c.val ≤ 'z'.val ↔ c.isLower = true :=
    (and_congr UInt32.le_iff_toNat_le UInt32.le_iff_toNat_le).trans isLower_iff.symm
  split
  case isTrue h =>
    -- The distance is negative, and added to the code point it is taken modulo the word size.
    have hup : c.toUpper = ⟨c.val + ('A'.val - 'a'.val), _⟩ := dif_pos (hcond.mpr h)
    have hsum : c.toUpper.toNat = (c.toNat + ('A'.val - 'a'.val).toNat) % 2 ^ 32 := by
      rw [hup]
      exact UInt32.toNat_add _ _
    have hshift : ('A'.val - 'a'.val).toNat = 4294967264 := by decide
    have hrange := isLower_iff.mp h
    omega
  case isFalse h => rw [show c.toUpper = c from dif_neg (mt hcond.mp h)]

theorem toNat_toLower : c.toLower.toNat = if c.isUpper then c.toNat + 32 else c.toNat := by
  have hcond : 'A'.val ≤ c.val ∧ c.val ≤ 'Z'.val ↔ c.isUpper = true :=
    (and_congr UInt32.le_iff_toNat_le UInt32.le_iff_toNat_le).trans isUpper_iff.symm
  split
  case isTrue h =>
    have hdown : c.toLower = ⟨c.val + ('a'.val - 'A'.val), _⟩ := dif_pos (hcond.mpr h)
    have hsum : c.toLower.toNat = (c.toNat + ('a'.val - 'A'.val).toNat) % 2 ^ 32 := by
      rw [hdown]
      exact UInt32.toNat_add _ _
    have hshift : ('a'.val - 'A'.val).toNat = 32 := by decide
    have hrange := isUpper_iff.mp h
    omega
  case isFalse h => rw [show c.toLower = c from dif_neg (mt hcond.mp h)]

theorem toNat_lt_of_isAlphanum (h : c.isAlphanum = true) : c.toNat < 128 := by
  rw [Char.isAlphanum, isAlpha_eq, Bool.or_eq_true, Bool.or_eq_true, isUpper_iff, isLower_iff,
    Char.isDigit_iff_toNat] at h
  have hnine : '9'.toNat = 57 := rfl
  omega

theorem not_isUpper_of_isDigit (h : c.isDigit = true) : c.isUpper = false := by
  grind [isUpper_iff, Char.isDigit_iff_toNat]

theorem not_isLower_of_isDigit (h : c.isDigit = true) : c.isLower = false := by
  grind [isLower_iff, Char.isDigit_iff_toNat]

theorem not_isAlpha_of_isDigit (h : c.isDigit = true) : c.isAlpha = false := by
  rw [isAlpha_eq, not_isUpper_of_isDigit h, not_isLower_of_isDigit h, Bool.or_false]

theorem not_isLower_of_isUpper (h : c.isUpper = true) : c.isLower = false := by
  grind [isUpper_iff, isLower_iff]

theorem not_isUpper_of_isLower (h : c.isLower = true) : c.isUpper = false := by
  grind [isUpper_iff, isLower_iff]

theorem not_isDigit_of_isUpper (h : c.isUpper = true) : c.isDigit = false := by
  grind [isUpper_iff, Char.isDigit_iff_toNat]

theorem not_isDigit_of_isAlpha (h : c.isAlpha = true) : c.isDigit = false := by
  by_contra hdigit
  simp [not_isAlpha_of_isDigit (Bool.not_eq_false _ ▸ hdigit)] at h

end CodePoints

/-! A letter of ASCII has one form in each case, and all other characters have one form only. -/

section Case

variable {c : Char}

theorem toUpper_eq_self (h : c.isLower = false) : c.toUpper = c := by
  rw [← Char.toNat_inj, toNat_toUpper, h, if_neg Bool.false_ne_true]

theorem toLower_eq_self (h : c.isUpper = false) : c.toLower = c := by
  rw [← Char.toNat_inj, toNat_toLower, h, if_neg Bool.false_ne_true]

variable (c)

@[simp] theorem isLower_toUpper : c.toUpper.isLower = false := by
  grind [isUpper_iff, isLower_iff, toNat_toUpper]

@[simp] theorem isUpper_toLower : c.toLower.isUpper = false := by
  grind [isUpper_iff, isLower_iff, toNat_toLower]

@[simp] theorem isLower_toLower : c.toLower.isLower = c.isAlpha := by
  grind [isUpper_iff, isLower_iff, isAlpha_eq, toNat_toLower]

@[simp] theorem isUpper_toUpper : c.toUpper.isUpper = c.isAlpha := by
  grind [isUpper_iff, isLower_iff, isAlpha_eq, toNat_toUpper]

@[simp] theorem isAlpha_toLower : c.toLower.isAlpha = c.isAlpha := by
  rw [isAlpha_eq, isUpper_toLower, isLower_toLower, Bool.false_or]

@[simp] theorem isAlpha_toUpper : c.toUpper.isAlpha = c.isAlpha := by
  rw [isAlpha_eq, isUpper_toUpper, isLower_toUpper, Bool.or_false]

@[simp] theorem toUpper_toLower : c.toLower.toUpper = c.toUpper := by
  rw [← Char.toNat_inj]
  grind [isUpper_iff, isLower_iff, toNat_toUpper, toNat_toLower]

@[simp] theorem toLower_toUpper : c.toUpper.toLower = c.toLower := by
  rw [← Char.toNat_inj]
  grind [isUpper_iff, isLower_iff, toNat_toUpper, toNat_toLower]

end Case

/-- The upper case of letters and digits of ASCII, one by one. -/
theorem upperChars_eq_map {s : List Char} (h : ∀ c ∈ s, c.isAlphanum = true) :
    upperChars s = s.map Char.toUpper := by
  induction s with
  | nil => rfl
  | cons c s ih =>
    have hfirst : upperChar c = [c.toUpper] := by
      have hc := toNat_lt_of_isAlphanum (h c List.mem_cons_self)
      have hplain := upperChar_eq_toUpper ⟨c.toNat, hc⟩
      rwa [Char.ofNat_toNat] at hplain
    have hrest := ih fun d hd => h d (List.mem_cons_of_mem c hd)
    rw [upperChars, List.flatMap_cons, hfirst, List.map_cons]
    exact congrArg (c.toUpper :: ·) hrest

/-- The lower case of letters and digits of ASCII, one by one, whatever stands before them. -/
theorem lowerCharsAfter_eq_map {s : List Char} (before : List Char)
    (h : ∀ c ∈ s, c.isAlphanum = true) : lowerCharsAfter before s = s.map Char.toLower := by
  induction s generalizing before with
  | nil => rfl
  | cons c s ih =>
    have hfirst : lowerChar before c s = [c.toLower] := by
      have hc := toNat_lt_of_isAlphanum (h c List.mem_cons_self)
      have hplain := lowerChar_eq_toLower before s ⟨c.toNat, hc⟩
      rwa [Char.ofNat_toNat] at hplain
    have hrest := ih (c :: before) fun d hd => h d (List.mem_cons_of_mem c hd)
    rw [lowerCharsAfter, hfirst, List.map_cons, hrest]
    rfl

end Text

/-! ## Runs of a class -/

/-- A text does not begin with a character of a class. -/
def StopsAt (p : Char → Bool) (rest : List Char) : Prop :=
  ∀ c ∈ rest.head?, p c = false

section Runs

variable {p : Char → Bool} {run rest : List Char}

@[simp] theorem stopsAt_nil : StopsAt p [] := nofun

@[simp] theorem stopsAt_cons {c : Char} : StopsAt p (c :: rest) ↔ p c = false := by
  simp [StopsAt]

theorem stopsAt_of_forall (h : ∀ c ∈ rest, p c = false) : StopsAt p rest :=
  fun c hc => h c (List.mem_of_mem_head? hc)

theorem StopsAt.append (hrun : StopsAt p run) (hrest : StopsAt p rest) :
    StopsAt p (run ++ rest) := by
  cases run with
  | nil => exact hrest
  | cons c run => exact stopsAt_cons.mpr (stopsAt_cons.mp hrun)

theorem takeWhile_eq_nil_iff_stopsAt : rest.takeWhile p = [] ↔ StopsAt p rest := by
  cases rest <;> simp [List.takeWhile_cons]

/-- What does not go on with a class adds nothing to a run of it. -/
theorem takeWhile_append_of_stopsAt (h : StopsAt p rest) :
    (run ++ rest).takeWhile p = run.takeWhile p := by
  induction run with
  | nil => exact takeWhile_eq_nil_iff_stopsAt.mpr h
  | cons c run ih => rw [List.cons_append, List.takeWhile_cons, List.takeWhile_cons, ih]

theorem takeWhile_run (hrun : ∀ c ∈ run, p c = true) (hend : StopsAt p rest) :
    (run ++ rest).takeWhile p = run := by
  rw [takeWhile_append_of_stopsAt hend, List.takeWhile_eq_self_iff.mpr hrun]

theorem dropWhile_run (hrun : ∀ c ∈ run, p c = true) (hend : StopsAt p rest) :
    (run ++ rest).dropWhile p = rest := by
  rw [List.dropWhile_append_of_pos hrun]
  cases rest with
  | nil => rfl
  | cons c rest => simp [stopsAt_cons.mp hend]

/-- A text is a run of a class and a text that does not go on with it. -/
theorem exists_run (p : Char → Bool) (s : List Char) :
    ∃ run rest, s = run ++ rest ∧ (∀ c ∈ run, p c = true) ∧ StopsAt p rest := by
  refine ⟨s.takeWhile p, s.dropWhile p, List.takeWhile_append_dropWhile.symm,
    fun c hc => List.mem_takeWhile_imp hc, fun c hc => ?_⟩
  have hhead := List.head?_dropWhile_not p s
  rwa [Option.mem_def.mp hc] at hhead

end Runs

/-! ## The first word -/

/-- A word, and a text before which it stands as the first word of both. -/
inductive IsFirstWord : List Char → List Char → Prop where
  | digits {ds rest : List Char} (hne : ds ≠ []) (hds : ∀ c ∈ ds, c.isDigit = true)
      (hend : StopsAt Char.isDigit rest) : IsFirstWord ds rest
  | capitals {cs ds rest : List Char} (hne : cs ≠ []) (hcs : ∀ c ∈ cs, c.isUpper = true)
      (hds : ∀ c ∈ ds, c.isDigit = true) (hend : StopsAt Char.isLower rest) :
      IsFirstWord (cs ++ ds) rest
  | small {ss ds rest : List Char} (hne : ss ≠ []) (hss : ∀ c ∈ ss, c.isLower = true)
      (hds : ∀ c ∈ ds, c.isDigit = true) (hsmall : StopsAt Char.isLower (ds ++ rest))
      (hend : StopsAt Char.isDigit rest) : IsFirstWord (ss ++ ds) rest
  | title {c : Char} {ss ds rest : List Char} (hc : c.isUpper = true) (hne : ss ≠ [])
      (hss : ∀ c ∈ ss, c.isLower = true) (hds : ∀ c ∈ ds, c.isDigit = true)
      (hsmall : StopsAt Char.isLower (ds ++ rest)) (hend : StopsAt Char.isDigit rest) :
      IsFirstWord (c :: (ss ++ ds)) rest

/-- What the scanner counts, of a text cut into a run of capitals, one of digits, one of small
letters, and one of digits again. -/
theorem wordLength_runs {cs ds ss es rest : List Char} (hcs : ∀ c ∈ cs, c.isUpper = true)
    (hcsEnd : StopsAt Char.isUpper (ds ++ (ss ++ (es ++ rest))))
    (hds : ∀ c ∈ ds, c.isDigit = true) (hdsEnd : StopsAt Char.isDigit (ss ++ (es ++ rest)))
    (hss : ∀ c ∈ ss, c.isLower = true) (hssEnd : StopsAt Char.isLower (es ++ rest))
    (hes : ∀ c ∈ es, c.isDigit = true) (hesEnd : StopsAt Char.isDigit rest) :
    wordLength (cs ++ (ds ++ (ss ++ (es ++ rest)))) =
      if cs = [] then if ds = [] then ss.length + es.length else ds.length
      else if ss = [] then cs.length + ds.length
      else if ds ≠ [] then cs.length + ds.length - 1
      else if cs.length ≠ 1 then cs.length - 1
      else 1 + ss.length + es.length := by
  have hcapitals := takeWhile_run hcs hcsEnd
  have hdigits := takeWhile_run hds hdsEnd
  have hsmall := takeWhile_run hss hssEnd
  have hmore := takeWhile_run hes hesEnd
  have hdrop : (cs ++ (ds ++ (ss ++ (es ++ rest)))).drop (cs.length + ds.length) =
      ss ++ (es ++ rest) := by
    rw [← List.append_assoc]
    exact List.drop_left' (List.length_append ..)
  unfold wordLength
  simp only [hcapitals, List.drop_left, hdigits, hdrop, hsmall, List.length_eq_zero_iff, bne_iff_ne,
    ne_eq]
  by_cases hnone : cs = []
  · by_cases hnodigits : ds = []
    · subst hnone hnodigits
      simp [hmore]
    · simp [hnone, hnodigits]
  · by_cases hsingle : cs.length = 1 ∧ ds = []
    · obtain ⟨⟨c, rfl⟩, rfl⟩ := hsingle.imp_left List.length_eq_one_iff.mp
      simp [Nat.add_comm 1, hmore]
    · grind

/-- A text begins with a word, which the scanner counts, or with no letter or digit. -/
theorem exists_isFirstWord (s : List Char) :
    (wordLength s = 0 ∧ StopsAt Char.isAlphanum s) ∨
      ∃ word rest, s = word ++ rest ∧ wordLength s = word.length ∧ IsFirstWord word rest := by
  obtain ⟨cs, s, rfl, hcs, hcsEnd⟩ := exists_run Char.isUpper s
  obtain ⟨ds, s, rfl, hds, hdsEnd⟩ := exists_run Char.isDigit s
  obtain ⟨ss, s, rfl, hss, hssEnd⟩ := exists_run Char.isLower s
  obtain ⟨es, s, rfl, hes, hesEnd⟩ := exists_run Char.isDigit s
  rw [wordLength_runs hcs hcsEnd hds hdsEnd hss hssEnd hes hesEnd]
  rcases List.eq_nil_or_concat' cs with rfl | ⟨cs, c, rfl⟩
  · rcases List.eq_nil_or_concat' ds with rfl | ⟨ds, d, rfl⟩
    · rcases List.eq_nil_or_concat' ss with rfl | ⟨ss, l, rfl⟩
      · left
        rcases es with _ | ⟨e, es⟩
        · refine ⟨rfl, fun c hc => ?_⟩
          simp [Char.isAlphanum, Text.isAlpha_eq, hcsEnd c hc, hdsEnd c hc, hssEnd c hc]
        · exact absurd (hes e List.mem_cons_self) (by simp [hdsEnd e rfl])
      · exact Or.inr ⟨ss ++ [l] ++ es, s, by simp, by simp; omega,
          .small (by simp) hss hes hssEnd hesEnd⟩
    · exact Or.inr ⟨ds ++ [d], _, rfl, by simp, .digits (by simp) hds hdsEnd⟩
  · right
    rcases List.eq_nil_or_concat' ss with rfl | ⟨ss, l, rfl⟩
    · exact ⟨cs ++ [c] ++ ds, es ++ s, by simp, by simp; omega,
        .capitals (by simp) hcs hds hssEnd⟩
    · -- A small letter follows the run, which gives up its last digit or its last capital.
      rcases List.eq_nil_or_concat' ds with rfl | ⟨ds, d, rfl⟩
      · rcases List.eq_nil_or_concat' cs with rfl | ⟨cs, b, rfl⟩
        · exact ⟨c :: (ss ++ [l] ++ es), s, by simp, by simp; omega,
            .title (hcs c (by simp)) (by simp) hss hes hssEnd hesEnd⟩
        · refine ⟨cs ++ [b] ++ [], c :: (ss ++ [l] ++ (es ++ s)), by simp, by simp,
            .capitals (by simp) (fun a ha => hcs a (List.mem_append_left [c] ha)) (by simp) ?_⟩
          exact stopsAt_cons.mpr (Text.not_isLower_of_isUpper (hcs c (by simp)))
      · refine ⟨cs ++ [c] ++ ds, d :: (ss ++ [l] ++ (es ++ s)), by simp, by simp; omega,
          .capitals (by simp) hcs (fun a ha => hds a (List.mem_append_left [d] ha)) ?_⟩
        exact stopsAt_cons.mpr (Text.not_isLower_of_isDigit (hds d (by simp)))

theorem IsFirstWord.ne_nil {word rest : List Char} (h : IsFirstWord word rest) : word ≠ [] := by
  cases h with
  | digits hne => exact hne
  | capitals hne => exact List.append_ne_nil_of_left_ne_nil hne _
  | small hne => exact List.append_ne_nil_of_left_ne_nil hne _
  | title => exact List.cons_ne_nil _ _

/-- A word has one of the four forms. -/
def IsWord (word : String) : Prop :=
  ∃ rest, IsFirstWord word.toList rest

theorem IsWord.ne_nil {word : String} (h : IsWord word) : word.toList ≠ [] :=
  h.elim fun _ => IsFirstWord.ne_nil

/-- Words are digits only, or letters with digits after them. -/
theorem IsWord.digits_or_letters {word : String} (h : IsWord word) :
    (∀ c ∈ word.toList, c.isDigit = true) ∨
      ∃ c ls ds, word.toList = c :: (ls ++ ds) ∧ c.isAlpha = true ∧
        (∀ l ∈ ls, l.isAlpha = true) ∧ ∀ d ∈ ds, d.isDigit = true := by
  obtain ⟨rest, h⟩ := h
  generalize word.toList = chars at h
  cases h with
  | digits hne hds => exact Or.inl hds
  | @capitals cs ds _ hne hcs hds =>
    obtain ⟨c, cs, rfl⟩ := List.exists_cons_of_ne_nil hne
    exact Or.inr ⟨c, cs, ds, rfl, by grind [Text.isAlpha_eq], by grind [Text.isAlpha_eq], hds⟩
  | @small ss ds _ hne hss hds =>
    obtain ⟨c, ss, rfl⟩ := List.exists_cons_of_ne_nil hne
    exact Or.inr ⟨c, ss, ds, rfl, by grind [Text.isAlpha_eq], by grind [Text.isAlpha_eq], hds⟩
  | @title c ss ds _ hc hne hss hds =>
    exact Or.inr ⟨c, ss, ds, rfl, by grind [Text.isAlpha_eq], by grind [Text.isAlpha_eq], hds⟩

theorem IsWord.isAlphanum {word : String} (h : IsWord word) :
    ∀ c ∈ word.toList, c.isAlphanum = true := by
  rcases h.digits_or_letters with hds | ⟨c, ls, ds, hword, hc, hls, hds⟩ <;>
    grind [Char.isAlphanum]

/-! ## The division of a text -/

/-- A text has these words, its first character being at the given offset. -/
inductive Divides : Nat → List Char → List (String × Nat) → Prop where
  | nil (i : Nat) : Divides i [] []
  | other {i : Nat} {c : Char} {rest : List Char} {words : List (String × Nat)}
      (hc : c.isAlphanum = false) (h : Divides (i + 1) rest words) : Divides i (c :: rest) words
  | word {i : Nat} {word rest : List Char} {words : List (String × Nat)}
      (hword : IsFirstWord word rest) (h : Divides (i + word.length) rest words) :
      Divides i (word ++ rest) ((String.ofList word, i) :: words)

theorem wordsFrom_length_append (i : Nat) (passed rest : List Char) :
    wordsFrom i passed.length (passed ++ rest) = wordsFrom (i + passed.length) 0 rest := by
  induction passed generalizing i with
  | nil => rfl
  | cons c passed ih =>
    rw [List.length_cons, List.cons_append, wordsFrom, ih, Nat.add_right_comm, Nat.add_assoc]

/-- **The words of a text divide it.** -/
theorem divides_wordsFrom (i : Nat) (s : List Char) : Divides i s (wordsFrom i 0 s) := by
  -- A word is passed over as a whole, so the induction goes on with the text after it.
  induction hlength : s.length using Nat.strongRecOn generalizing i s with
  | _ n ih =>
    subst hlength
    rcases exists_isFirstWord s with ⟨hzero, hother⟩ | ⟨word, rest, rfl, hlength, hword⟩
    · cases s with
      | nil => exact .nil i
      | cons c rest =>
        rw [wordsFrom, hzero]
        exact .other (stopsAt_cons.mp hother) (ih _ (Nat.lt_succ_self _) _ _ rfl)
    · obtain ⟨c, word, rfl⟩ := List.exists_cons_of_ne_nil hword.ne_nil
      have hshorter : rest.length < (c :: word ++ rest).length := by
        rw [List.length_append, List.length_cons]
        omega
      have hrest := ih rest.length hshorter (i + (c :: word).length) rest rfl
      have hwords : wordsFrom i 0 (c :: word ++ rest) =
          (String.ofList (c :: word), i) :: wordsFrom (i + (c :: word).length) 0 rest := by
        rw [List.length_cons] at hlength
        have htake : (c :: (word ++ rest)).take (word.length + 1) = c :: word := by simp
        rw [List.cons_append] at hlength ⊢
        simp only [wordsFrom, hlength, htake, wordsFrom_length_append, List.length_cons]
        rw [Nat.add_assoc, Nat.add_comm 1]
      rw [hwords]
      exact .word hword hrest

/-- The words of a text have the forms of words. -/
theorem Divides.isWord {i : Nat} {s : List Char} {words : List (String × Nat)}
    (h : Divides i s words) : ∀ word ∈ words, IsWord word.1 := by
  induction h with
  | nil => simp
  | other _ _ ih => exact ih
  | @word i word rest words hword _ ih =>
    intro entry hentry
    rcases List.mem_cons.mp hentry with rfl | hentry
    · exact ⟨rest, by rwa [String.toList_ofList]⟩
    · exact ih entry hentry

theorem isWord_of_mem_nameWords {name word : String} (h : word ∈ nameWords name) : IsWord word := by
  obtain ⟨entry, hentry, rfl⟩ := List.mem_map.mp h
  exact (divides_wordsFrom 0 name.toList).isWord entry hentry

/-! ## Titles -/

/-- The title that a text begins with; empty if it begins with none. -/
def titleAt : List Char → List Char
  | [] => []
  | c :: rest =>
    if c.isUpper && !(rest.takeWhile Char.isLower).isEmpty then
      c :: (rest.takeWhile Char.isLower ++ (rest.dropWhile Char.isLower).takeWhile Char.isDigit)
    else []

section Titles

variable {c : Char} {ss ds rest : List Char}

theorem titleAt_of_not_isUpper (hc : c.isUpper = false) : titleAt (c :: rest) = [] := by
  simp [titleAt, hc]

theorem titleAt_of_stopsAt (hend : StopsAt Char.isLower rest) : titleAt (c :: rest) = [] := by
  simp [titleAt, takeWhile_eq_nil_iff_stopsAt.mpr hend]

/-- A title goes on over all digits that follow its small letters. -/
theorem titleAt_of_isUpper (hc : c.isUpper = true) (hne : ss ≠ [])
    (hss : ∀ c ∈ ss, c.isLower = true) (hds : ∀ c ∈ ds, c.isDigit = true)
    (hsmall : StopsAt Char.isLower (ds ++ rest)) :
    titleAt (c :: (ss ++ ds) ++ rest) = c :: (ss ++ (ds ++ rest.takeWhile Char.isDigit)) := by
  simp [titleAt, hc, hne, takeWhile_run hss hsmall, dropWhile_run hss hsmall,
    List.takeWhile_append_of_pos hds]

/-- Where a title begins, it is a capital, small letters, and all digits that follow these. -/
theorem exists_of_titleAt_ne_nil (h : titleAt (c :: rest) ≠ []) :
    ∃ ss ds later, rest = ss ++ ds ++ later ∧ titleAt (c :: rest) = c :: (ss ++ ds) ∧
      c.isUpper = true ∧ ss ≠ [] ∧ (∀ d ∈ ss, d.isLower = true) ∧
      (∀ d ∈ ds, d.isDigit = true) ∧ StopsAt Char.isLower (ds ++ later) := by
  have hc : c.isUpper = true := by
    by_contra hc
    exact h (titleAt_of_not_isUpper (Bool.eq_false_iff.mpr hc))
  obtain ⟨ss, rest, rfl, hss, hsmall⟩ := exists_run Char.isLower rest
  obtain ⟨ds, later, rfl, hds, hend⟩ := exists_run Char.isDigit rest
  have hne : ss ≠ [] := by
    rintro rfl
    exact h (titleAt_of_stopsAt hsmall)
  have htitle := titleAt_of_isUpper hc hne hss hds hsmall
  rw [takeWhile_eq_nil_iff_stopsAt.mpr hend, List.append_nil, List.cons_append, List.append_assoc]
    at htitle
  exact ⟨ss, ds, later, (List.append_assoc ..).symm, htitle, hc, hne, hss, hds, hsmall⟩

end Titles

end GoConventions
