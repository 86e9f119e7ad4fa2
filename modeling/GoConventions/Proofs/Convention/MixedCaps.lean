import GoConventions.Proofs.Convention.Initialisms

/-!
# Names without low lines

A name with low lines is put together anew of its words, and these are letters and digits only, so
the new name has no low line and is not remarked upon for one again.

Each word but the first of a small name is written with a capital, or in capitals throughout if it
is an acronym.  The titles of the new name are then its words that are no acronyms, each with the
digits that follow it, be they a word of their own or not.  So a title of the new name is an acronym
only when a word and the digits after it are one together, as `UTF` and `8` are.

## Main definitions

* `SplitsInitialism`: words among which an acronym is divided.
* `capitalizedChars`: words that are put together with capitals.
* `KeepsMixedCaps`: names that are not remarked upon for low lines.

## Main results

* `mixedTitlesFrom_capitalizedChars_eq_nil_iff`: when a title of such words is an acronym.
* `keepsInitialisms_iff_of_mixedCapsRemark?`: when the new name is remarked upon for its acronyms.
-/

namespace GoConventions

/-! ## Words inside a name in mixed capitals -/

/-- How a word is written inside a name in mixed capitals: without small letters, or as a title that
is no acronym. -/
inductive IsWritten (word : String) : List Char → Prop where
  | plain {chars : List Char} (hchars : ∀ c ∈ chars, c.isLower = false)
      (hword : Text.upper word ≠ "UTF") : IsWritten word chars
  | title {c : Char} {ss ds : List Char} (hc : c.isUpper = true) (hne : ss ≠ [])
      (hss : ∀ d ∈ ss, d.isLower = true) (hds : ∀ d ∈ ds, d.isDigit = true)
      (hword : isInitialism word = false)
      (hupper : (Text.upper word).toList = c :: (ss.map Char.toUpper ++ ds)) :
      IsWritten word (c :: (ss ++ ds))

section Written

variable {word : String} {chars rest : List Char}

theorem toList_upper (h : ∀ c ∈ word.toList, c.isAlphanum = true) :
    (Text.upper word).toList = word.toList.map Char.toUpper := by
  rw [Text.upper, String.toList_ofList, Text.upperChars_eq_map h]

theorem toList_lower (h : ∀ c ∈ word.toList, c.isAlphanum = true) :
    (Text.lower word).toList = word.toList.map Char.toLower := by
  rw [Text.lower, String.toList_ofList, Text.lowerCharsAfter_eq_map [] h]

theorem toList_capitalized (h : ∀ c ∈ word.toList, c.isAlphanum = true) :
    (capitalized word).toList =
      if isInitialism word then word.toList.map Char.toUpper
      else (word.toList.take 1).map Char.toUpper ++ (word.toList.drop 1).map Char.toLower := by
  have hfirst : ∀ c ∈ word.toList.take 1, c.isAlphanum = true := fun c hc =>
    h c (List.mem_of_mem_take hc)
  have hrest : ∀ c ∈ (Text.dropFirst 1 word).toList, c.isAlphanum = true := fun c hc =>
    h c (List.mem_of_mem_drop (String.toList_ofList ▸ hc))
  rw [capitalized]
  split
  · exact toList_upper h
  · rw [String.toList_append, String.toList_ofList, Text.upperChars_eq_map hfirst,
      toList_lower hrest, Text.dropFirst, String.toList_ofList]

theorem toLower_of_isDigit {c : Char} (h : c.isDigit = true) : c.toLower = c :=
  Text.toLower_eq_self (Text.not_isUpper_of_isDigit h)

theorem map_toLower_of_isDigit {ds : List Char} (h : ∀ d ∈ ds, d.isDigit = true) :
    ds.map Char.toLower = ds := by
  rw [List.map_congr_left fun d hd => toLower_of_isDigit (h d hd), List.map_id']

theorem upper_ne_of_isInitialism (h : isInitialism word = true) : Text.upper word ≠ "UTF" := by
  intro hupper
  rw [isInitialism, hupper] at h
  exact absurd h (by decide)

/-- Digits are written as they are. -/
theorem toList_capitalized_of_isDigit (h : ∀ c ∈ word.toList, c.isDigit = true) :
    (capitalized word).toList = word.toList := by
  have halnum : ∀ c ∈ word.toList, c.isAlphanum = true := fun c hc => by
    simp [Char.isAlphanum, h c hc]
  rw [toList_capitalized halnum]
  split
  · exact map_toUpper_of_isDigit h
  · rw [map_toUpper_of_isDigit fun c hc => h c (List.mem_of_mem_take hc),
      map_toLower_of_isDigit fun c hc => h c (List.mem_of_mem_drop hc), List.take_append_drop]

/-- Letters and the digits after them are written in capitals, or as a title. -/
theorem toList_capitalized_of_isAlpha {c : Char} {ls ds : List Char}
    (hword : word.toList = c :: (ls ++ ds)) (h : ∀ c ∈ word.toList, c.isAlphanum = true)
    (hds : ∀ d ∈ ds, d.isDigit = true) :
    (capitalized word).toList =
      c.toUpper :: (ls.map (if isInitialism word then Char.toUpper else Char.toLower) ++ ds) := by
  rw [toList_capitalized h, hword]
  split
  · rw [List.map_cons, List.map_append, map_toUpper_of_isDigit hds]
  · rw [List.take_succ_cons, List.take_zero, List.drop_succ_cons, List.drop_zero, List.map_append,
      map_toLower_of_isDigit hds]
    rfl

theorem not_isLower_of_mem_capitals {c : Char} {ls ds : List Char}
    (hds : ∀ d ∈ ds, d.isDigit = true) :
    ∀ d ∈ c.toUpper :: (ls.map Char.toUpper ++ ds), d.isLower = false := by
  simp only [List.mem_cons, List.mem_append, List.mem_map]
  rintro d (rfl | ⟨l, -, rfl⟩ | hd)
  · exact Text.isLower_toUpper c
  · exact Text.isLower_toUpper l
  · exact Text.not_isLower_of_isDigit (hds d hd)

theorem isWritten_capitalized (h : IsWord word) : IsWritten word (capitalized word).toList := by
  have halnum := h.isAlphanum
  have hupper := toList_upper halnum
  rcases h.digits_or_letters with hds | ⟨c, ls, ds, hword, hc, hls, hds⟩
  · rw [toList_capitalized_of_isDigit hds]
    refine .plain (fun d hd => Text.not_isLower_of_isDigit (hds d hd)) fun hutf => ?_
    rw [hutf, map_toUpper_of_isDigit hds] at hupper
    exact absurd (hds 'U' (hupper ▸ by decide)) (by decide)
  · rw [toList_capitalized_of_isAlpha hword halnum hds]
    rw [hword, List.map_cons, List.map_append, map_toUpper_of_isDigit hds] at hupper
    by_cases hacronym : isInitialism word = true
    · rw [if_pos hacronym]
      exact .plain (not_isLower_of_mem_capitals hds) (upper_ne_of_isInitialism hacronym)
    rw [if_neg hacronym]
    by_cases hne : ls = []
    · -- A single letter is a capital, and no title.
      subst hne
      refine .plain (@not_isLower_of_mem_capitals c [] ds hds) fun hutf => ?_
      rw [hutf] at hupper
      have htail : ['T', 'F'] = ds := (List.cons.inj hupper).2
      exact absurd (hds 'T' (htail ▸ by decide)) (by decide)
    · have hcapital : c.toUpper.isUpper = true := by rw [Text.isUpper_toUpper, hc]
      refine .title hcapital (by simpa using hne) ?_ hds (by simpa using hacronym) ?_
      · intro d hd
        obtain ⟨l, hl, rfl⟩ := List.mem_map.mp hd
        rw [Text.isLower_toLower, hls l hl]
      · rw [hupper, List.map_map]
        congr 2
        exact List.map_congr_left fun l _ => (Text.toUpper_toLower l).symm

/-- What a word is written as begins with no small letter. -/
theorem stopsAt_isLower_capitalized (h : IsWord word) :
    StopsAt Char.isLower (capitalized word).toList := by
  rcases h.digits_or_letters with hds | ⟨c, ls, ds, hword, hc, hls, hds⟩
  · rw [toList_capitalized_of_isDigit hds]
    exact stopsAt_of_forall fun d hd => Text.not_isLower_of_isDigit (hds d hd)
  · rw [toList_capitalized_of_isAlpha hword h.isAlphanum hds]
    exact stopsAt_cons.mpr (Text.isLower_toUpper c)

/-- What a word is written as begins with a digit if the word does. -/
theorem stopsAt_isDigit_capitalized_append (h : IsWord word) :
    StopsAt Char.isDigit ((capitalized word).toList ++ rest) ↔
      StopsAt Char.isDigit word.toList := by
  rcases h.digits_or_letters with hds | ⟨c, ls, ds, hword, hc, hls, hds⟩
  · obtain ⟨c, cs, hword⟩ := List.exists_cons_of_ne_nil h.ne_nil
    rw [toList_capitalized_of_isDigit hds, hword, List.cons_append, stopsAt_cons, stopsAt_cons]
  · have hcapital : c.toUpper.isUpper = true := by rw [Text.isUpper_toUpper, hc]
    rw [toList_capitalized_of_isAlpha hword h.isAlphanum hds, hword, List.cons_append, stopsAt_cons,
      stopsAt_cons, Text.not_isDigit_of_isUpper hcapital, Text.not_isDigit_of_isAlpha hc]

end Written

/-! ## Acronyms that end in digits -/

/-- Letters, digits that are no acronym with them, and more digits are one only as `UTF` and `8`. -/
theorem isInitialism_append_iff {letters : String} {ls ds digits : List Char}
    (hletters : letters.toList = ls ++ ds) (hls : ∀ l ∈ ls, l.isAlpha = true)
    (hds : ∀ d ∈ ds, d.isDigit = true) (hdigits : ∀ d ∈ digits, d.isDigit = true)
    (hnone : initialisms.contains letters = false) :
    initialisms.contains (letters ++ String.ofList digits) = true ↔
      letters = "UTF" ∧ digits = ['8'] := by
  have htable : ∀ acronym ∈ initialisms,
      acronym.toList.dropWhile Char.isAlpha = [] ∨ acronym = "UTF8" := by decide
  constructor
  · intro hacronym
    have hne : digits ≠ [] := by
      rintro rfl
      rw [String.ofList_nil, String.append_empty, hnone] at hacronym
      cases hacronym
    have hstop : StopsAt Char.isAlpha (ds ++ digits) := by
      refine stopsAt_of_forall fun d hd => Text.not_isAlpha_of_isDigit ?_
      exact (List.mem_append.mp hd).elim (hds d) (hdigits d)
    have hchars : (letters ++ String.ofList digits).toList = ls ++ (ds ++ digits) := by
      rw [String.toList_append, String.toList_ofList, hletters, List.append_assoc]
    rcases htable _ (List.contains_iff_mem.mp hacronym) with hrest | hutf
    · rw [hchars, dropWhile_run hls hstop, List.append_eq_nil_iff] at hrest
      exact absurd hrest.2 hne
    · rw [hutf] at hchars
      have hfront : ['U', 'T', 'F'] = ls := by
        rw [← takeWhile_run hls hstop, ← hchars]
        rfl
      have hback : ['8'] = ds ++ digits := by
        rw [← dropWhile_run hls hstop, ← hchars]
        rfl
      rcases List.singleton_eq_append_iff.mp hback with ⟨rfl, rfl⟩ | ⟨-, rfl⟩
      · rw [← hfront, List.append_nil] at hletters
        exact ⟨String.toList_inj.mp hletters, rfl⟩
      · exact absurd rfl hne
  · rintro ⟨rfl, rfl⟩
    decide

/-- Words among which an acronym is divided: `UTF` is followed by `8`, and that by no digit. -/
inductive SplitsInitialism : List String → Prop where
  | here {word : String} {later : List String} (hword : Text.upper word = "UTF")
      (hend : ∀ next ∈ later.head?, StopsAt Char.isDigit next.toList) :
      SplitsInitialism (word :: "8" :: later)
  | there {word : String} {later : List String} (h : SplitsInitialism later) :
      SplitsInitialism (word :: later)

@[simp] theorem not_splitsInitialism_nil : ¬ SplitsInitialism [] := nofun

theorem splitsInitialism_cons_iff {word : String} {later : List String} :
    SplitsInitialism (word :: later) ↔
      (Text.upper word = "UTF" ∧ ∃ rest, later = "8" :: rest ∧
        ∀ next ∈ rest.head?, StopsAt Char.isDigit next.toList) ∨ SplitsInitialism later := by
  constructor
  · rintro (⟨hword, hend⟩ | h)
    · exact Or.inl ⟨hword, _, rfl, hend⟩
    · exact Or.inr h
  · rintro (⟨hword, rest, rfl, hend⟩ | h)
    · exact .here hword hend
    · exact .there h

section Titles

variable {word : String} {i : Nat} {c : Char} {chars rest ss ds digits : List Char}

/-- A title that is no acronym is one with the digits after it when it is `UTF` and they are `8`. -/
theorem isInitialism_title_append_iff (hc : c.isUpper = true) (hss : ∀ d ∈ ss, d.isLower = true)
    (hds : ∀ d ∈ ds, d.isDigit = true) (hdigits : ∀ d ∈ digits, d.isDigit = true)
    (hword : isInitialism word = false)
    (hupper : (Text.upper word).toList = c :: (ss.map Char.toUpper ++ ds)) :
    isInitialism (String.ofList (c :: (ss ++ (ds ++ digits)))) = true ↔
      Text.upper word = "UTF" ∧ digits = ['8'] := by
  have hletters : ∀ l ∈ c :: ss.map Char.toUpper, l.isAlpha = true := by
    simp only [List.mem_cons, List.mem_map]
    rintro l (rfl | ⟨d, hd, rfl⟩)
    · simp [Text.isAlpha_eq, hc]
    · simp [Text.isAlpha_eq, hss d hd]
  have halnum : ∀ d ∈ c :: (ss ++ (ds ++ digits)), d.isAlphanum = true := by
    simp only [List.mem_cons, List.mem_append, Char.isAlphanum, Text.isAlpha_eq]
    rintro d (rfl | hd | hd | hd)
    · simp [hc]
    · simp [hss d hd]
    · simp [hds d hd]
    · simp [hdigits d hd]
  have hchars : Text.upper (String.ofList (c :: (ss ++ (ds ++ digits)))) =
      Text.upper word ++ String.ofList digits := by
    rw [← String.toList_inj, toList_upper (by rwa [String.toList_ofList]), String.toList_ofList,
      String.toList_append, hupper, String.toList_ofList, List.map_cons, List.map_append,
      List.map_append, toUpper_of_isUpper hc, map_toUpper_of_isDigit hds,
      map_toUpper_of_isDigit hdigits, List.cons_append, List.append_assoc]
  rw [isInitialism, hchars]
  exact isInitialism_append_iff (hupper.trans (List.cons_append ..).symm) hletters hds hdigits hword

/-- **Where a word makes a title that is an acronym**: when it is `UTF` and goes on with the digit
`8`. -/
theorem mixedTitlesFrom_append_eq_nil_iff (h : IsWritten word chars)
    (hstop : StopsAt Char.isLower rest) :
    mixedTitlesFrom i (chars ++ rest) = [] ↔
      ¬ (Text.upper word = "UTF" ∧ rest.takeWhile Char.isDigit = ['8']) ∧
        mixedTitlesFrom (i + chars.length) rest = [] := by
  cases h with
  | plain hchars hword =>
    rw [mixedTitlesFrom_append_of_not_isLower hchars hstop]
    exact ⟨fun h => ⟨fun hutf => hword hutf.1, h⟩, And.right⟩
  | @title c ss ds hc hne hss hds hword hupper =>
    have hsmall : StopsAt Char.isLower (ds ++ rest) :=
      (stopsAt_of_forall fun d hd => Text.not_isLower_of_isDigit (hds d hd)).append hstop
    -- The title takes the digits of the next word along, and may be an acronym with them.
    have htitle := titleAt_of_isUpper hc hne hss hds hsmall
    have hacronym := isInitialism_title_append_iff hc hss hds
      (fun d hd => List.mem_takeWhile_imp (l := rest) hd) hword hupper
    rw [List.cons_append] at htitle
    rw [List.cons_append, mixedTitlesFrom, mixedTitlesFrom_succ_of_title c hss hds, mixedTitleAt,
      htitle, ← hacronym]
    split <;> simp_all

end Titles

/-! ## Words in mixed capitals -/

/-- The characters of words that are put together in mixed capitals. -/
def capitalizedChars (words : List String) : List Char :=
  words.flatMap fun word => (capitalized word).toList

section Joined

variable {words : List String} {word : String} {i : Nat}

theorem stopsAt_isLower_capitalizedChars (h : ∀ word ∈ words, IsWord word) :
    StopsAt Char.isLower (capitalizedChars words) := by
  induction words with
  | nil => exact stopsAt_nil
  | cons word words ih =>
    exact (stopsAt_isLower_capitalized (h word List.mem_cons_self)).append
      (ih fun later hlater => h later (List.mem_cons_of_mem word hlater))

theorem stopsAt_isDigit_capitalizedChars (h : ∀ word ∈ words, IsWord word) :
    StopsAt Char.isDigit (capitalizedChars words) ↔
      ∀ next ∈ words.head?, StopsAt Char.isDigit next.toList := by
  cases words with
  | nil => simp [capitalizedChars]
  | cons word words =>
    rw [capitalizedChars, List.flatMap_cons,
      stopsAt_isDigit_capitalized_append (h word List.mem_cons_self)]
    simp

/-- Words begin with the digit `8` and no other one when the first of them is this digit. -/
theorem takeWhile_isDigit_capitalizedChars (h : ∀ word ∈ words, IsWord word) :
    (capitalizedChars words).takeWhile Char.isDigit = ['8'] ↔
      ∃ later, words = "8" :: later ∧
        ∀ next ∈ later.head?, StopsAt Char.isDigit next.toList := by
  cases words with
  | nil => simp [capitalizedChars]
  | cons word words =>
    have hword := h word List.mem_cons_self
    have hlater := stopsAt_isDigit_capitalizedChars fun later hlater =>
      h later (List.mem_cons_of_mem word hlater)
    rw [capitalizedChars, List.flatMap_cons, ← capitalizedChars]
    rcases hword.digits_or_letters with hds | ⟨c, ls, ds, hchars, hc, hls, hds⟩
    · rw [toList_capitalized_of_isDigit hds, List.takeWhile_append_of_pos hds,
        List.append_eq_singleton_iff, takeWhile_eq_nil_iff_stopsAt, hlater]
      constructor
      · rintro (⟨hnil, -⟩ | ⟨height, hstop⟩)
        · exact absurd hnil hword.ne_nil
        · exact ⟨words, congrArg (· :: words) (String.toList_inj.mp height), hstop⟩
      · rintro ⟨later, heq, hstop⟩
        obtain ⟨rfl, rfl⟩ := List.cons.inj heq
        exact Or.inr ⟨rfl, hstop⟩
    · -- A word with letters begins with one, so there is no digit to begin with.
      have hstop : StopsAt Char.isDigit word.toList :=
        hchars ▸ stopsAt_cons.mpr (Text.not_isDigit_of_isAlpha hc)
      rw [takeWhile_eq_nil_iff_stopsAt.mpr ((stopsAt_isDigit_capitalized_append hword).mpr hstop)]
      constructor
      · intro hnil
        cases hnil
      · rintro ⟨later, heq, -⟩
        obtain ⟨rfl, rfl⟩ := List.cons.inj heq
        exact absurd (hstop '8' rfl) (by decide)

/-- **Words in mixed capitals have a title that is an acronym when an acronym is divided among
them.** -/
theorem mixedTitlesFrom_capitalizedChars_eq_nil_iff (h : ∀ word ∈ words, IsWord word) :
    mixedTitlesFrom i (capitalizedChars words) = [] ↔ ¬ SplitsInitialism words := by
  induction words generalizing i with
  | nil => exact iff_of_true rfl not_splitsInitialism_nil
  | cons word words ih =>
    have hwords : ∀ later ∈ words, IsWord later := fun later hlater =>
      h later (List.mem_cons_of_mem word hlater)
    rw [capitalizedChars, List.flatMap_cons, ← capitalizedChars,
      mixedTitlesFrom_append_eq_nil_iff (isWritten_capitalized (h word List.mem_cons_self))
        (stopsAt_isLower_capitalizedChars hwords),
      takeWhile_isDigit_capitalizedChars hwords, ih hwords, splitsInitialism_cons_iff, not_or]

end Joined

/-! ## The new name -/

section Names

variable {unit : SourceUnit} {decl : Declaration} {remark : Remark} {name word : String}

/-- A name is not remarked upon for low lines, whatever is declared with it. -/
def KeepsMixedCaps (name : String) : Prop :=
  ∀ (unit : SourceUnit) (decl : Declaration), decl.name = name →
    mixedCapsRemark? unit decl = .ok none

theorem hasUnderscoreWords_eq_false (h : ∀ c ∈ name.toList, c.isAlphanum = true) :
    hasUnderscoreWords name = false := by
  have hsub : (Text.trimWhile (· == '_') name).toList ⊆ name.toList := by
    rw [Text.trimWhile, String.toList_ofList, Text.dropEndWhile]
    intro c hc
    exact List.dropWhile_subset _ (List.mem_reverse.mp (List.dropWhile_subset _
      (List.mem_reverse.mp hc)))
  rw [hasUnderscoreWords, Text.hasChar, List.contains_eq_mem, decide_eq_false_iff_not]
  exact fun hlow => absurd (h '_' (hsub hlow)) (by decide)

theorem keepsMixedCaps_of_isAlphanum (h : ∀ c ∈ name.toList, c.isAlphanum = true) :
    KeepsMixedCaps name := by
  rintro unit decl rfl
  simp [mixedCapsRemark?, mixedCapsReplacement?, hasUnderscoreWords_eq_false h, pure, Except.pure]

theorem isAlphanum_toUpper {c : Char} (h : c.isAlphanum = true) : c.toUpper.isAlphanum = true := by
  by_cases hdigit : c.isDigit = true
  · rwa [toUpper_of_isDigit hdigit]
  · simp_all [Char.isAlphanum]

theorem isAlphanum_toLower {c : Char} (h : c.isAlphanum = true) : c.toLower.isAlphanum = true := by
  by_cases hdigit : c.isDigit = true
  · rwa [toLower_of_isDigit hdigit]
  · simp_all [Char.isAlphanum]

theorem isAlphanum_of_mem_lower (h : IsWord word) :
    ∀ c ∈ (Text.lower word).toList, c.isAlphanum = true := by
  rw [toList_lower h.isAlphanum, List.forall_mem_map]
  exact fun c hc => isAlphanum_toLower (h.isAlphanum c hc)

theorem isAlphanum_of_mem_capitalized (h : IsWord word) :
    ∀ c ∈ (capitalized word).toList, c.isAlphanum = true := by
  have halnum := h.isAlphanum
  rw [toList_capitalized halnum]
  split
  · rw [List.forall_mem_map]
    exact fun c hc => isAlphanum_toUpper (halnum c hc)
  · rw [List.forall_mem_append, List.forall_mem_map, List.forall_mem_map]
    exact ⟨fun c hc => isAlphanum_toUpper (halnum c (List.mem_of_mem_take hc)),
      fun c hc => isAlphanum_toLower (halnum c (List.mem_of_mem_drop hc))⟩

theorem isAlphanum_of_mem_capitalizedChars {words : List String} (h : ∀ word ∈ words, IsWord word) :
    ∀ c ∈ capitalizedChars words, c.isAlphanum = true := by
  intro c hc
  obtain ⟨word, hword, hc⟩ := List.mem_flatMap.mp hc
  exact isAlphanum_of_mem_capitalized (h word hword) c hc

/-- The words of a name that are written with a capital in mixed capitals: all, but not the first
one of a name that is not exported. -/
def capitalizedWords (name : String) : List String :=
  if isExported name then nameWords name else (nameWords name).tail

/-- The new name is the first word in small letters if the name is not exported, and the other words
with capitals. -/
theorem exists_toList_mixedCaps (hwords : nameWords name ≠ []) :
    ∃ small, (mixedCaps name (isExported name)).toList =
        small ++ capitalizedChars (capitalizedWords name) ∧
      (∀ c ∈ small, c.isUpper = false) ∧ ∀ c ∈ small, c.isAlphanum = true := by
  obtain ⟨first, rest, hnames⟩ := List.exists_cons_of_ne_nil hwords
  have hfirst : IsWord first := isWord_of_mem_nameWords (hnames ▸ List.mem_cons_self)
  rw [mixedCaps, hnames, String.toList_join, capitalizedWords, hnames]
  by_cases hexported : isExported name = true
  · exact ⟨[], by simp [hexported, capitalizedChars, List.flatMap_map], by simp, by simp⟩
  · refine ⟨(Text.lower first).toList, by simp [hexported, capitalizedChars, List.flatMap_map], ?_,
      isAlphanum_of_mem_lower hfirst⟩
    rw [toList_lower hfirst.isAlphanum, List.forall_mem_map]
    exact fun c _ => Text.isUpper_toLower c

theorem eq_mixedCaps_of_mixedCapsReplacement? {isTestFile : Bool} {new : String}
    (h : mixedCapsReplacement? isTestFile name = some new) :
    new = mixedCaps name (isExported name) ∧ nameWords name ≠ [] := by
  unfold mixedCapsReplacement? at h
  split at h
  · cases h
  · dsimp only at h
    split at h
    · cases h
    · rename_i hchanged
      refine ⟨(Option.some.inj h).symm, fun hwords => hchanged ?_⟩
      simp [mixedCaps, hwords]

/-- A remark on low lines proposes the name in mixed capitals. -/
theorem proposes_of_mixedCapsRemark? (h : mixedCapsRemark? unit decl = .ok (some remark)) :
    remark.Proposes unit decl (mixedCaps decl.name (isExported decl.name)) ∧
      nameWords decl.name ≠ [] := by
  unfold mixedCapsRemark? at h
  split at h
  case h_1 => cases h
  case h_2 new hnew =>
    obtain ⟨request, hrequest, h⟩ := bind_eq_ok.mp h
    obtain rfl := Option.some.inj (Except.ok.inj h)
    obtain ⟨rfl, hwords⟩ := eq_mixedCaps_of_mixedCapsReplacement? hnew
    exact ⟨⟨hrequest, _, rfl⟩, hwords⟩

/-- **When a name in mixed capitals is remarked upon for its acronyms**: the remark on the old name
proposes a name without low lines, and this one keeps its acronyms in one case unless one of them
was divided among the words of the old name. -/
theorem keepsInitialisms_iff_of_mixedCapsRemark?
    (h : mixedCapsRemark? unit decl = .ok (some remark)) :
    remark.Proposes unit decl (mixedCaps decl.name (isExported decl.name)) ∧
      KeepsMixedCaps (mixedCaps decl.name (isExported decl.name)) ∧
      (KeepsInitialisms (mixedCaps decl.name (isExported decl.name)) ↔
        ¬ SplitsInitialism (capitalizedWords decl.name)) := by
  obtain ⟨hproposes, hwords⟩ := proposes_of_mixedCapsRemark? h
  obtain ⟨small, hchars, hsmall, hsmallAlnum⟩ := exists_toList_mixedCaps hwords
  have hcapitalized : ∀ word ∈ capitalizedWords decl.name, IsWord word := by
    intro word hword
    refine @isWord_of_mem_nameWords decl.name word ?_
    rw [capitalizedWords] at hword
    split at hword
    · exact hword
    · exact List.mem_of_mem_tail hword
  have halnum : ∀ c ∈ (mixedCaps decl.name (isExported decl.name)).toList,
      c.isAlphanum = true := by
    rw [hchars, List.forall_mem_append]
    exact ⟨hsmallAlnum, isAlphanum_of_mem_capitalizedChars hcapitalized⟩
  refine ⟨hproposes, keepsMixedCaps_of_isAlphanum halnum, ?_⟩
  -- What stands in small letters at the front has no title, so only the capitalized words count.
  rw [keepsInitialisms_iff, mixedInitialisms_eq, hasUnderscoreWords_eq_false halnum, hchars]
  rw [if_neg (by simp), mixedTitlesFrom_append_of_not_isUpper hsmall,
    mixedTitlesFrom_capitalizedChars_eq_nil_iff hcapitalized]

/-- An acronym with its digits in one word stays an acronym. -/
theorem keepsInitialisms_parseUTF8ID :
    ∃ remark, mixedCapsRemark? (constantUnit "parse_utf8_id") (constantNamed "parse_utf8_id") =
        .ok (some remark) ∧
      remark.Proposes (constantUnit "parse_utf8_id") (constantNamed "parse_utf8_id")
        "parseUTF8ID" ∧ KeepsMixedCaps "parseUTF8ID" ∧ KeepsInitialisms "parseUTF8ID" := by
  have hname : mixedCaps "parse_utf8_id" (isExported "parse_utf8_id") = "parseUTF8ID" := by
    decide +kernel
  have hwhole : ¬ SplitsInitialism (capitalizedWords "parse_utf8_id") := by
    have hwords : capitalizedWords "parse_utf8_id" = ["utf8", "id"] := by decide +kernel
    rw [hwords]
    simp [splitsInitialism_cons_iff]
  have hflagged : (mixedCapsRemark? (constantUnit "parse_utf8_id")
      (constantNamed "parse_utf8_id")).toOption.join.isSome = true := by decide +kernel
  obtain ⟨remark, h⟩ := exists_remark_of_isSome hflagged
  obtain ⟨hproposes, hmixed, hkeeps⟩ := keepsInitialisms_iff_of_mixedCapsRemark? h
  exact ⟨remark, h, hname ▸ ⟨hproposes, hmixed, hkeeps.mpr hwhole⟩⟩

/-- **The new name may be remarked upon**: `UTF_8` is to be renamed to `Utf8`. -/
theorem not_forall_keepsInitialisms :
    ¬ ∀ (unit : SourceUnit) (decl : Declaration) (remark : Remark),
      mixedCapsRemark? unit decl = .ok (some remark) →
        KeepsMixedCaps (mixedCaps decl.name (isExported decl.name)) ∧
          KeepsInitialisms (mixedCaps decl.name (isExported decl.name)) := by
  intro hall
  have hname : mixedCaps "UTF_8" (isExported "UTF_8") = "Utf8" := by decide +kernel
  have hmixed : mixedInitialisms "Utf8" ≠ [] := by decide +kernel
  have hflagged : (mixedCapsRemark? (constantUnit "UTF_8")
      (constantNamed "UTF_8")).toOption.join.isSome = true := by decide +kernel
  obtain ⟨remark, h⟩ := exists_remark_of_isSome hflagged
  have hkeeps : KeepsInitialisms "Utf8" := hname ▸ (hall _ _ _ h).2
  exact hmixed (keepsInitialisms_iff.mp hkeeps)

end Names

end GoConventions
