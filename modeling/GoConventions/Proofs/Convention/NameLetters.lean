import GoConventions.Proofs.Convention.MixedCaps
import GoConventions.Proofs.Source.UpperCase

/-!
# The letters of a new name

A name in mixed capitals is put together of the words of the old name, and these hold its letters
and digits of ASCII, all of them and in their order (`Divides.flatMap_toList`).  Only the case of a
letter may change in a word.  So the new name has these letters and digits, and no others
(`map_toUpper_mixedCaps`).

Go allows letters and digits of all scripts in a name.  Those that are not of ASCII separate words
as low lines do, and are lost with them: the new name has all letters of the old one exactly when
the old one is of ASCII (`keepsLetters_iff_of_mixedCapsRemark?`).  What is left may be no name at
all, since it may begin with a digit.

Which characters are letters is left open here.  An `Alphabet` is any choice that is the usual one
on ASCII, and what is said of names holds for all of them.

## Main definitions

* `Alphabet`, `Alphabet.IsIdentifier`: letters and digits, and the names that are made of them.
* `Alphabet.KeepsLetters`: what a new name is expected to keep of the old one.

## Main results

* `map_toUpper_mixedCaps`: what the new name keeps of any old one.
* `keepsLetters_iff_of_mixedCapsRemark?`: when this is all that is expected.
* `not_forall_keepsLetters`: sometimes it is less.
-/

namespace GoConventions

/-! ## Identifiers -/

/-- Which characters are letters and which are digits, in all scripts.  In ASCII they are the usual
ones. -/
structure Alphabet where
  isLetter : Char → Bool
  isDigit : Char → Bool
  isLetter_ascii : ∀ c, c.toNat < 128 → isLetter c = c.isAlpha
  isDigit_ascii : ∀ c, c.toNat < 128 → isDigit c = c.isDigit

/-- The letters of Western Europe, without the two signs that stand among them. -/
def Alphabet.latin : Alphabet where
  isLetter c := c.isAlpha ||
    (0xC0 ≤ c.toNat && c.toNat ≤ 0xFF && c.toNat != 0xD7 && c.toNat != 0xF7)
  isDigit := Char.isDigit
  isLetter_ascii c h := by
    have habove : ¬ 0xC0 ≤ c.toNat := by omega
    simp [habove]
  isDigit_ascii _ _ := rfl

/-- A name without its low lines. -/
def withoutLowLines (name : String) : List Char :=
  name.toList.filter (· != '_')

namespace Alphabet

variable (alphabet : Alphabet)

/-- A name of letters, digits and low lines that starts with a letter. -/
structure IsIdentifier (name : String) : Prop where
  starts : ∃ c rest, name.toList = c :: rest ∧ alphabet.isLetter c = true
  consists : ∀ c ∈ name.toList,
    alphabet.isLetter c = true ∨ alphabet.isDigit c = true ∨ c = '_'

/-- A new name is an identifier again, has the letters and digits of the old one in their order, up
to letter case and without the low lines, and starts with an upper-case letter when the old one
does. -/
structure KeepsLetters (old new : String) : Prop where
  isIdentifier : alphabet.IsIdentifier new
  noLowLine : '_' ∉ new.toList
  letters : Text.upperChars new.toList = Text.upperChars (withoutLowLines old)
  isExported_eq : isExported new = isExported old

end Alphabet

/-! ## What words hold -/

/-- **The words of a text hold its letters and digits of ASCII**, in their order. -/
theorem Divides.flatMap_toList {i : Nat} {s : List Char} {words : List (String × Nat)}
    (h : Divides i s words) :
    words.flatMap (fun word => word.1.toList) = s.filter Char.isAlphanum := by
  induction h with
  | nil => rfl
  | @other i c rest words hc _ ih =>
    rw [List.filter_cons_of_neg (by simp [hc])]
    exact ih
  | @word i word rest words hword _ ih =>
    have hchars : ∀ c ∈ word, c.isAlphanum = true := by
      have hisWord : IsWord (String.ofList word) := ⟨rest, by rwa [String.toList_ofList]⟩
      intro c hc
      exact hisWord.isAlphanum c (by rwa [String.toList_ofList])
    rw [List.flatMap_cons, ih, List.filter_append, List.filter_eq_self.mpr hchars,
      String.toList_ofList]

theorem flatMap_nameWords (name : String) :
    (nameWords name).flatMap String.toList = name.toList.filter Char.isAlphanum := by
  rw [nameWords, List.flatMap_map]
  exact (divides_wordsFrom 0 name.toList).flatMap_toList

section Words

variable {word : String}

/-- In capitals it does not matter that letters were small before. -/
theorem map_toUpper_map_toLower (s : List Char) :
    (s.map Char.toLower).map Char.toUpper = s.map Char.toUpper := by
  rw [List.map_map]
  apply List.map_congr_left
  intro c _
  exact Text.toUpper_toLower c

/-- In small letters a word has the same letters. -/
theorem map_toUpper_lower (h : IsWord word) :
    (Text.lower word).toList.map Char.toUpper = word.toList.map Char.toUpper := by
  rw [toList_lower h.isAlphanum]
  exact map_toUpper_map_toLower word.toList

/-- With a capital a word has the same letters. -/
theorem map_toUpper_capitalized (h : IsWord word) :
    (capitalized word).toList.map Char.toUpper = word.toList.map Char.toUpper := by
  have hupper : ∀ s : List Char, (s.map Char.toUpper).map Char.toUpper = s.map Char.toUpper := by
    intro s
    rw [List.map_map]
    apply List.map_congr_left
    intro c _
    exact Text.toUpper_eq_self (Text.isLower_toUpper c)
  rw [toList_capitalized h.isAlphanum]
  split
  · exact hupper word.toList
  · rw [List.map_append, hupper, map_toUpper_map_toLower, ← List.map_append,
      List.take_append_drop]

end Words

/-! ## The characters of the new name -/

section NewNames

variable {name : String} {exported : Bool}

/-- The new name begins with the first word, and goes on with the others, each with a capital. -/
theorem exists_toList_mixedCaps_eq (hwords : nameWords name ≠ []) (exported : Bool) :
    ∃ first rest, nameWords name = first :: rest ∧ (∀ word ∈ first :: rest, IsWord word) ∧
      (mixedCaps name exported).toList =
        (if exported then capitalized first else Text.lower first).toList ++
          capitalizedChars rest := by
  obtain ⟨first, rest, hnames⟩ := List.exists_cons_of_ne_nil hwords
  refine ⟨first, rest, hnames, ?_, ?_⟩
  · intro word hword
    exact isWord_of_mem_nameWords (hnames ▸ hword)
  · rw [mixedCaps, hnames, String.toList_join, List.flatMap_cons, capitalizedChars,
      List.flatMap_map]

/-- **A new name has the letters and digits of ASCII of the old one**, up to letter case. -/
theorem map_toUpper_mixedCaps (hwords : nameWords name ≠ []) :
    (mixedCaps name exported).toList.map Char.toUpper =
      (name.toList.filter Char.isAlphanum).map Char.toUpper := by
  obtain ⟨first, rest, hnames, hall, hchars⟩ := exists_toList_mixedCaps_eq hwords exported
  have hfirst : ((if exported then capitalized first else Text.lower first).toList).map
      Char.toUpper = first.toList.map Char.toUpper := by
    have hword := hall first List.mem_cons_self
    cases exported with
    | true => exact map_toUpper_capitalized hword
    | false => exact map_toUpper_lower hword
  have hrest : (capitalizedChars rest).map Char.toUpper =
      (rest.flatMap String.toList).map Char.toUpper := by
    rw [capitalizedChars, List.map_flatMap, List.map_flatMap]
    apply List.flatMap_congr
    intro word hword
    exact map_toUpper_capitalized (hall word (List.mem_cons_of_mem first hword))
  rw [hchars, List.map_append, hfirst, hrest, ← List.map_append, ← List.flatMap_cons, ← hnames,
    flatMap_nameWords]

theorem isAlphanum_of_mem_mixedCaps (hwords : nameWords name ≠ []) :
    ∀ c ∈ (mixedCaps name exported).toList, c.isAlphanum = true := by
  obtain ⟨first, rest, -, hall, hchars⟩ := exists_toList_mixedCaps_eq hwords exported
  have hfirst := hall first List.mem_cons_self
  rw [hchars, List.forall_mem_append]
  constructor
  · cases exported with
    | true => exact isAlphanum_of_mem_capitalized hfirst
    | false => exact isAlphanum_of_mem_lower hfirst
  · apply isAlphanum_of_mem_capitalizedChars
    intro word hword
    exact hall word (List.mem_cons_of_mem first hword)

/-- If the new name begins with a letter, it is a capital for an exported name and a small letter
for another one. -/
theorem isUpper_head_mixedCaps (hwords : nameWords name ≠ []) {c : Char} {rest : List Char}
    (hname : (mixedCaps name exported).toList = c :: rest) (hc : c.isAlpha = true) :
    c.isUpper = exported := by
  obtain ⟨first, later, -, hall, hchars⟩ := exists_toList_mixedCaps_eq hwords exported
  have hfirst := hall first List.mem_cons_self
  cases exported with
  | true =>
    -- No word is written with a small letter at its start.
    have hstop : StopsAt Char.isLower (mixedCaps name true).toList := by
      rw [hchars]
      apply (stopsAt_isLower_capitalized hfirst).append
      apply stopsAt_isLower_capitalizedChars
      intro word hword
      exact hall word (List.mem_cons_of_mem first hword)
    rw [hname, stopsAt_cons] at hstop
    simpa [Text.isAlpha_eq, hstop] using hc
  | false =>
    rw [if_neg Bool.false_ne_true, toList_lower hfirst.isAlphanum] at hchars
    obtain ⟨d, ds, hword⟩ := List.exists_cons_of_ne_nil hfirst.ne_nil
    rw [hword, List.map_cons, List.cons_append, hname] at hchars
    rw [(List.cons.inj hchars).1]
    exact Text.isUpper_toLower d

end NewNames

/-! ## When all letters are kept -/

section Kept

variable {alphabet : Alphabet} {unit : SourceUnit} {decl : Declaration} {remark : Remark}
  {name : String}

theorem bne_lowLine_of_isAlphanum {c : Char} (h : c.isAlphanum = true) : (c != '_') = true := by
  rw [bne_iff_ne]
  rintro rfl
  exact absurd h (by decide)

/-- Letters and digits of ASCII are no low lines, so nothing of them is lost with these. -/
theorem filter_isAlphanum_withoutLowLines (name : String) :
    (withoutLowLines name).filter Char.isAlphanum = name.toList.filter Char.isAlphanum := by
  rw [withoutLowLines, List.filter_filter]
  apply List.filter_congr
  intro c _
  cases hc : c.isAlphanum with
  | true => rw [bne_lowLine_of_isAlphanum hc, Bool.and_self]
  | false => rw [Bool.false_and]

/-- A name of ASCII is one of letters and digits of ASCII when its low lines are taken away. -/
theorem withoutLowLines_of_ascii (hname : alphabet.IsIdentifier name)
    (hascii : ∀ c ∈ name.toList, c.toNat < 128) :
    withoutLowLines name = name.toList.filter Char.isAlphanum := by
  rw [← filter_isAlphanum_withoutLowLines, eq_comm, List.filter_eq_self]
  intro c hc
  obtain ⟨hmem, hlow⟩ := List.mem_filter.mp hc
  have hc := hascii c hmem
  rcases hname.consists c hmem with hletter | hdigit | rfl
  · rw [alphabet.isLetter_ascii c hc] at hletter
    rw [Char.isAlphanum, hletter, Bool.true_or]
  · rw [alphabet.isDigit_ascii c hc] at hdigit
    rw [Char.isAlphanum, hdigit, Bool.or_true]
  · exact absurd hlow (by decide)

/-- The new name of an identifier of ASCII begins with a letter, which is of the case of the old
one. -/
theorem exists_head_mixedCaps (hwords : nameWords name ≠ []) (hname : alphabet.IsIdentifier name)
    (hascii : ∀ c ∈ name.toList, c.toNat < 128) :
    ∃ d rest, (mixedCaps name (isExported name)).toList = d :: rest ∧ d.isAlpha = true ∧
      Text.isUpper d = isExported name := by
  have hupper := @map_toUpper_mixedCaps name (isExported name) hwords
  have halnum := @isAlphanum_of_mem_mixedCaps name (isExported name) hwords
  obtain ⟨c, chars, hchars, hletter⟩ := hname.starts
  have hc : c.isAlpha = true := by
    rw [← alphabet.isLetter_ascii c (hascii c (hchars ▸ List.mem_cons_self))]
    exact hletter
  have hkept : c.isAlphanum = true := by rw [Char.isAlphanum, hc, Bool.true_or]
  -- The first character is kept, so the new name begins with it in one case or the other.
  rw [hchars, List.filter_cons_of_pos hkept, List.map_cons] at hupper
  obtain ⟨d, rest, hnew, hd, -⟩ := List.map_eq_cons_iff.mp hupper
  have halpha : d.isAlpha = true := by
    rw [← Text.isUpper_toUpper, hd, Text.isUpper_toUpper, hc]
  have hdAscii := Text.toNat_lt_of_isAlphanum (halnum d (hnew ▸ List.mem_cons_self))
  have hplain := Text.isUpper_eq_isUpper ⟨d.toNat, hdAscii⟩
  rw [Char.ofNat_toNat] at hplain
  exact ⟨d, rest, hnew, halpha, hplain.trans (isUpper_head_mixedCaps hwords hnew halpha)⟩

theorem keepsLetters_of_ascii (hwords : nameWords name ≠ []) (hname : alphabet.IsIdentifier name)
    (hascii : ∀ c ∈ name.toList, c.toNat < 128) :
    alphabet.KeepsLetters name (mixedCaps name (isExported name)) := by
  have halnum := @isAlphanum_of_mem_mixedCaps name (isExported name) hwords
  obtain ⟨d, rest, hnew, hd, hcase⟩ := exists_head_mixedCaps hwords hname hascii
  have hclass : ∀ c ∈ (mixedCaps name (isExported name)).toList,
      alphabet.isLetter c = c.isAlpha ∧ alphabet.isDigit c = c.isDigit := by
    intro c hc
    have hlt := Text.toNat_lt_of_isAlphanum (halnum c hc)
    exact ⟨alphabet.isLetter_ascii c hlt, alphabet.isDigit_ascii c hlt⟩
  constructor
  case isIdentifier =>
    constructor
    case starts => exact ⟨d, rest, hnew, (hclass d (hnew ▸ List.mem_cons_self)).1.trans hd⟩
    case consists =>
      intro c hc
      rw [(hclass c hc).1, (hclass c hc).2, ← or_assoc, ← Bool.or_eq_true]
      exact Or.inl (halnum c hc)
  case noLowLine =>
    intro hlow
    exact absurd (halnum '_' hlow) (by decide)
  case letters =>
    rw [withoutLowLines_of_ascii hname hascii, Text.upperChars_eq_map halnum,
      map_toUpper_mixedCaps hwords, Text.upperChars_eq_map]
    intro c hc
    exact (List.mem_filter.mp hc).2
  case isExported_eq =>
    rw [isExported, hnew]
    exact hcase

/-- A name of which no letter is lost is of ASCII: a character that is no low line has at least one
character in upper case, and the new name has too few of them if any is lost. -/
theorem ascii_of_keepsLetters (hwords : nameWords name ≠ [])
    (h : alphabet.KeepsLetters name (mixedCaps name (isExported name))) :
    ∀ c ∈ name.toList, c.toNat < 128 := by
  have halnum := @isAlphanum_of_mem_mixedCaps name (isExported name) hwords
  have hlength : (withoutLowLines name).length ≤
      ((withoutLowLines name).filter Char.isAlphanum).length := by
    calc (withoutLowLines name).length
        ≤ (Text.upperChars (withoutLowLines name)).length :=
          Text.length_le_length_upperChars _
      _ = ((mixedCaps name (isExported name)).toList.map Char.toUpper).length := by
          rw [← h.letters, Text.upperChars_eq_map halnum]
      _ = ((withoutLowLines name).filter Char.isAlphanum).length := by
          rw [map_toUpper_mixedCaps hwords, List.length_map, filter_isAlphanum_withoutLowLines]
  have hall := List.length_filter_eq_length_iff.mp
    (Nat.le_antisymm (List.length_filter_le _ _) hlength)
  intro c hc
  by_cases hlow : c = '_'
  · rw [hlow]
    decide
  · have hmem : c ∈ withoutLowLines name := List.mem_filter.mpr ⟨hc, bne_iff_ne.mpr hlow⟩
    exact Text.toNat_lt_of_isAlphanum (hall c hmem)

/-- **When a name in mixed capitals has the letters of the old one**: for every identifier that is
remarked upon for its low lines, the name that is proposed has its letters and digits of ASCII, and
nothing else.  It keeps all letters and the case of the first one, and is an identifier, exactly
when the old name is of ASCII. -/
theorem keepsLetters_iff_of_mixedCapsRemark? (hname : alphabet.IsIdentifier decl.name)
    (h : mixedCapsRemark? unit decl = .ok (some remark)) :
    remark.Proposes unit decl (mixedCaps decl.name (isExported decl.name)) ∧
      Text.upperChars (mixedCaps decl.name (isExported decl.name)).toList =
        Text.upperChars (decl.name.toList.filter Char.isAlphanum) ∧
      (alphabet.KeepsLetters decl.name (mixedCaps decl.name (isExported decl.name)) ↔
        ∀ c ∈ decl.name.toList, c.toNat < 128) := by
  obtain ⟨hproposes, hwords⟩ := proposes_of_mixedCapsRemark? h
  refine ⟨hproposes, ?_, ascii_of_keepsLetters hwords, keepsLetters_of_ascii hwords hname⟩
  rw [Text.upperChars_eq_map (isAlphanum_of_mem_mixedCaps hwords), map_toUpper_mixedCaps hwords,
    Text.upperChars_eq_map]
  intro c hc
  exact (List.mem_filter.mp hc).2

/-- Digits stay with their words, and a run of capitals gives up its last one. -/
theorem keepsLetters_maxURL2IDs :
    ∃ remark, mixedCapsRemark? (constantUnit "MAX_url2_IDs") (constantNamed "MAX_url2_IDs") =
        .ok (some remark) ∧
      remark.Proposes (constantUnit "MAX_url2_IDs") (constantNamed "MAX_url2_IDs") "MaxUrl2IDs" ∧
      Alphabet.latin.KeepsLetters "MAX_url2_IDs" "MaxUrl2IDs" := by
  have hname : mixedCaps "MAX_url2_IDs" (isExported "MAX_url2_IDs") = "MaxUrl2IDs" := by
    decide +kernel
  have hidentifier : Alphabet.latin.IsIdentifier (constantNamed "MAX_url2_IDs").name :=
    ⟨⟨'M', _, rfl, by decide⟩, by simp [constantNamed, Alphabet.latin]⟩
  have hascii : ∀ c ∈ (constantNamed "MAX_url2_IDs").name.toList, c.toNat < 128 := by
    simp [constantNamed]
  have hflagged : (mixedCapsRemark? (constantUnit "MAX_url2_IDs")
      (constantNamed "MAX_url2_IDs")).toOption.join.isSome = true := by decide +kernel
  obtain ⟨remark, h⟩ := exists_remark_of_isSome hflagged
  obtain ⟨hproposes, -, hkeeps⟩ := keepsLetters_iff_of_mixedCapsRemark? hidentifier h
  exact ⟨remark, h, hname ▸ hproposes, hname ▸ hkeeps.mpr hascii⟩

/-- **Letters may be lost**: `max_größe` is to be renamed to `maxGrE`. -/
theorem not_forall_keepsLetters :
    ¬ ∀ (alphabet : Alphabet) (unit : SourceUnit) (decl : Declaration) (remark : Remark),
      alphabet.IsIdentifier decl.name → mixedCapsRemark? unit decl = .ok (some remark) →
        alphabet.KeepsLetters decl.name (mixedCaps decl.name (isExported decl.name)) := by
  intro hall
  have hidentifier : Alphabet.latin.IsIdentifier (constantNamed "max_größe").name :=
    ⟨⟨'m', _, rfl, by decide⟩, by simp [constantNamed, Alphabet.latin]⟩
  have hflagged : (mixedCapsRemark? (constantUnit "max_größe")
      (constantNamed "max_größe")).toOption.join.isSome = true := by decide +kernel
  obtain ⟨remark, h⟩ := exists_remark_of_isSome hflagged
  have hletters := (hall _ _ _ _ hidentifier h).letters
  exact absurd hletters (by decide +kernel)

end Kept

end GoConventions
