import GoConventions.Proofs.Convention.ErrorLiterals

/-!
# Corrected error texts

An error text is checked as it is denoted and corrected as it is written.  Both agree on the first
word: what is taken away at the end begins with no letter, digit or low line, so the first word
stays as it is but for its capital.  They need not agree on the rest.  A capital that is written as
an escape is no letter for the correction, and a mark or blank that is written as an escape, or the
line feed at the end of a raw literal, is not taken away.  In these cases the corrected call is
remarked upon again, and in no others.

## Main definitions

* `StringLiteral.StartsWithEscape`, `StringLiteral.KeepsPunctuation`: literals that the correction
  does not put right.
* `CallSite.KeepsErrorText`: calls that are not remarked upon for their error text.
* `CallSite.withErrorText`: the corrected call.

## Main results

* `exists_decodeInside_trimmedInside`: what a literal denotes without the punctuation at its end.
* `exists_decodeLiteral_fixedLiteral`: what a corrected literal denotes.
* `keepsErrorText_iff_of_callRemarks`: when the corrected call is remarked upon again.
-/

namespace GoConventions

open Literal

/-! ## The first word and the end of a text -/

section Texts

variable {c : Char} {text new : String} {properNouns exportedNames : List String}

theorem startsCapitalized_congr
    (h : new.toList.takeWhile isWordChar = text.toList.takeWhile isWordChar) :
    startsCapitalized properNouns exportedNames new =
      startsCapitalized properNouns exportedNames text := by
  rw [startsCapitalized, h, startsCapitalized]

/-- A text that starts with a capital has one as its first character. -/
theorem exists_of_startsCapitalized {s : List Char}
    (h : startsCapitalized properNouns exportedNames (String.ofList s) = true) :
    ∃ c rest, s = c :: rest ∧ c.isUpper = true := by
  cases s with
  | nil => cases h
  | cons c rest =>
    refine ⟨c, rest, rfl, ?_⟩
    rw [startsCapitalized, String.toList_ofList, List.takeWhile_cons] at h
    by_cases hc : isWordChar c = true
    · simp_all
    · simp [hc] at h

theorem not_startsCapitalized_of_isLower {rest : List Char} (hc : c.isLower = true) :
    startsCapitalized properNouns exportedNames (String.ofList (c :: rest)) = false := by
  by_contra h
  obtain ⟨d, _, heq, hd⟩ := exists_of_startsCapitalized (Bool.not_eq_false _ ▸ h)
  rw [← (List.cons.inj heq).1, Text.not_isUpper_of_isLower hc] at hd
  cases hd

theorem endsWithPunctuation_concat {s : List Char} :
    endsWithPunctuation (String.ofList (s ++ [c])) = (isMarkOrBlank c || c == '\n') := by
  simp [endsWithPunctuation, isMarkOrBlank]

/-- The marks and blanks, one by one. -/
theorem eq_of_isMarkOrBlank (hc : isMarkOrBlank c = true) :
    c = '.' ∨ c = '!' ∨ c = '?' ∨ c = ':' ∨ c = ';' ∨ c = ' ' ∨ c = '\t' := by
  simpa [isMarkOrBlank, isTrailingPunctuation, or_assoc] using hc

theorem not_isWordChar_of_isMarkOrBlank (hc : isMarkOrBlank c = true) : isWordChar c = false := by
  rcases eq_of_isMarkOrBlank hc with rfl | rfl | rfl | rfl | rfl | rfl | rfl <;> rfl

/-- A letter is no punctuation in either case. -/
theorem endsWithPunctuation_concat_of_isAlpha {s : List Char} (hc : c.isAlpha = true) :
    endsWithPunctuation (String.ofList (s ++ [c])) = false := by
  have hword : isWordChar c = true := by simp [isWordChar, Char.isAlphanum, hc]
  rw [endsWithPunctuation_concat, Bool.or_eq_false_iff]
  constructor
  · by_contra hmark
    rw [not_isWordChar_of_isMarkOrBlank (by simpa using hmark)] at hword
    cases hword
  · refine beq_eq_false_iff_ne.mpr ?_
    rintro rfl
    cases hc

/-- The case of a letter at the start does not count for the end. -/
theorem endsWithPunctuation_cons_toLower {rest : List Char} (hc : c.isAlpha = true) :
    endsWithPunctuation (String.ofList (c.toLower :: rest)) =
      endsWithPunctuation (String.ofList (c :: rest)) := by
  rcases List.eq_nil_or_concat' rest with rfl | ⟨rest, d, rfl⟩
  · have hsmall : c.toLower.isAlpha = true := by rwa [Text.isAlpha_toLower]
    have hold := @endsWithPunctuation_concat_of_isAlpha c [] hc
    have hnew := @endsWithPunctuation_concat_of_isAlpha c.toLower [] hsmall
    exact hnew.trans hold.symm
  · rw [← List.cons_append, endsWithPunctuation_concat, ← List.cons_append,
      endsWithPunctuation_concat]

end Texts

/-! ## The decoded text without its punctuation -/

section Decoding

variable {c : Char} {s text : List Char} {pieces front back : List Piece}

theorem hexDigit?_of_isMarkOrBlank (hc : isMarkOrBlank c = true) : hexDigit? c = none := by
  rcases eq_of_isMarkOrBlank hc with rfl | rfl | rfl | rfl | rfl | rfl | rfl <;> rfl

/-- An escaped mark or blank denotes itself. -/
theorem decodeFrom_escaped_of_isMarkOrBlank (hc : isMarkOrBlank c = true) :
    decodeFrom 0 ('\\' :: c :: s) = (c :: ·) <$> decodeFrom 0 s := by
  have hsingle : c ≠ '\n' ∧ escape c s = .ok (c, 0) := by
    rcases eq_of_isMarkOrBlank hc with rfl | rfl | rfl | rfl | rfl | rfl | rfl <;>
      exact ⟨by decide, escape_of_single rfl rfl⟩
  rw [decodeFrom_escaped hsingle.1, hsingle.2]
  rfl

theorem decodeFrom_lineFeed :
    decodeFrom 0 ('\\' :: 'n' :: s) = ('\n' :: ·) <$> decodeFrom 0 s := by
  rw [decodeFrom_escaped (by decide), escape_of_single rfl rfl]
  rfl

theorem decodeFrom_escaped_backslash :
    decodeFrom 0 ('\\' :: '\\' :: s) = ('\\' :: ·) <$> decodeFrom 0 s := by
  rw [decodeFrom_escaped (by decide), escape_of_single rfl rfl]
  rfl

/-- Pieces that are taken away denote no part of a word. -/
theorem exists_decodeFrom_spell_of_isTrimmed (hback : ∀ piece ∈ back, piece.isTrimmed = true) :
    ∃ tail, decodeFrom 0 (spell back) = .ok tail ∧ ∀ c ∈ tail, isWordChar c = false := by
  induction back with
  | nil => exact ⟨[], rfl, by simp⟩
  | cons piece back ih =>
    obtain ⟨hfirst, hback⟩ := List.forall_mem_cons.mp hback
    obtain ⟨tail, htail, hword⟩ := ih hback
    rcases piece with ⟨c, hc⟩ | ⟨c, hc⟩
    · refine ⟨c :: tail, ?_, ?_⟩
      · rw [spell_plain, decodeFrom_plain hc.2.1, htail]
        rfl
      · exact List.forall_mem_cons.mpr ⟨not_isWordChar_of_isMarkOrBlank hfirst, hword⟩
    · obtain rfl := beq_iff_eq.mp hfirst
      refine ⟨'\n' :: tail, ?_, ?_⟩
      · rw [spell_escaped, decodeFrom_lineFeed, htail]
        rfl
      · exact List.forall_mem_cons.mpr ⟨by decide, hword⟩

/-- No digit follows where pieces are taken away. -/
theorem hexDigit?_head?_spell (hback : ∀ piece ∈ back, piece.isTrimmed = true) :
    ∀ c ∈ (spell back).head?, hexDigit? c = none := by
  rcases back with _ | ⟨⟨c, hc⟩ | ⟨c, hc⟩, back⟩
  · nofun
  · intro d hd
    obtain rfl : c = d := Option.some.inj hd
    exact hexDigit?_of_isMarkOrBlank (hback _ List.mem_cons_self)
  · intro d hd
    obtain rfl : '\\' = d := Option.some.inj hd
    rfl

/-- Whole pieces at the end are taken away with what they denote. -/
theorem decodeFrom_spell_rdropWhile (h : decodeFrom 0 (spell pieces) = .ok text) :
    ∃ new, decodeFrom 0 (spell (pieces.rdropWhile Piece.isTrimmed)) = .ok new ∧
      new.takeWhile isWordChar = text.takeWhile isWordChar := by
  have hback : ∀ piece ∈ pieces.rtakeWhile Piece.isTrimmed, piece.isTrimmed = true :=
    fun piece hpiece => List.mem_rtakeWhile_imp hpiece
  rw [← @List.rdropWhile_append_rtakeWhile _ Piece.isTrimmed pieces, spell_append,
    decodeFrom_spell_append (hexDigit?_head?_spell hback), bind_eq_ok] at h
  obtain ⟨new, hnew, h⟩ := h
  obtain ⟨tail, htail, hword⟩ := exists_decodeFrom_spell_of_isTrimmed hback
  rw [htail] at h
  obtain rfl := Except.ok.inj h
  exact ⟨new, hnew, (takeWhile_append_of_stopsAt (stopsAt_of_forall hword)).symm⟩

/-- The piece that is cut denotes its second character, which is part of no word. -/
theorem CutsAt.exists_spell_eq (hcut : CutsAt front pieces) :
    ∃ x later, spell pieces = spell front ++ '\\' :: x :: later ∧ isWordChar x = false ∧
      decodeFrom 0 ('\\' :: x :: later) = (x :: ·) <$> decodeFrom 0 later := by
  cases hcut with
  | @mark c hc back hmark hback =>
    exact ⟨c, spell back, by simp, not_isWordChar_of_isMarkOrBlank hmark,
      decodeFrom_escaped_of_isMarkOrBlank hmark⟩
  | @letter hc hn back hback =>
    exact ⟨'\\', 'n' :: spell back, by simp, by decide, decodeFrom_escaped_backslash⟩

/-- The half of a piece that is left denotes a backslash, which is part of no word either. -/
theorem decodeFrom_of_cutsAt (hcut : CutsAt front pieces)
    (h : decodeFrom 0 (spell pieces) = .ok text) :
    ∃ new, decodeFrom 0 (spell front ++ ['\\']) = .ok (new ++ ['\\']) ∧
      (new ++ ['\\']).takeWhile isWordChar = text.takeWhile isWordChar := by
  obtain ⟨x, later, hspell, hx, hdecode⟩ := hcut.exists_spell_eq
  have hbackslash : ∀ s, ∀ c ∈ ('\\' :: s).head?, hexDigit? c = none := by
    rintro s c ⟨rfl⟩
    rfl
  rw [hspell, decodeFrom_spell_append (hbackslash _), hdecode, bind_eq_ok] at h
  obtain ⟨new, hnew, h⟩ := h
  obtain ⟨tail, htail, rfl⟩ := map_eq_ok.mp h
  obtain ⟨after, -, rfl⟩ := map_eq_ok.mp htail
  refine ⟨new, ?_, ?_⟩
  · rw [decodeFrom_spell_append (hbackslash _), hnew]
    rfl
  · rw [takeWhile_append_of_stopsAt (stopsAt_cons.mpr hx),
      takeWhile_append_of_stopsAt (stopsAt_cons.mpr (by decide))]

end Decoding

/-! ## Literals that the correction does not put right -/

namespace StringLiteral

/-- The first character of a literal is written as an escape. -/
def StartsWithEscape (written : StringLiteral) : Prop :=
  ∃ c hc pieces, written = interpreted (.escaped c hc :: pieces)

/-- Without the marks and blanks that are taken away a literal still denotes a text with punctuation
at its end.  In an interpreted literal this is written as an escape, in a raw one it is a line
feed. -/
def KeepsPunctuation : StringLiteral → Prop
  | interpreted pieces => ¬ CutsPiece pieces ∧ ∃ text,
      decodeLiteral (interpreted (pieces.rdropWhile Piece.isTrimmed)).source = .ok text ∧
        endsWithPunctuation text = true
  | raw chars _ => (chars.rdropWhile isMarkOrBlank).getLast? = some '\n'

end StringLiteral

section Literals

variable {c : Char} {s text : List Char} {written : StringLiteral}
  {properNouns exportedNames : List String}

/-- What an interpreted literal denotes without the punctuation at its end. -/
theorem exists_decodeFrom_trimmedInside {pieces : List Piece}
    (h : decodeFrom 0 (spell pieces) = .ok text) :
    ∃ new, decodeFrom 0 (trimmedInside true (spell pieces)) = .ok new ∧
      new.takeWhile isWordChar = text.takeWhile isWordChar ∧
      (endsWithPunctuation (String.ofList new) = true ↔
        (StringLiteral.interpreted pieces).KeepsPunctuation) := by
  by_cases hcut : CutsPiece pieces
  · -- The backslash that is left is at the end of the text, and no punctuation.
    obtain ⟨front, hfront⟩ := hcut
    obtain ⟨new, hnew, hword⟩ := decodeFrom_of_cutsAt hfront h
    refine ⟨new ++ ['\\'], trimmedInside_of_cutsAt hfront ▸ hnew, hword, ?_⟩
    rw [endsWithPunctuation_concat]
    exact iff_of_false (by decide) fun hkeeps => hkeeps.1 ⟨front, hfront⟩
  · obtain ⟨new, hnew, hword⟩ := decodeFrom_spell_rdropWhile h
    refine ⟨new, trimmedInside_of_not_cutsPiece hcut ▸ hnew, hword, ?_⟩
    have hsource : decodeLiteral
        (StringLiteral.interpreted (pieces.rdropWhile Piece.isTrimmed)).source =
          .ok (String.ofList new) := by
      rw [StringLiteral.source, StringLiteral.decodeLiteral_quoted]
      exact map_eq_ok.mpr ⟨new, hnew, rfl⟩
    rw [StringLiteral.KeepsPunctuation, and_iff_right hcut, hsource]
    constructor
    · exact fun hends => ⟨_, rfl, hends⟩
    · rintro ⟨_, htext, hends⟩
      rwa [Except.ok.inj htext]

/-- Marks and blanks at the end are no part of the first word. -/
theorem takeWhile_isWordChar_rdropWhile (chars : List Char) :
    (chars.rdropWhile isMarkOrBlank).takeWhile isWordChar = chars.takeWhile isWordChar := by
  have hdivide := @List.rdropWhile_append_rtakeWhile _ isMarkOrBlank chars
  have hstop : StopsAt isWordChar (chars.rtakeWhile isMarkOrBlank) :=
    stopsAt_of_forall fun c hc => not_isWordChar_of_isMarkOrBlank (List.mem_rtakeWhile_imp hc)
  calc (chars.rdropWhile isMarkOrBlank).takeWhile isWordChar
    _ = (chars.rdropWhile isMarkOrBlank ++ chars.rtakeWhile isMarkOrBlank).takeWhile
          isWordChar := (takeWhile_append_of_stopsAt hstop).symm
    _ = chars.takeWhile isWordChar := by rw [hdivide]

/-- The only punctuation that is not taken away is a line feed. -/
theorem endsWithPunctuation_rdropWhile (chars : List Char) :
    endsWithPunctuation (String.ofList (chars.rdropWhile isMarkOrBlank)) = true ↔
      (chars.rdropWhile isMarkOrBlank).getLast? = some '\n' := by
  have hlast := List.rdropWhile_last_not isMarkOrBlank chars
  rcases List.eq_nil_or_concat' (chars.rdropWhile isMarkOrBlank) with hnil | ⟨kept, c, hkept⟩
  · rw [hnil]
    exact iff_of_false (by decide) (by decide)
  · simp only [hkept] at hlast ⊢
    rw [endsWithPunctuation_concat]
    simp_all

/-- **What a literal denotes without the punctuation at its end**: a text with the same first word,
and with punctuation at its end if the literal keeps some. -/
theorem exists_decodeInside_trimmedInside (h : written.decodeInside written.inside = .ok text) :
    ∃ new, written.decodeInside (trimmedInside (written.quote == '\x22') written.inside) =
        .ok new ∧
      new.takeWhile isWordChar = text.takeWhile isWordChar ∧
      (endsWithPunctuation (String.ofList new) = true ↔ written.KeepsPunctuation) := by
  cases written with
  | interpreted pieces => exact exists_decodeFrom_trimmedInside h
  | raw chars hchars =>
    obtain rfl := Except.ok.inj h
    exact ⟨chars.rdropWhile isMarkOrBlank, congrArg Except.ok trimmedInside_false,
      takeWhile_isWordChar_rdropWhile chars, endsWithPunctuation_rdropWhile chars⟩

/-- A capital at the start is put right unless it is written as an escape. -/
theorem exists_decodeInside_withSmallStart (h : written.decodeInside s = .ok text)
    (hcapital : startsCapitalized properNouns exportedNames (String.ofList text) = true) :
    ∃ new, written.decodeInside (withSmallStart s) = .ok new ∧
      (startsCapitalized properNouns exportedNames (String.ofList new) = true ↔
        s.head? = some '\\') ∧
      endsWithPunctuation (String.ofList new) = endsWithPunctuation (String.ofList text) := by
  obtain ⟨c, rest, rfl, hc⟩ := exists_of_startsCapitalized hcapital
  have halpha : c.isAlpha = true := by simp [Text.isAlpha_eq, hc]
  cases s with
  | nil =>
    rw [written.decodeInside_nil] at h
    cases h
  | cons d s =>
    by_cases hd : d = '\\'
    · -- A backslash is no letter, so nothing changes.
      subst hd
      have hsame : withSmallStart ('\\' :: s) = '\\' :: s :=
        withSmallStart_of_stopsAt (stopsAt_cons.mpr (by decide))
      exact ⟨c :: rest, hsame ▸ h, iff_of_true hcapital rfl, rfl⟩
    · rw [written.decodeInside_cons hd] at h
      obtain ⟨rest, hrest, heq⟩ := map_eq_ok.mp h
      obtain ⟨rfl, rfl⟩ := List.cons.inj heq
      have hsmall : d.toLower.isLower = true := by rwa [Text.isLower_toLower]
      have hslash : d.toLower ≠ '\\' := by
        intro hslash
        rw [hslash] at hsmall
        cases hsmall
      refine ⟨d.toLower :: rest, ?_, ?_, endsWithPunctuation_cons_toLower halpha⟩
      · rw [withSmallStart_cons_of_isAlpha halpha, written.decodeInside_cons hslash, hrest]
        rfl
      · rw [not_startsCapitalized_of_isLower hsmall]
        exact iff_of_false nofun fun hhead => hd (Option.some.inj hhead)

theorem head?_inside_iff_startsWithEscape (h : written.decodeInside written.inside = .ok text)
    (hcapital : startsCapitalized properNouns exportedNames (String.ofList text) = true) :
    written.inside.head? = some '\\' ↔ written.StartsWithEscape := by
  obtain ⟨c, rest, rfl, hc⟩ := exists_of_startsCapitalized hcapital
  constructor
  · intro hhead
    cases written with
    | interpreted pieces =>
      rcases pieces with _ | ⟨⟨d, hd⟩ | ⟨d, hd⟩, pieces⟩
      · cases hhead
      · exact absurd (Option.some.inj hhead) hd.2.1
      · exact ⟨d, hd, pieces, rfl⟩
    | raw chars hchars =>
      obtain rfl := Except.ok.inj h
      obtain rfl := Option.some.inj hhead
      cases hc
  · rintro ⟨d, hd, pieces, rfl⟩
    rfl

/-- The first step of a correction: the punctuation is taken away if the text has some. -/
theorem exists_decodeInside_of_punctuated {s : List Char}
    (hs : s = if endsWithPunctuation (String.ofList text) then
      trimmedInside (written.quote == '\x22') written.inside else written.inside)
    (h : written.decodeInside written.inside = .ok text) :
    ∃ kept, written.decodeInside s = .ok kept ∧ s <+: written.inside ∧
      kept.takeWhile isWordChar = text.takeWhile isWordChar ∧
      (endsWithPunctuation (String.ofList kept) = true ↔
        endsWithPunctuation (String.ofList text) = true ∧ written.KeepsPunctuation) := by
  by_cases hpunctuated : endsWithPunctuation (String.ofList text) = true
  · rw [if_pos hpunctuated] at hs
    obtain ⟨kept, hkept, hword, hends⟩ := exists_decodeInside_trimmedInside h
    refine ⟨kept, hs ▸ hkept, hs ▸ trimmedInside_prefix _ _, hword, ?_⟩
    rw [hends, and_iff_right hpunctuated]
  · rw [if_neg hpunctuated] at hs
    exact ⟨text, hs ▸ h, hs ▸ List.prefix_refl _, rfl,
      iff_of_false hpunctuated fun h => hpunctuated h.1⟩

/-- **What a corrected literal denotes**: it starts with a capital if the old text does and writes
it as an escape, and it ends with punctuation if the old text does and the literal keeps some. -/
theorem exists_decodeLiteral_fixedLiteral {text : String}
    (h : decodeLiteral written.source = .ok text) :
    ∃ new, decodeLiteral (fixedLiteral written.source
        (startsCapitalized properNouns exportedNames text) (endsWithPunctuation text)) = .ok new ∧
      (startsCapitalized properNouns exportedNames new = true ↔
        startsCapitalized properNouns exportedNames text = true ∧ written.StartsWithEscape) ∧
      (endsWithPunctuation new = true ↔
        endsWithPunctuation text = true ∧ written.KeepsPunctuation) := by
  rw [StringLiteral.source, StringLiteral.decodeLiteral_quoted, map_eq_ok] at h
  obtain ⟨text, htext, rfl⟩ := h
  rw [StringLiteral.source, fixedLiteral_quoted, correctedInside,
    StringLiteral.decodeLiteral_quoted]
  generalize hs : (if endsWithPunctuation (String.ofList text) = true then
    trimmedInside (written.quote == '\x22') written.inside else written.inside) = s
  obtain ⟨kept, hkept, hprefix, hword, hends⟩ := exists_decodeInside_of_punctuated hs.symm htext
  -- The first word has stayed, and with it the answer to the question for a capital.
  have hcapital : startsCapitalized properNouns exportedNames (String.ofList kept) =
      startsCapitalized properNouns exportedNames (String.ofList text) :=
    startsCapitalized_congr (by rwa [String.toList_ofList, String.toList_ofList])
  by_cases hstart : startsCapitalized properNouns exportedNames (String.ofList text) = true
  · obtain ⟨new, hnew, hescape, hsame⟩ :=
      exists_decodeInside_withSmallStart hkept (hcapital.trans hstart)
    have hne : s ≠ [] := by
      intro hnil
      rw [hnil, written.decodeInside_nil] at hkept
      obtain rfl := Except.ok.inj hkept
      cases hcapital.trans hstart
    have hhead : s.head? = written.inside.head? := by
      obtain ⟨rest, hrest⟩ := hprefix
      rw [← hrest, List.head?_append_of_ne_nil _ hne]
    refine ⟨String.ofList new, ?_, ?_, ?_⟩
    · rw [if_pos hstart, hnew]
      rfl
    · rw [hescape, hhead, head?_inside_iff_startsWithEscape htext hstart, and_iff_right hstart]
    · rw [hsame, hends]
  · refine ⟨String.ofList kept, ?_, ?_, hends⟩
    · rw [if_neg hstart, hkept]
      rfl
    · rw [hcapital]
      exact iff_of_false hstart fun h => hstart h.1

end Literals

/-! ## The corrected call -/

/-- A call with another literal for its error text. -/
def CallSite.withErrorText (call : CallSite) (source text : String) : CallSite :=
  { call with
    args := call.args.modifyHead fun arg => { arg with kind := .literal text, text := source } }

/-- A call is not remarked upon for its error text. -/
def CallSite.KeepsErrorText (context : Context) (exportedNames : List String) (call : CallSite) :
    Prop :=
  ∀ remark ∈ remarksOf (callChecks context exportedNames call), remark.ruleId ≠ "ERR003"

section Calls

variable {context : Context} {exportedNames : List String} {call : CallSite} {literal : Argument}
  {source text new : String} {remark : Remark} {request : FixRequest} {written : StringLiteral}

theorem errorText?_withErrorText (hcall : call.errorText? = some (literal, text)) :
    ∃ corrected, (call.withErrorText source new).errorText? = some (corrected, new) := by
  unfold CallSite.errorText? at hcall
  cases hargs : call.args with
  | nil =>
    rw [hargs] at hcall
    cases hcall
  | cons arg args =>
    simp only [hargs] at hcall
    split at hcall
    case isFalse => cases hcall
    case isTrue hmakes =>
      refine ⟨{ arg with kind := .literal new, text := source }, ?_⟩
      rw [CallSite.errorText?, CallSite.withErrorText, hargs]
      exact if_pos hmakes

theorem errorTextRemark?_eq_none_iff :
    errorTextRemark? context exportedNames literal text = none ↔
      ¬ startsCapitalized context.settings.properNouns exportedNames text = true ∧
        ¬ endsWithPunctuation text = true := by
  unfold errorTextRemark?
  dsimp only
  split <;> simp_all

/-- Where the rule is enabled, a call is not remarked upon for its error text exactly when that
neither starts with a capital nor ends with punctuation. -/
theorem keepsErrorText_iff (henabled : context.enabled "ERR003" = true)
    (hcall : call.errorText? = some (literal, text)) :
    call.KeepsErrorText context exportedNames ↔
      ¬ startsCapitalized context.settings.properNouns exportedNames text = true ∧
        ¬ endsWithPunctuation text = true := by
  rw [← @errorTextRemark?_eq_none_iff context exportedNames literal]
  constructor
  · intro hnone
    refine Option.eq_none_iff_forall_ne_some.mpr fun remark hremark => ?_
    have hmem := (mem_callRemarks_iff hcall).mpr ⟨henabled, hremark⟩
    exact hnone remark hmem.1 hmem.2
  · intro hnone remark hremark hrule
    have hsome := ((mem_callRemarks_iff hcall).mp ⟨hremark, hrule⟩).2
    rw [hnone] at hsome
    cases hsome

/-- **When a correction of an error text is final**: whatever the literal, the settings and the
exported names are, the corrected call has an error text, and it is remarked upon again in two cases
only: the old text starts with a capital that is written as an escape, or it ends with punctuation
and the literal keeps some. -/
theorem keepsErrorText_iff_of_callRemarks (hcall : call.errorText? = some (literal, text))
    (hliteral : literal.text = written.source) (htext : decodeLiteral literal.text = .ok text)
    (hremark : remark ∈ remarksOf (callChecks context exportedNames call))
    (hrule : remark.ruleId = "ERR003") (hfix : remark.fix = some request) :
    ∃ replacement new, request.replacement = some replacement ∧
      decodeLiteral replacement = .ok new ∧
      ((call.withErrorText replacement new).KeepsErrorText context exportedNames ↔
        ¬ (startsCapitalized context.settings.properNouns exportedNames text = true ∧
            written.StartsWithEscape) ∧
          ¬ (endsWithPunctuation text = true ∧ written.KeepsPunctuation)) := by
  obtain ⟨henabled, herror⟩ := (mem_callRemarks_iff hcall).mp ⟨hremark, hrule⟩
  rw [hliteral] at htext
  obtain ⟨new, hnew, hcapital, hends⟩ := exists_decodeLiteral_fixedLiteral htext
  obtain ⟨corrected, hcorrected⟩ := errorText?_withErrorText hcall
  refine ⟨_, new, replacement_of_errorTextRemark? herror hfix, hliteral ▸ hnew, ?_⟩
  rw [keepsErrorText_iff henabled hcorrected, hcapital, hends]

/-- A text with a capital, a mark and a line feed at its ends, and an escape before them. -/
def gradePieces : List Piece :=
  [.plain 'N' (by decide), .plain 'o' (by decide), .plain ' ' (by decide),
    .escaped 'x' (by decide), .plain '4' (by decide), .plain '1' (by decide)]

/-- The escape before the mark and the line feed stays, and denotes a letter. -/
theorem keepsErrorText_grade :
    ∃ remark request replacement new,
      remark ∈ remarksOf (callChecks (errorContext "\"No \\x41.\\n\"" "No A.\n") []
        (errorCall "\"No \\x41.\\n\"" "No A.\n")) ∧
      remark.ruleId = "ERR003" ∧ remark.fix = some request ∧
      request.replacement = some replacement ∧ decodeLiteral replacement = .ok new ∧
      ((errorCall "\"No \\x41.\\n\"" "No A.\n").withErrorText replacement new).KeepsErrorText
        (errorContext "\"No \\x41.\\n\"" "No A.\n") [] := by
  obtain ⟨remark, request, hremark, hrule, hfix⟩ :=
    @exists_fix_of_isSome "\"No \\x41.\\n\"" "No A.\n" (by decide +kernel)
  have hsource : "\"No \\x41.\\n\"" = (StringLiteral.interpreted
      (gradePieces ++ [.plain '.' (by decide), .escaped 'n' (by decide)])).source := by
    decide +kernel
  have htext : decodeLiteral "\"No \\x41.\\n\"" = .ok "No A.\n" := by
    rw [← toOption_eq_some]
    decide +kernel
  have hstart : ¬ (StringLiteral.interpreted
      (gradePieces ++ [.plain '.' (by decide), .escaped 'n' (by decide)])).StartsWithEscape := by
    rintro ⟨c, hc, pieces, heq⟩
    cases heq
  have hkeeps : ¬ (StringLiteral.interpreted
      (gradePieces ++ [.plain '.' (by decide), .escaped 'n' (by decide)])).KeepsPunctuation := by
    rintro ⟨-, text, htrimmed, hends⟩
    have hplain : decodeLiteral (StringLiteral.interpreted gradePieces).source = .ok "No A" := by
      rw [← toOption_eq_some]
      decide +kernel
    obtain rfl := Except.ok.inj (hplain.symm.trans htrimmed)
    exact absurd hends (by decide +kernel)
  obtain ⟨replacement, new, hreplacement, hnew, hiff⟩ :=
    keepsErrorText_iff_of_callRemarks rfl hsource htext hremark hrule hfix
  exact ⟨remark, request, replacement, new, hremark, hrule, hfix, hreplacement, hnew,
    hiff.mpr ⟨fun h => hstart h.2, fun h => hkeeps h.2⟩⟩

/-- **A correction need not be final**: a tab at the end that is written as an escape is not taken
away. -/
theorem not_forall_keepsErrorText :
    ¬ ∀ (context : Context) (exportedNames : List String) (call : CallSite) (literal : Argument)
        (text replacement new : String) (written : StringLiteral) (remark : Remark)
        (request : FixRequest),
      call.errorText? = some (literal, text) → literal.text = written.source →
      decodeLiteral literal.text = .ok text →
      remark ∈ remarksOf (callChecks context exportedNames call) → remark.ruleId = "ERR003" →
      remark.fix = some request → request.replacement = some replacement →
      decodeLiteral replacement = .ok new →
      (call.withErrorText replacement new).KeepsErrorText context exportedNames := by
  intro hall
  obtain ⟨remark, request, hremark, hrule, hfix⟩ :=
    @exists_fix_of_isSome "\"Bad\\t\"" "Bad\t" (by decide +kernel)
  have hsource : "\"Bad\\t\"" = (StringLiteral.interpreted [.plain 'B' (by decide),
      .plain 'a' (by decide), .plain 'd' (by decide), .escaped 't' (by decide)]).source := by
    decide +kernel
  have htext : decodeLiteral "\"Bad\\t\"" = .ok "Bad\t" := by
    rw [← toOption_eq_some]
    decide +kernel
  have hcall : (errorCall "\"Bad\\t\"" "Bad\t").errorText? =
      some (errorArgument "\"Bad\\t\"" "Bad\t", "Bad\t") := rfl
  obtain ⟨henabled, herror⟩ := (mem_callRemarks_iff hcall).mp ⟨hremark, hrule⟩
  have hreplacement := replacement_of_errorTextRemark? herror hfix
  have hfixed : fixedLiteral "\"Bad\\t\"" (startsCapitalized
      (errorContext "\"Bad\\t\"" "Bad\t").settings.properNouns [] "Bad\t")
        (endsWithPunctuation "Bad\t") = "\"bad\\t\"" := by
    decide +kernel
  have hnew : decodeLiteral "\"bad\\t\"" = .ok "bad\t" := by
    rw [← toOption_eq_some]
    decide +kernel
  have hnone := hall _ _ _ _ _ _ _ _ _ _ hcall hsource htext hremark hrule hfix
    (hreplacement.trans (congrArg some hfixed)) hnew
  obtain ⟨corrected, hcorrected⟩ := @errorText?_withErrorText _ _ "\"bad\\t\"" _ "bad\t" hcall
  exact ((keepsErrorText_iff henabled hcorrected).mp hnone).2 (by decide +kernel)

end Calls

end GoConventions
