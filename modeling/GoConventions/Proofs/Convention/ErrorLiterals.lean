import GoConventions.Proofs.Convention.Checks
import GoConventions.Rule.Packaged
import GoConventions.Proofs.Source.Literal
import GoConventions.Proofs.Source.Words

/-!
# The literals of error texts

A literal is corrected as it is written: the marks and blanks at the end of its characters are taken
away, and the two characters that write a line feed are a blank.  That is right as long as these
characters are pieces of their own.  They need not be.  A mark may be the second character of a
piece, and the letter `n` may follow a backslash that is the second character of a piece.  In both
cases one backslash is left at the end, where it takes the quote after it along (`CutsAt`).
Everywhere else the corrected literal is made of pieces again.

## Main definitions

* `Literal.Piece.isTrimmed`: the pieces that are taken away at the end.
* `CutsAt`, `CutsPiece`: literals of which one half of a piece is left.
* `trimmedInside`: what is left of the inside of a literal.

## Main results

* `trimmedInside_of_cutsAt`, `trimmedInside_of_not_cutsPiece`: what is left in either case.
* `isInterpreted_replacement_iff`: when the corrected literal is a literal.
-/

namespace GoConventions

open Literal

/-! ## What is taken away -/

/-- A character that is taken away at the end of a literal. -/
def isMarkOrBlank (c : Char) : Bool :=
  isTrailingPunctuation c || c == ' ' || c == '\t'

/-- A piece that is taken away at the end of a literal. -/
def Literal.Piece.isTrimmed : Piece → Bool
  | .plain c _ => isMarkOrBlank c
  | .escaped c _ => c == 'n'

/-- The inside of a literal without the punctuation at its end. -/
def trimmedInside (interpreted : Bool) (inside : List Char) : List Char :=
  (withoutPunctuation interpreted inside.reverse).reverse

section Trimming

variable {interpreted : Bool} {c : Char} {s inside : List Char} {pieces front back : List Piece}

theorem trimmedInside_concat_of_isMarkOrBlank (hc : isMarkOrBlank c = true) :
    trimmedInside interpreted (inside ++ [c]) = trimmedInside interpreted inside := by
  unfold isMarkOrBlank at hc
  rw [trimmedInside, List.reverse_append, trimmedInside]
  cases inside.reverse <;> simp [withoutPunctuation, hc]

theorem trimmedInside_append_lineFeed :
    trimmedInside true (inside ++ ['\\', 'n']) = trimmedInside true inside := by
  rw [trimmedInside, List.reverse_append, trimmedInside]
  rfl

/-- Nothing is taken away before a character that is none of the marks and blanks and does not end a
line feed. -/
theorem trimmedInside_concat_of_stop (hc : isMarkOrBlank c = false)
    (hfeed : c = 'n' → interpreted = true → inside.getLast? ≠ some '\\') :
    trimmedInside interpreted (inside ++ [c]) = inside ++ [c] := by
  unfold isMarkOrBlank at hc
  rw [← List.head?_reverse] at hfeed
  rw [trimmedInside, List.reverse_append, List.reverse_singleton, List.singleton_append]
  suffices hstop : withoutPunctuation interpreted (c :: inside.reverse) = c :: inside.reverse by
    rw [hstop, List.reverse_cons, List.reverse_reverse]
  cases hreverse : inside.reverse with
  | nil => simp [withoutPunctuation, hc]
  | cons d s =>
    rw [withoutPunctuation, if_neg (by simp [hc]), if_neg]
    simp only [Bool.and_eq_true, beq_iff_eq]
    rintro ⟨⟨hinterpreted, rfl⟩, rfl⟩
    exact hfeed rfl hinterpreted (by rw [hreverse]; rfl)

theorem withoutPunctuation_suffix (interpreted : Bool) (s : List Char) :
    withoutPunctuation interpreted s <:+ s := by
  fun_induction withoutPunctuation interpreted s with
  | case1 => exact List.suffix_refl _
  | case2 c hc => exact List.nil_suffix
  | case3 c hc => exact List.suffix_refl _
  | case4 c d s hc ih => exact ih.trans (List.suffix_cons c (d :: s))
  | case5 c d s hc hfeed ih => exact ih.trans ((List.suffix_cons d s).trans (List.suffix_cons c _))
  | case6 c d s hc hfeed => exact List.suffix_refl _

/-- What is left is the front of what was there. -/
theorem trimmedInside_prefix (interpreted : Bool) (inside : List Char) :
    trimmedInside interpreted inside <+: inside := by
  rw [trimmedInside, ← List.reverse_suffix, List.reverse_reverse]
  exact withoutPunctuation_suffix interpreted inside.reverse

/-- Raw literals have no pieces but their characters. -/
theorem trimmedInside_false : trimmedInside false inside = inside.rdropWhile isMarkOrBlank := by
  induction inside using List.reverseRecOn with
  | nil => rfl
  | append_singleton inside c ih =>
    by_cases hc : isMarkOrBlank c = true
    · rw [trimmedInside_concat_of_isMarkOrBlank hc, ih, List.rdropWhile_concat_pos _ _ _ hc]
    · rw [trimmedInside_concat_of_stop (by simpa using hc) (by simp),
        List.rdropWhile_concat_neg _ _ _ hc]

/-- Pieces that are taken away do not count. -/
theorem trimmedInside_spell_append (hback : ∀ piece ∈ back, piece.isTrimmed = true) :
    trimmedInside true (spell (front ++ back)) = trimmedInside true (spell front) := by
  induction back using List.reverseRecOn with
  | nil => rw [List.append_nil]
  | append_singleton back piece ih =>
    have hlast := hback piece (by simp)
    rw [← ih fun piece hpiece => hback piece (by simp [hpiece]), ← List.append_assoc, spell_append]
    rcases piece with ⟨c, hc⟩ | ⟨c, hc⟩
    · exact trimmedInside_concat_of_isMarkOrBlank hlast
    · obtain rfl := beq_iff_eq.mp hlast
      exact trimmedInside_append_lineFeed

end Trimming

/-! ## Half a piece -/

/-- Taking away the punctuation at the end leaves these pieces and a backslash: it takes the second
character of a piece away, or the letter after such a one, which is a backslash then. -/
inductive CutsAt (front : List Piece) : List Piece → Prop where
  | mark {c : Char} {hc : c ≠ '\n'} {back : List Piece} (hmark : isMarkOrBlank c = true)
      (hback : ∀ piece ∈ back, piece.isTrimmed = true) :
      CutsAt front (front ++ .escaped c hc :: back)
  | letter {hc : '\\' ≠ '\n'} {hn : 'n' ≠ '\x22' ∧ 'n' ≠ '\\' ∧ 'n' ≠ '\n'} {back : List Piece}
      (hback : ∀ piece ∈ back, piece.isTrimmed = true) :
      CutsAt front (front ++ .escaped '\\' hc :: .plain 'n' hn :: back)

/-- Taking away the punctuation at the end leaves half a piece. -/
def CutsPiece (pieces : List Piece) : Prop :=
  ∃ front, CutsAt front pieces

section Cutting

variable {pieces front : List Piece}

theorem trimmedInside_of_cutsAt (h : CutsAt front pieces) :
    trimmedInside true (spell pieces) = spell front ++ ['\\'] := by
  have hbackslash : isMarkOrBlank '\\' = false := by decide
  cases h with
  | @mark c hc back hmark hback =>
    rw [List.append_cons, trimmedInside_spell_append hback, spell_append, spell_escaped, spell_nil,
      List.append_cons, trimmedInside_concat_of_isMarkOrBlank hmark,
      trimmedInside_concat_of_stop hbackslash nofun]
  | @letter hc hn back hback =>
    -- From the end, the escaped backslash and the letter read as the escape of a line feed.
    have hfeed : spell front ++ ['\\', '\\', 'n'] = spell front ++ ['\\'] ++ ['\\', 'n'] := by simp
    rw [List.append_cons, List.append_cons, trimmedInside_spell_append hback, List.append_assoc,
      spell_append, List.singleton_append, spell_escaped, spell_plain, spell_nil, hfeed,
      trimmedInside_append_lineFeed, trimmedInside_concat_of_stop hbackslash nofun]

/-- The last piece of characters that end with a backslash is a backslash that is escaped. -/
theorem exists_of_getLast?_spell (h : (spell pieces).getLast? = some '\\') :
    ∃ front hc, pieces = front ++ [.escaped '\\' hc] := by
  rcases List.eq_nil_or_concat' pieces with rfl | ⟨front, ⟨c, hc⟩ | ⟨c, hc⟩, rfl⟩
  · cases h
  · rw [spell_append, spell_plain, spell_nil, List.getLast?_append] at h
    exact absurd (Option.some.inj h) hc.2.1
  · rw [spell_append, spell_escaped, spell_nil, List.getLast?_append] at h
    obtain rfl : c = '\\' := Option.some.inj h
    exact ⟨front, hc, rfl⟩

theorem trimmedInside_of_not_cutsPiece (h : ¬ CutsPiece pieces) :
    trimmedInside true (spell pieces) = spell (pieces.rdropWhile Piece.isTrimmed) := by
  have hback : ∀ piece ∈ pieces.rtakeWhile Piece.isTrimmed, piece.isTrimmed = true :=
    fun piece hpiece => List.mem_rtakeWhile_imp hpiece
  have hlast := List.rdropWhile_last_not Piece.isTrimmed pieces
  have hdivide := List.rdropWhile_append_rtakeWhile (p := Piece.isTrimmed) (l := pieces)
  generalize pieces.rdropWhile Piece.isTrimmed = front, pieces.rtakeWhile Piece.isTrimmed = back
    at *
  subst hdivide
  rw [trimmedInside_spell_append hback]
  rcases List.eq_nil_or_concat' front with rfl | ⟨front, piece, rfl⟩
  · rfl
  · -- The last piece stays, so its last character does unless the piece is cut.
    have hstays : piece.isTrimmed = false := by simpa using hlast
    rw [spell_append]
    rcases piece with ⟨c, hc⟩ | ⟨c, hc⟩
    · refine trimmedInside_concat_of_stop hstays ?_
      rintro rfl - hbackslash
      obtain ⟨front, hc, rfl⟩ := exists_of_getLast?_spell hbackslash
      exact h ⟨front, by simpa using CutsAt.letter hback⟩
    · have hmark : isMarkOrBlank c = false := by
        by_contra hmark
        exact h ⟨front, by simpa using CutsAt.mark (by simpa using hmark) hback⟩
      rw [spell_escaped, spell_nil, List.append_cons]
      refine trimmedInside_concat_of_stop hmark ?_
      rintro rfl
      exact absurd hstays (by simp [Piece.isTrimmed])

/-- No piece is cut where what is left is made of pieces. -/
theorem not_cutsPiece_of_trimmedInside {kept : List Piece}
    (h : trimmedInside true (spell pieces) = spell kept) : ¬ CutsPiece pieces := by
  rintro ⟨front, hcut⟩
  exact spell_ne_append_backslash (h.symm.trans (trimmedInside_of_cutsAt hcut))

end Cutting

/-! ## The correction -/

/-- The inside of a literal with the corrections that its text needs. -/
def correctedInside (interpreted capitalized punctuated : Bool) (inside : List Char) : List Char :=
  let trimmed := if punctuated then trimmedInside interpreted inside else inside
  if capitalized then withSmallStart trimmed else trimmed

section Corrections

variable {quote c : Char} {interpreted capitalized punctuated : Bool} {inside rest : List Char}
  {pieces : List Piece}

theorem fixedLiteral_quoted :
    fixedLiteral (quoted quote inside) capitalized punctuated =
      quoted quote (correctedInside (quote == '\x22') capitalized punctuated inside) := by
  have hquote : (quoted quote inside).toList.take 1 = [quote] := by
    rw [quoted, String.toList_ofList]
    rfl
  rw [fixedLiteral, slice_quoted, String.toList_ofList, hquote]
  cases capitalized <;> cases punctuated <;> simp [correctedInside, trimmedInside, quoted]

theorem withSmallStart_cons_of_isAlpha (hc : c.isAlpha = true) :
    withSmallStart (c :: rest) = c.toLower :: rest := by
  rw [withSmallStart, if_pos hc]

theorem withSmallStart_of_stopsAt (h : StopsAt Char.isAlpha inside) :
    withSmallStart inside = inside := by
  cases inside with
  | nil => rfl
  | cons c inside => rw [withSmallStart, if_neg (by simp [stopsAt_cons.mp h])]

/-- A small letter at the start is a piece where a capital has been one. -/
theorem exists_withSmallStart_spell (pieces : List Piece) (h : StopsAt Char.isAlpha rest) :
    ∃ front, withSmallStart (spell pieces ++ rest) = spell front ++ rest := by
  rcases pieces with _ | ⟨⟨c, hc⟩ | ⟨c, hc⟩, pieces⟩
  · exact ⟨[], withSmallStart_of_stopsAt h⟩
  · by_cases halpha : c.isAlpha = true
    · have hproper : c.toLower ≠ '\x22' ∧ c.toLower ≠ '\\' ∧ c.toLower ≠ '\n' := by
        have hsmall : c.toLower.isLower = true := by rwa [Text.isLower_toLower]
        refine ⟨?_, ?_, ?_⟩ <;> rintro heq <;> rw [heq] at hsmall <;> cases hsmall
      refine ⟨.plain c.toLower hproper :: pieces, ?_⟩
      rw [spell_plain, List.cons_append, withSmallStart_cons_of_isAlpha halpha, spell_plain,
        List.cons_append]
    · refine ⟨.plain c hc :: pieces, withSmallStart_of_stopsAt ?_⟩
      exact stopsAt_cons.mpr (Bool.eq_false_iff.mpr halpha)
  · exact ⟨.escaped c hc :: pieces, withSmallStart_of_stopsAt (stopsAt_cons.mpr (by decide))⟩

theorem isInterpreted_quoted_iff :
    IsInterpreted (quoted '\x22' inside) ↔ ∃ pieces, inside = spell pieces :=
  exists_congr fun _ => quoted_inj

/-- **A corrected literal is made of pieces unless one of them has been cut.** -/
theorem isInterpreted_fixedLiteral_iff :
    IsInterpreted
        (fixedLiteral (StringLiteral.interpreted pieces).source capitalized punctuated) ↔
      ¬ (punctuated = true ∧ CutsPiece pieces) := by
  rw [StringLiteral.source, fixedLiteral_quoted, StringLiteral.quote, beq_self_eq_true,
    isInterpreted_quoted_iff, StringLiteral.inside, correctedInside]
  by_cases hcut : punctuated = true ∧ CutsPiece pieces
  · -- The backslash that is left is no piece, with or without a small letter at the start.
    obtain ⟨rfl, front, hcut⟩ := hcut
    refine iff_of_false ?_ (not_not_intro ⟨rfl, front, hcut⟩)
    rw [if_pos rfl, trimmedInside_of_cutsAt hcut]
    rintro ⟨pieces, heq⟩
    split at heq
    · obtain ⟨front, hfront⟩ := exists_withSmallStart_spell front
        (stopsAt_cons.mpr (by decide) : StopsAt Char.isAlpha ['\\'])
      exact spell_ne_append_backslash (heq.symm.trans hfront)
    · exact spell_ne_append_backslash heq.symm
  · refine iff_of_true ?_ hcut
    obtain ⟨kept, hkept⟩ : ∃ kept,
        (if punctuated then trimmedInside true (spell pieces) else spell pieces) = spell kept := by
      split
      · exact ⟨_, trimmedInside_of_not_cutsPiece fun h => hcut ⟨‹_›, h⟩⟩
      · exact ⟨pieces, rfl⟩
    rw [hkept]
    split
    · obtain ⟨front, hfront⟩ := exists_withSmallStart_spell kept stopsAt_nil
      exact ⟨front, by simpa using hfront⟩
    · exact ⟨kept, rfl⟩

end Corrections

/-! ## The remark -/

section Remarks

variable {context : Context} {exportedNames : List String} {call : CallSite} {literal : Argument}
  {text : String} {remark : Remark} {request : FixRequest} {pieces : List Piece}

theorem mem_whenEnabled_iff {id : String} {remarks : List Remark} :
    remark ∈ context.whenEnabled id remarks ↔ context.enabled id = true ∧ remark ∈ remarks := by
  unfold Context.whenEnabled
  split <;> simp_all

/-- The remarks on a call under the rule on error texts. -/
theorem mem_callRemarks_iff (hcall : call.errorText? = some (literal, text)) :
    remark ∈ remarksOf (callChecks context exportedNames call) ∧ remark.ruleId = "ERR003" ↔
      context.enabled "ERR003" = true ∧
        errorTextRemark? context exportedNames literal text = some remark := by
  -- The remarks of the other rules are told apart by their ids.
  have hdiscard : discardRemark? context call = some remark → remark.ruleId = "ERR002" := by
    grind [discardRemark?]
  have htext : errorTextRemark? context exportedNames literal text = some remark →
      remark.ruleId = "ERR003" := by
    grind [errorTextRemark?]
  have hwrap : wrapRemark? context.unit call literal text = .ok (some remark) →
      remark.ruleId = "ERR004" :=
    fun h => (of_wrapRemark?_eq_ok h).1
  have hif : remark ∈ (if call.callee == "panic" then
      context.whenEnabled "ERR006" (remarksOf [panicRemark? context.unit call]) else []) →
        remark.ruleId = "ERR006" := by
    split
    · exact fun h =>
        (of_panicRemark?_eq_ok (mem_remarksOf_singleton.mp (mem_whenEnabled_iff.mp h).2)).1
    · nofun
  rw [remarksOf_callChecks, hcall]
  simp only [List.mem_append, mem_whenEnabled_iff, Option.mem_toList, mem_remarksOf_singleton]
  constructor
  · rintro ⟨((⟨-, h⟩ | ⟨henabled, h⟩ | ⟨-, h⟩) | h), hid⟩
    · exact absurd (hid.symm.trans (hdiscard h)) (by decide)
    · exact ⟨henabled, h⟩
    · exact absurd (hid.symm.trans (hwrap h)) (by decide)
    · exact absurd (hid.symm.trans (hif h)) (by decide)
  · rintro ⟨henabled, h⟩
    exact ⟨Or.inl (Or.inr (Or.inl ⟨henabled, h⟩)), htext h⟩

theorem replacement_of_errorTextRemark?
    (h : errorTextRemark? context exportedNames literal text = some remark)
    (hfix : remark.fix = some request) :
    request.replacement = some (fixedLiteral literal.text
      (startsCapitalized context.settings.properNouns exportedNames text)
      (endsWithPunctuation text)) := by
  unfold errorTextRemark? at h
  dsimp only at h
  split at h
  · cases h
  · obtain rfl := Option.some.inj h
    dsimp only at hfix
    split at hfix
    · cases hfix
    · obtain rfl := Option.some.inj hfix
      rfl

/-- **When a correction of an error text is a literal**: whatever the settings and the exported
names are, what should replace an interpreted literal is one, unless punctuation is taken away at
its end and half a piece is left. -/
theorem isInterpreted_replacement_iff (hcall : call.errorText? = some (literal, text))
    (hliteral : literal.text = (StringLiteral.interpreted pieces).source)
    (hremark : remark ∈ remarksOf (callChecks context exportedNames call))
    (hrule : remark.ruleId = "ERR003") (hfix : remark.fix = some request) :
    ∃ replacement, request.replacement = some replacement ∧
      (IsInterpreted replacement ↔ ¬ (endsWithPunctuation text = true ∧ CutsPiece pieces)) := by
  have herror := ((mem_callRemarks_iff hcall).mp ⟨hremark, hrule⟩).2
  refine ⟨_, replacement_of_errorTextRemark? herror hfix, ?_⟩
  rw [hliteral]
  exact isInterpreted_fixedLiteral_iff

end Remarks

/-! ## A package with one error -/

/-- A file with one error, which is made of a literal. -/
def errorFile (source : String) : SourceText where
  path := "p.go"
  text := "package p\n\nvar errBad = errors.New(" ++ source ++ ")\n"

/-- The literal of the error, which denotes the given text. -/
def errorArgument (source text : String) : Argument where
  kind := .literal text
  text := source
  span := (errorFile source).spanOf 35 (35 + source.length)

/-- The call that makes the error. -/
def errorCall (source text : String) : CallSite where
  callee := "errors.New"
  args := [errorArgument source text]
  span := (errorFile source).spanOf 24 (36 + source.length)
  context := .value
  scope := 0
  targets := ["errBad"]
  targetSpans := [(errorFile source).spanOf 15 21]
  results := none
  annotation := none

/-- The file with all packaged rules and all defaults. -/
def errorContext (source text : String) : Context where
  unit := {
    toSourceText := errorFile source
    packageName := "p"
    packageSpan := (errorFile source).spanOf 0 9
    packageDoc := none
    declarations :=
      [{ name := "p", kind := .package, exported := false, scope := 0
         span := (errorFile source).spanOf 0 9, nameSpan := (errorFile source).spanOf 8 9 },
        { name := "errBad", kind := .variableName, exported := false, scope := 0
          span := (errorFile source).spanOf 15 (36 + source.length)
          nameSpan := (errorFile source).spanOf 15 21
          initCall := some (errorCall source text) }]
    scopes := [⟨0, .file, (errorFile source).wholeSpan, none, 0, [], [0, 1]⟩]
    comments := []
    imports := []
    identifiers := [⟨"errBad", (errorFile source).spanOf 15 21, false⟩]
    calls := [errorCall source text] }
  rules := packagedRegistry.toRuleSet
  settings := {}

theorem exists_fix_of_isSome {source text : String}
    (h : ((errorTextRemark? (errorContext source text) [] (errorArgument source text) text).bind
      (·.fix)).isSome = true) :
    ∃ remark request,
      remark ∈ remarksOf (callChecks (errorContext source text) [] (errorCall source text)) ∧
      remark.ruleId = "ERR003" ∧ remark.fix = some request := by
  obtain ⟨request, hrequest⟩ := Option.isSome_iff_exists.mp h
  obtain ⟨remark, hremark, hfix⟩ := Option.bind_eq_some_iff.mp hrequest
  have henabled : (errorContext source text).enabled "ERR003" = true := by
    show packagedRegistry.toRuleSet.contains "ERR003" = true
    decide +kernel
  have hcall : (errorCall source text).errorText? = some (errorArgument source text, text) := rfl
  have hmem := (mem_callRemarks_iff hcall).mpr ⟨henabled, hremark⟩
  exact ⟨remark, request, hmem.1, hmem.2, hfix⟩

/-- The pieces of a path that ends with a backslash. -/
def pathPieces : List Piece :=
  [.plain 'c' (by decide), .plain ':' (by decide), .escaped '\\' (by decide)]

/-- The backslash before the mark is the second character of a piece and stays. -/
theorem isInterpreted_replacement_path :
    ∃ remark request, remark ∈ remarksOf (callChecks (errorContext "\"c:\\\\.\"" "c:\\.") []
        (errorCall "\"c:\\\\.\"" "c:\\.")) ∧
      remark.ruleId = "ERR003" ∧ remark.fix = some request ∧
        ∃ replacement, request.replacement = some replacement ∧ IsInterpreted replacement := by
  obtain ⟨remark, request, hremark, hrule, hfix⟩ :=
    @exists_fix_of_isSome "\"c:\\\\.\"" "c:\\." (by decide +kernel)
  have hsource : "\"c:\\\\.\"" =
      (StringLiteral.interpreted (pathPieces ++ [.plain '.' (by decide)])).source := by
    decide +kernel
  have hwhole : ¬ CutsPiece (pathPieces ++ [.plain '.' (by decide)]) :=
    @not_cutsPiece_of_trimmedInside _ pathPieces (by decide)
  obtain ⟨replacement, hreplacement, hiff⟩ :=
    isInterpreted_replacement_iff rfl hsource hremark hrule hfix
  exact ⟨remark, request, hremark, hrule, hfix, replacement, hreplacement,
    hiff.mpr fun h => hwhole h.2⟩

/-- **A correction need not be a literal**: what should replace the path with the letter `n` and a
mark after it ends with a backslash and its quote. -/
theorem not_forall_isInterpreted_replacement :
    ¬ ∀ (context : Context) (exportedNames : List String) (call : CallSite) (literal : Argument)
        (text replacement : String) (remark : Remark) (request : FixRequest),
      call.errorText? = some (literal, text) → IsInterpreted literal.text →
      decodeLiteral literal.text = .ok text →
      remark ∈ remarksOf (callChecks context exportedNames call) → remark.ruleId = "ERR003" →
      remark.fix = some request → request.replacement = some replacement →
      IsInterpreted replacement := by
  intro hall
  obtain ⟨remark, request, hremark, hrule, hfix⟩ :=
    @exists_fix_of_isSome "\"c:\\\\n.\"" "c:\\n." (by decide +kernel)
  have hsource : "\"c:\\\\n.\"" = (StringLiteral.interpreted
      (pathPieces ++ [.plain 'n' (by decide), .plain '.' (by decide)])).source := by
    decide +kernel
  have htext : decodeLiteral "\"c:\\\\n.\"" = .ok "c:\\n." := by
    rw [← toOption_eq_some]
    decide +kernel
  have hreplacement := replacement_of_errorTextRemark?
    ((mem_callRemarks_iff rfl).mp ⟨hremark, hrule⟩).2 hfix
  have hliteral := hall _ _ _ _ _ _ _ _ rfl ⟨_, hsource⟩ htext hremark hrule hfix hreplacement
  have hcut : CutsAt [.plain 'c' (by decide), .plain ':' (by decide)]
      (pathPieces ++ [.plain 'n' (by decide), .plain '.' (by decide)]) :=
    CutsAt.letter (by decide)
  exact isInterpreted_fixedLiteral_iff.mp (hsource ▸ hliteral) ⟨by decide +kernel, _, hcut⟩

end GoConventions
