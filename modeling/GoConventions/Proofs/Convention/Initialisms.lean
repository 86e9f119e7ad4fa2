import GoConventions.Proofs.Convention.Checks
import GoConventions.Proofs.Source.Words

/-!
# Acronyms in one case

An acronym in more than one case is a title, since no other word has letters of both cases, and a
title is the same word wherever it stands.  So the acronyms that a name should have in one case can
be read off at each place of it (`mixedInitialisms_eq`), and the corrected name is the old one with
these titles put in upper case (`Recases`).

A title of the corrected name has been one before: its small letters have not been touched, nor have
the characters on both sides of them.  If it were an acronym, it would have been put in upper case.
So a corrected name is not remarked upon again (`Recases.mixedTitlesFrom_eq_nil`), however the
capitals and digits of the new name divide into words.

## Main definitions

* `mixedTitleAt`, `mixedTitlesFrom`: titles that are acronyms.
* `Recases`: a text with these titles in upper case.
* `Remark.Proposes`, `CorrectsCase`: what is said of the corrections of names.

## Main results

* `recases_withUpperWords`: the corrected name is the old one with these titles in upper case.
* `correctsCase_of_initialismRemark?`: the correction changes letter case only, and is final.
-/

namespace GoConventions

/-! ## Acronyms are titles -/

/-- The title that a text begins with, if it is an acronym; empty otherwise. -/
def mixedTitleAt (s : List Char) : List Char :=
  if isInitialism (String.ofList (titleAt s)) then titleAt s else []

/-- The titles of a text that are acronyms, each with its offset, the first character being at the
given one. -/
def mixedTitlesFrom : Nat → List Char → List (String × Nat)
  | _, [] => []
  | i, c :: rest =>
    if mixedTitleAt (c :: rest) = [] then mixedTitlesFrom (i + 1) rest
    else (String.ofList (mixedTitleAt (c :: rest)), i) :: mixedTitlesFrom (i + 1) rest

section Titles

variable {i : Nat} {c : Char} {ss ds passed rest : List Char}

theorem mixedTitleAt_of_titleAt (h : titleAt rest = []) : mixedTitleAt rest = [] := by
  rw [mixedTitleAt, h, ite_self]

theorem mixedTitlesFrom_cons_of_titleAt (h : titleAt (c :: rest) = []) :
    mixedTitlesFrom i (c :: rest) = mixedTitlesFrom (i + 1) rest := by
  rw [mixedTitlesFrom, if_pos (mixedTitleAt_of_titleAt h)]

/-- No title begins where there is no capital. -/
theorem mixedTitlesFrom_append_of_not_isUpper (h : ∀ c ∈ passed, c.isUpper = false) :
    mixedTitlesFrom i (passed ++ rest) = mixedTitlesFrom (i + passed.length) rest := by
  induction passed generalizing i with
  | nil => rfl
  | cons c passed ih =>
    have hc := h c List.mem_cons_self
    rw [List.cons_append, mixedTitlesFrom_cons_of_titleAt (titleAt_of_not_isUpper hc),
      ih fun d hd => h d (List.mem_cons_of_mem c hd), List.length_cons, Nat.add_right_comm,
      Nat.add_assoc]

/-- No title begins where there are no small letters. -/
theorem mixedTitlesFrom_append_of_not_isLower (h : ∀ c ∈ passed, c.isLower = false)
    (hend : StopsAt Char.isLower rest) :
    mixedTitlesFrom i (passed ++ rest) = mixedTitlesFrom (i + passed.length) rest := by
  induction passed generalizing i with
  | nil => rfl
  | cons c passed ih =>
    have hpassed : ∀ d ∈ passed, d.isLower = false := fun d hd => h d (List.mem_cons_of_mem c hd)
    have hstop : StopsAt Char.isLower (passed ++ rest) := (stopsAt_of_forall hpassed).append hend
    rw [List.cons_append, mixedTitlesFrom_cons_of_titleAt (titleAt_of_stopsAt hstop), ih hpassed,
      List.length_cons, Nat.add_right_comm, Nat.add_assoc]

theorem not_isUpper_of_mem_append (hss : ∀ c ∈ ss, c.isLower = true)
    (hds : ∀ c ∈ ds, c.isDigit = true) : ∀ c ∈ ss ++ ds, c.isUpper = false := by
  intro c hc
  rcases List.mem_append.mp hc with hc | hc
  · exact Text.not_isUpper_of_isLower (hss c hc)
  · exact Text.not_isUpper_of_isDigit (hds c hc)

/-- After the capital of a title no other title begins before its end. -/
theorem mixedTitlesFrom_succ_of_title (c : Char) (hss : ∀ d ∈ ss, d.isLower = true)
    (hds : ∀ d ∈ ds, d.isDigit = true) :
    mixedTitlesFrom (i + 1) (ss ++ ds ++ rest) =
      mixedTitlesFrom (i + (c :: (ss ++ ds)).length) rest := by
  rw [mixedTitlesFrom_append_of_not_isUpper (not_isUpper_of_mem_append hss hds), List.length_cons,
    Nat.add_right_comm, Nat.add_assoc]

theorem isMixedInitialism_eq_false {word : List Char}
    (h : (∀ c ∈ word, c.isUpper = false) ∨ ∀ c ∈ word, c.isLower = false) :
    isMixedInitialism (String.ofList word) = false := by
  rcases h with h | h <;> simp [isMixedInitialism] <;> grind

/-- **Acronyms in more than one case are titles**, read off at each place of the text. -/
theorem filter_isMixedInitialism {s : List Char} {words : List (String × Nat)}
    (h : Divides i s words) :
    words.filter (fun word => isMixedInitialism word.1) = mixedTitlesFrom i s := by
  induction h with
  | nil => rfl
  | @other i c rest words hc _ ih =>
    have hupper : c.isUpper = false := by
      simp only [Char.isAlphanum, Text.isAlpha_eq, Bool.or_eq_false_iff] at hc
      exact hc.1.1
    rw [ih, mixedTitlesFrom_cons_of_titleAt (titleAt_of_not_isUpper hupper)]
  | @word i word rest words hword _ ih =>
    rw [List.filter_cons, ih]
    cases hword with
    | digits hne hds hend =>
      have hupper : ∀ c ∈ word, c.isUpper = false := fun c hc =>
        Text.not_isUpper_of_isDigit (hds c hc)
      rw [isMixedInitialism_eq_false (Or.inl hupper),
        mixedTitlesFrom_append_of_not_isUpper hupper]
      rfl
    | @capitals cs ds _ hne hcs hds hend =>
      -- No small letter follows these capitals, so none of them begins a title.
      have hlower : ∀ c ∈ cs ++ ds, c.isLower = false := by
        intro c hc
        rcases List.mem_append.mp hc with hc | hc
        · exact Text.not_isLower_of_isUpper (hcs c hc)
        · exact Text.not_isLower_of_isDigit (hds c hc)
      rw [isMixedInitialism_eq_false (Or.inr hlower),
        mixedTitlesFrom_append_of_not_isLower hlower hend]
      rfl
    | @small ss ds _ hne hss hds hsmall hend =>
      have hupper := not_isUpper_of_mem_append hss hds
      rw [isMixedInitialism_eq_false (Or.inl hupper),
        mixedTitlesFrom_append_of_not_isUpper hupper]
      rfl
    | @title c ss ds _ hc hne hss hds hsmall hend =>
      -- The one form that is in two cases is a title of the text as well.
      have htitle : titleAt (c :: (ss ++ ds ++ rest)) = c :: (ss ++ ds) := by
        rw [← List.cons_append, titleAt_of_isUpper hc hne hss hds hsmall,
          takeWhile_eq_nil_iff_stopsAt.mpr hend, List.append_nil]
      have hcases : isMixedInitialism (String.ofList (c :: (ss ++ ds))) =
          isInitialism (String.ofList (c :: (ss ++ ds))) := by
        obtain ⟨l, ss, rfl⟩ := List.exists_cons_of_ne_nil hne
        simp [isMixedInitialism, hc, hss l List.mem_cons_self]
      rw [hcases, List.cons_append, mixedTitlesFrom, mixedTitlesFrom_succ_of_title c hss hds]
      by_cases hacronym : isInitialism (String.ofList (c :: (ss ++ ds))) = true
      · have hmixed : mixedTitleAt (c :: (ss ++ ds ++ rest)) = c :: (ss ++ ds) := by
          rw [mixedTitleAt, htitle, if_pos hacronym]
        rw [hmixed, if_pos hacronym, if_neg (List.cons_ne_nil _ _)]
      · have hmixed : mixedTitleAt (c :: (ss ++ ds ++ rest)) = [] := by
          rw [mixedTitleAt, htitle, if_neg hacronym]
        rw [if_neg hacronym, if_pos hmixed]

theorem mixedInitialisms_eq (name : String) :
    mixedInitialisms name =
      if hasUnderscoreWords name then [] else mixedTitlesFrom 0 name.toList := by
  rw [mixedInitialisms, wordsWithOffsets, filter_isMixedInitialism (divides_wordsFrom _ _)]

end Titles

/-! ## Putting acronyms in upper case -/

/-- The second text is the first with the acronyms among its titles in upper case. -/
inductive Recases : List Char → List Char → Prop where
  | nil : Recases [] []
  | other {c : Char} {rest new : List Char} (hother : mixedTitleAt (c :: rest) = [])
      (h : Recases rest new) : Recases (c :: rest) (c :: new)
  | title {c : Char} {ss ds rest new : List Char} (hc : c.isUpper = true) (hne : ss ≠ [])
      (hss : ∀ d ∈ ss, d.isLower = true) (hds : ∀ d ∈ ds, d.isDigit = true)
      (hsmall : StopsAt Char.isLower (ds ++ rest)) (h : Recases rest new) :
      Recases (c :: (ss ++ ds) ++ rest) (c :: (ss.map Char.toUpper ++ ds) ++ new)

section Recasing

variable {i start : Nat} {word : String} {words : List (String × Nat)} {passed rest : List Char}

theorem withUpperWords_of_le (h : start + word.toList.length ≤ i) :
    withUpperWords i ((word, start) :: words) rest = withUpperWords i words rest := by
  cases rest with
  | nil => rfl
  | cons c rest => simp [withUpperWords, wordsFromOffset, h]

theorem withUpperWords_nil : withUpperWords i [] rest = rest := by
  cases rest <;> rfl

/-- All characters within a word are put in upper case. -/
theorem withUpperWords_append (hstart : start ≤ i)
    (hstop : i + passed.length ≤ start + word.toList.length) :
    withUpperWords i ((word, start) :: words) (passed ++ rest) =
      passed.map Char.toUpper ++
        withUpperWords (i + passed.length) ((word, start) :: words) rest := by
  induction passed generalizing i with
  | nil => rfl
  | cons c passed ih =>
    rw [List.length_cons] at hstop
    have hwithin : ¬ start + word.toList.length ≤ i := by omega
    have hstep : withUpperWords i ((word, start) :: words) (c :: (passed ++ rest)) =
        c.toUpper :: withUpperWords (i + 1) ((word, start) :: words) (passed ++ rest) := by
      simp only [withUpperWords, wordsFromOffset, List.dropWhile_cons, decide_eq_false hwithin,
        if_pos hstart, Bool.false_eq_true, if_false]
    rw [List.cons_append, hstep, ih (by omega) (by omega), List.map_cons, List.length_cons,
      Nat.add_right_comm, Nat.add_assoc, List.cons_append]

theorem le_of_mem_mixedTitlesFrom {s : List Char} {entry : String × Nat}
    (h : entry ∈ mixedTitlesFrom i s) : i ≤ entry.2 := by
  induction s generalizing i with
  | nil => cases h
  | cons c rest ih =>
    rw [mixedTitlesFrom] at h
    split at h
    · exact Nat.le_of_succ_le (ih h)
    · rcases List.mem_cons.mp h with rfl | h
      · exact Nat.le_refl i
      · exact Nat.le_of_succ_le (ih h)

/-- A character before all words stays as it is. -/
theorem withUpperWords_cons_of_lt {c : Char} (h : ∀ entry ∈ words, i < entry.2) :
    withUpperWords i words (c :: rest) = c :: withUpperWords (i + 1) words rest := by
  cases words with
  | nil => rw [withUpperWords_nil, withUpperWords_nil]
  | cons entry words =>
    obtain ⟨word, start⟩ := entry
    have hstart : i < start := h _ List.mem_cons_self
    have hlater : ¬ start + word.toList.length ≤ i := by omega
    simp only [withUpperWords, wordsFromOffset, List.dropWhile_cons, decide_eq_false hlater,
      if_neg (Nat.not_le.mpr hstart), Bool.false_eq_true, if_false]

theorem toUpper_of_isUpper {c : Char} (h : c.isUpper = true) : c.toUpper = c :=
  Text.toUpper_eq_self (Text.not_isLower_of_isUpper h)

theorem toUpper_of_isDigit {c : Char} (h : c.isDigit = true) : c.toUpper = c :=
  Text.toUpper_eq_self (Text.not_isLower_of_isDigit h)

/-- Digits have no case. -/
theorem map_toUpper_of_isDigit {ds : List Char} (h : ∀ d ∈ ds, d.isDigit = true) :
    ds.map Char.toUpper = ds := by
  rw [List.map_congr_left fun d hd => toUpper_of_isDigit (h d hd), List.map_id']

/-- **A corrected name is the old one with the acronyms among its titles in upper case.** -/
theorem recases_withUpperWords (i : Nat) (s : List Char) :
    Recases s (withUpperWords i (mixedTitlesFrom i s) s) := by
  -- A title is passed over as a whole, so the induction goes on with the text after it.
  induction hlength : s.length using Nat.strongRecOn generalizing i s with
  | _ n ih =>
    subst hlength
    cases s with
    | nil => exact .nil
    | cons c rest =>
      by_cases hother : mixedTitleAt (c :: rest) = []
      · have hlater : ∀ entry ∈ mixedTitlesFrom (i + 1) rest, i < entry.2 := fun _ hentry =>
          le_of_mem_mixedTitlesFrom hentry
        rw [mixedTitlesFrom, if_pos hother, withUpperWords_cons_of_lt hlater]
        exact .other hother (ih rest.length (Nat.lt_succ_self _) (i + 1) rest rfl)
      · have hacronym : mixedTitleAt (c :: rest) = titleAt (c :: rest) := by
          rw [mixedTitleAt] at hother ⊢
          split
          · rfl
          · simp_all
        obtain ⟨ss, ds, later, rfl, htitle, hc, hne, hss, hds, hsmall⟩ :=
          exists_of_titleAt_ne_nil (hacronym ▸ hother)
        have hcapitals : (c :: (ss ++ ds)).map Char.toUpper =
            c :: (ss.map Char.toUpper ++ ds) := by
          rw [List.map_cons, List.map_append, toUpper_of_isUpper hc,
            map_toUpper_of_isDigit hds]
        have hlater : mixedTitlesFrom i (c :: (ss ++ ds ++ later)) =
            (String.ofList (c :: (ss ++ ds)), i) ::
              mixedTitlesFrom (i + (c :: (ss ++ ds)).length) later := by
          rw [mixedTitlesFrom, if_neg hother, hacronym, htitle,
            mixedTitlesFrom_succ_of_title c hss hds]
        rw [hlater, ← List.cons_append,
          withUpperWords_append (Nat.le_refl i) (by rw [String.toList_ofList]), hcapitals,
          withUpperWords_of_le (by rw [String.toList_ofList])]
        refine .title hc hne hss hds hsmall (ih later.length ?_ _ later rfl)
        simp
        omega

end Recasing

namespace Recases

variable {c : Char} {s new : List Char}

theorem head?_eq (h : Recases s new) : new.head? = s.head? := by
  cases h <;> rfl

/-- Characters at the front that are no capitals are the same in both texts. -/
theorem takeWhile_eq {p : Char → Bool} (hp : ∀ c, c.isUpper = true → p c = false)
    (h : Recases s new) :
    new.takeWhile p = s.takeWhile p ∧ Recases (s.dropWhile p) (new.dropWhile p) := by
  induction h with
  | nil => exact ⟨rfl, .nil⟩
  | @other c rest new hother h ih =>
    by_cases hc : p c = true
    · simpa [hc] using ih
    · simpa [hc] using Recases.other hother h
  | title hc hne hss hds hsmall h ih =>
    simpa [hp _ hc] using Recases.title hc hne hss hds hsmall h

/-- Before two such texts the same character begins the same title. -/
theorem titleAt_cons (h : Recases s new) : titleAt (c :: new) = titleAt (c :: s) := by
  obtain ⟨hsmall, hrest⟩ := h.takeWhile_eq fun _ => Text.not_isLower_of_isUpper
  obtain ⟨hdigits, -⟩ := hrest.takeWhile_eq fun _ => Text.not_isDigit_of_isUpper
  rw [titleAt, titleAt, hsmall, hdigits]

/-- **Where acronyms have been put in upper case, no title is an acronym.** -/
theorem mixedTitlesFrom_eq_nil (h : Recases s new) (i : Nat) : mixedTitlesFrom i new = [] := by
  induction h generalizing i with
  | nil => rfl
  | other hother h ih =>
    rw [mixedTitleAt, ← h.titleAt_cons, ← mixedTitleAt] at hother
    rw [mixedTitlesFrom, if_pos hother, ih]
  | @title c ss ds rest new hc hne hss hds hsmall h ih =>
    have hcapitals : ∀ d ∈ c :: ss.map Char.toUpper, d.isLower = false := by
      intro d hd
      rcases List.mem_cons.mp hd with rfl | hd
      · exact Text.not_isLower_of_isUpper hc
      · obtain ⟨l, -, rfl⟩ := List.mem_map.mp hd
        exact Text.isLower_toUpper l
    -- Without digits of its own the title is followed by what followed the old one.
    have hend : StopsAt Char.isLower (ds ++ new) := by
      cases ds with
      | nil => exact fun d hd => hsmall d (h.head?_eq ▸ hd)
      | cons d ds => exact stopsAt_cons.mpr (stopsAt_cons.mp hsmall)
    have hdigits : ∀ d ∈ ds, d.isUpper = false := fun d hd => Text.not_isUpper_of_isDigit (hds d hd)
    rw [← List.cons_append, List.append_assoc,
      mixedTitlesFrom_append_of_not_isLower hcapitals hend,
      mixedTitlesFrom_append_of_not_isUpper hdigits, ih]

end Recases

/-! ## The correction -/

/-- A character is another one, or a letter of ASCII in the other case. -/
def SameUpToCase (c d : Char) : Prop :=
  d = c ∨ c.isAlpha = true ∧ d.isAlpha = true ∧ d.toLower = c.toLower

/-- Two names differ in the case of letters of ASCII only. -/
def DiffersInCase (old new : String) : Prop :=
  List.Forall₂ SameUpToCase old.toList new.toList

theorem Recases.forall₂_sameUpToCase {s new : List Char} (h : Recases s new) :
    List.Forall₂ SameUpToCase s new := by
  induction h with
  | nil => exact .nil
  | other _ _ ih => exact .cons (Or.inl rfl) ih
  | @title c ss ds rest new hc hne hss hds hsmall h ih =>
    refine .cons (Or.inl rfl) (List.rel_append (List.rel_append ?_ ?_) ih)
    · rw [List.forall₂_map_right_iff]
      exact List.forall₂_same.mpr fun d hd => Or.inr (by simp [Text.isAlpha_eq, hss d hd])
    · exact List.forall₂_same.mpr fun d _ => Or.inl rfl

/-- A remark proposes a name for a declaration: its text ends with the name, and the correction that
it asks for is the renaming, if that is safe. -/
structure Remark.Proposes (unit : SourceUnit) (decl : Declaration) (name : String)
    (remark : Remark) : Prop where
  fix_eq : renameRequest? unit decl name = .ok remark.fix
  message_eq : ∃ reason, remark.message = reason ++ name

/-- A name is not remarked upon for its acronyms, whatever is declared with it. -/
def KeepsInitialisms (name : String) : Prop :=
  ∀ (unit : SourceUnit) (decl : Declaration), decl.name = name →
    initialismRemark? unit decl = .ok none

/-- A new name is an old one in another case, is exported as that is, and is not remarked upon. -/
structure CorrectsCase (old new : String) : Prop where
  ne : new ≠ old
  length_eq : new.length = old.length
  differsInCase : DiffersInCase old new
  head?_eq : new.toList.head? = old.toList.head?
  isExported_eq : isExported new = isExported old
  keepsInitialisms : KeepsInitialisms new

/-- A file that declares one constant. -/
def constantText (name : String) : SourceText where
  path := "p.go"
  text := "package p\n\nconst " ++ name ++ " = 1\n"

/-- The constant that it declares. -/
def constantNamed (name : String) : Declaration where
  name
  kind := .constant
  exported := isExported name
  scope := 0
  span := (constantText name).spanOf 11 (21 + name.length)
  nameSpan := (constantText name).spanOf 17 (17 + name.length)

def constantUnit (name : String) : SourceUnit where
  toSourceText := constantText name
  packageName := "p"
  packageSpan := (constantText name).spanOf 0 9
  packageDoc := none
  declarations :=
    [{ name := "p", kind := .package, exported := false, scope := 0
       span := (constantText name).spanOf 0 9, nameSpan := (constantText name).spanOf 8 9 },
      constantNamed name]
  scopes := [⟨0, .file, (constantText name).wholeSpan, none, 0, [], [0, 1]⟩]
  comments := []
  imports := []
  identifiers := [⟨name, (constantText name).spanOf 17 (17 + name.length), false⟩]
  calls := []

section Corrections

variable {unit : SourceUnit} {decl : Declaration} {remark : Remark} {name : String}

theorem initialismRemark?_eq_none_iff :
    initialismRemark? unit decl = .ok none ↔ mixedInitialisms decl.name = [] := by
  unfold initialismRemark?
  split
  case h_1 hnil => exact iff_of_true rfl hnil
  case h_2 hflagged =>
    refine iff_of_false (fun h => ?_) (by simpa using hflagged)
    obtain ⟨request, -, h⟩ := bind_eq_ok.mp h
    cases h

theorem keepsInitialisms_iff : KeepsInitialisms name ↔ mixedInitialisms name = [] := by
  constructor
  · intro h
    have hnone := h (constantUnit name) (constantNamed name) rfl
    rwa [initialismRemark?_eq_none_iff] at hnone
  · rintro h unit decl rfl
    exact initialismRemark?_eq_none_iff.mpr h

theorem recases_initialismReplacement (h : hasUnderscoreWords name = false) :
    Recases name.toList (initialismReplacement name).toList := by
  rw [initialismReplacement, String.toList_ofList, mixedInitialisms_eq, if_neg (by simp [h])]
  exact recases_withUpperWords 0 name.toList

theorem isExported_eq_of_head?_eq {old new : String} (h : new.toList.head? = old.toList.head?) :
    isExported new = isExported old := by
  unfold isExported
  cases hold : old.toList <;> cases hnew : new.toList <;> simp_all

/-- **A correction of acronyms changes letter case only and is final**: the new name has the same
characters up to the case of letters of ASCII, is exported as the old one is, and is not remarked
upon again. -/
theorem correctsCase_of_initialismRemark? (h : initialismRemark? unit decl = .ok (some remark)) :
    remark.Proposes unit decl (initialismReplacement decl.name) ∧
      CorrectsCase decl.name (initialismReplacement decl.name) := by
  have hflagged : mixedInitialisms decl.name ≠ [] := by
    intro hnil
    rw [initialismRemark?_eq_none_iff.mpr hnil] at h
    cases h
  have hlow : hasUnderscoreWords decl.name = false := by
    by_contra hlow
    rw [mixedInitialisms_eq, if_pos (by simpa using hlow)] at hflagged
    exact hflagged rfl
  have hrecases := recases_initialismReplacement hlow
  have hcase := hrecases.forall₂_sameUpToCase
  have hfinal : mixedInitialisms (initialismReplacement decl.name) = [] := by
    rw [mixedInitialisms_eq, hrecases.mixedTitlesFrom_eq_nil, ite_self]
  constructor
  · unfold initialismRemark? at h
    split at h
    · cases h
    · obtain ⟨request, hrequest, h⟩ := bind_eq_ok.mp h
      obtain rfl := Option.some.inj (Except.ok.inj h)
      exact ⟨hrequest, _, rfl⟩
  · exact {
      ne := fun hsame => hflagged (hsame ▸ hfinal)
      length_eq := by rw [← String.length_toList, ← String.length_toList, hcase.length_eq]
      differsInCase := hcase
      head?_eq := hrecases.head?_eq
      isExported_eq := isExported_eq_of_head?_eq hrecases.head?_eq
      keepsInitialisms := keepsInitialisms_iff.mpr hfinal }

/-- Titles that are acronyms are put in upper case, beside an acronym and beside a small letter. -/
theorem correctsCase_parseURLIdUtf8x :
    ∃ remark, initialismRemark? (constantUnit "parseURLIdUtf8x")
        (constantNamed "parseURLIdUtf8x") = .ok (some remark) ∧
      remark.Proposes (constantUnit "parseURLIdUtf8x") (constantNamed "parseURLIdUtf8x")
        "parseURLIDUTF8x" ∧ CorrectsCase "parseURLIdUtf8x" "parseURLIDUTF8x" := by
  have hname : initialismReplacement "parseURLIdUtf8x" = "parseURLIDUTF8x" := by decide +kernel
  have hflagged : (initialismRemark? (constantUnit "parseURLIdUtf8x")
      (constantNamed "parseURLIdUtf8x")).toOption.join.isSome = true := by decide +kernel
  obtain ⟨remark, h⟩ := exists_remark_of_isSome hflagged
  exact ⟨remark, h, hname ▸ correctsCase_of_initialismRemark? h⟩

end Corrections

end GoConventions
