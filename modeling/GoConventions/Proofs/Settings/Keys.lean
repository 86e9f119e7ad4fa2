import GoConventions.Proofs.Result
import GoConventions.Settings.Reader

/-!
# Settings one by one

Each setting has a key and a value of its own kind.  What a document may state under the key, and
which value that gives, is said here for every setting (`Setting.Means`); the reader takes exactly
that, puts it in the place of the setting, and leaves the other settings alone (`assign?_key`,
`Setting.read_eq_ok_iff`).

## Main definitions

* `Setting`, `SettingValue`: the settings, and the values that they have.
* `Settings.get`, `Settings.put`: the value of one setting.
* `Setting.Means`: a value of a document gives a setting a value.

## Main results

* `Setting.read_eq_ok_iff`: the reader takes what has a meaning.
* `Settings.assign?_key`, `Settings.assign?_eq_none`: what is done with a member.
-/

namespace GoConventions

/-- The settings, each named for itself. -/
inductive Setting where
  | exclude | maxLineLength | maxCommentLineLength | maxFunctionLines | maxParameters
  | maxNestingDepth | scopeBands | shortNameAllowlist | properNouns | discardMarkers
  | genericPackageNames | extraStdlib | generatedSuffixes | sideEffectRoots
  | requirePackageComment | docExemptions | logLevel
  deriving DecidableEq

/-- The value of a setting. -/
inductive SettingValue where
  | limit (n : Int)
  | names (names : List String)
  | bands (bands : List ScopeBand)
  | flag (b : Bool)
  | text (s : String)
  deriving DecidableEq

namespace Setting

/-- The key under which a document states a setting. -/
def key : Setting → String
  | .exclude => "exclude"
  | .maxLineLength => "max_line_length"
  | .maxCommentLineLength => "max_comment_line_length"
  | .maxFunctionLines => "max_function_lines"
  | .maxParameters => "max_parameters"
  | .maxNestingDepth => "max_nesting_depth"
  | .scopeBands => "scope_bands"
  | .shortNameAllowlist => "short_name_allowlist"
  | .properNouns => "proper_nouns"
  | .discardMarkers => "discard_markers"
  | .genericPackageNames => "generic_package_names"
  | .extraStdlib => "extra_stdlib"
  | .generatedSuffixes => "generated_suffixes"
  | .sideEffectRoots => "side_effect_roots"
  | .requirePackageComment => "require_package_comment"
  | .docExemptions => "doc_exemptions"
  | .logLevel => "log_level"

/-- All settings, in the order of their record. -/
def all : List Setting :=
  [.exclude, .maxLineLength, .maxCommentLineLength, .maxFunctionLines, .maxParameters,
   .maxNestingDepth, .scopeBands, .shortNameAllowlist, .properNouns, .discardMarkers,
   .genericPackageNames, .extraStdlib, .generatedSuffixes, .sideEffectRoots,
   .requirePackageComment, .docExemptions, .logLevel]

theorem mem_all (setting : Setting) : setting ∈ all := by
  cases setting <;> decide

end Setting

/-- Whether a key is that of a setting. -/
def isSettingKey (key : String) : Bool :=
  Setting.all.any fun setting => setting.key == key

theorem isSettingKey_iff {key : String} :
    isSettingKey key = true ↔ ∃ setting : Setting, setting.key = key := by
  rw [isSettingKey, List.any_eq_true]
  exact exists_congr fun setting =>
    (and_iff_right (Setting.mem_all setting)).trans beq_iff_eq

/-! ## The value of one setting -/

namespace Settings

variable (s : Settings)

/-- The value of a setting. -/
def get : Setting → SettingValue
  | .exclude => .names s.exclude
  | .maxLineLength => .limit s.maxLineLength
  | .maxCommentLineLength => .limit s.maxCommentLineLength
  | .maxFunctionLines => .limit s.maxFunctionLines
  | .maxParameters => .limit s.maxParameters
  | .maxNestingDepth => .limit s.maxNestingDepth
  | .scopeBands => .bands s.scopeBands
  | .shortNameAllowlist => .names s.shortNameAllowlist
  | .properNouns => .names s.properNouns
  | .discardMarkers => .names s.discardMarkers
  | .genericPackageNames => .names s.genericPackageNames
  | .extraStdlib => .names s.extraStdlib
  | .generatedSuffixes => .names s.generatedSuffixes
  | .sideEffectRoots => .names s.sideEffectRoots
  | .requirePackageComment => .flag s.requirePackageComment
  | .docExemptions => .names s.docExemptions
  | .logLevel => .text s.logLevel

/-- The settings with the value of one replaced; a value of another kind changes nothing. -/
def put : Setting → SettingValue → Settings
  | .exclude, .names xs => { s with exclude := xs }
  | .maxLineLength, .limit n => { s with maxLineLength := n }
  | .maxCommentLineLength, .limit n => { s with maxCommentLineLength := n }
  | .maxFunctionLines, .limit n => { s with maxFunctionLines := n }
  | .maxParameters, .limit n => { s with maxParameters := n }
  | .maxNestingDepth, .limit n => { s with maxNestingDepth := n }
  | .scopeBands, .bands xs => { s with scopeBands := xs }
  | .shortNameAllowlist, .names xs => { s with shortNameAllowlist := xs }
  | .properNouns, .names xs => { s with properNouns := xs }
  | .discardMarkers, .names xs => { s with discardMarkers := xs }
  | .genericPackageNames, .names xs => { s with genericPackageNames := xs }
  | .extraStdlib, .names xs => { s with extraStdlib := xs }
  | .generatedSuffixes, .names xs => { s with generatedSuffixes := xs }
  | .sideEffectRoots, .names xs => { s with sideEffectRoots := xs }
  | .requirePackageComment, .flag b => { s with requirePackageComment := b }
  | .docExemptions, .names xs => { s with docExemptions := xs }
  | .logLevel, .text level => { s with logLevel := level }
  | _, _ => s

variable {s} {t : Settings}

theorem get_put_of_ne {setting other : Setting} (hne : other ≠ setting) (value : SettingValue) :
    (s.put setting value).get other = s.get other := by
  cases setting <;> cases value <;>
    first | rfl | (cases other <;> first | rfl | exact absurd rfl hne)

end Settings

/-! ## What a document may state -/

/-- A value lists texts: one text by itself, or the texts of the items of a list. -/
inductive Json.ListsTexts : Json → List String → Prop where
  | one (text : String) : ListsTexts (.str text) [text]
  | many (items : List Json) : ListsTexts (.arr items) (items.map Json.text)

namespace Members

variable (members : Members)

/-- A member denotes a whole number, or is absent and has its default. -/
def GivesNumber (key : String) (default n : Int) : Prop :=
  match members.lookup key with
  | none => n = default
  | some value => value.wholeNumber = .ok n

/-- An object states a scope band. -/
structure MeansBand (band : ScopeBand) : Prop where
  maxLines : match band.maxLines with
    | none => members.get "max_lines" = .null
    | some n => (members.get "max_lines").wholeNumber = .ok n
  minWords : members.GivesNumber "min_tokens" 1 band.minWords
  maxWords : members.GivesNumber "max_tokens" 4 band.maxWords
  ordered : band.minWords ≤ band.maxWords
  singleLetter : band.singleLetter = !(members.get "single_letter").isVacant

end Members

/-- **A value of a document gives a setting its value.** -/
def Setting.Means (setting : Setting) (value : Json) (result : SettingValue) : Prop :=
  match setting with
  | .maxLineLength | .maxCommentLineLength | .maxFunctionLines | .maxParameters
  | .maxNestingDepth => ∃ n, 0 < n ∧ value = .int n ∧ result = .limit n
  | .scopeBands => ∃ (items : List Members) (bands : List ScopeBand), items ≠ [] ∧
      value = .arr (items.map .obj) ∧ List.Forall₂ Members.MeansBand items bands ∧
      result = .bands bands
  | .requirePackageComment => ∃ b, value = .bool b ∧ result = .flag b
  | .logLevel => ∃ s, value = .str s ∧ result = .text s
  | .exclude => ∃ texts, value.ListsTexts texts ∧ result = .names (distinct (texts.map Text.upper))
  | .docExemptions => ∃ texts, value.ListsTexts texts ∧
      (∀ text ∈ texts, text ∈ docExemptionNames) ∧ result = .names (distinct texts)
  | .discardMarkers | .generatedSuffixes =>
    ∃ texts, value.ListsTexts texts ∧ result = .names texts
  | .shortNameAllowlist | .properNouns | .genericPackageNames | .extraStdlib
  | .sideEffectRoots => ∃ texts, value.ListsTexts texts ∧ result = .names (distinct texts)

/-- A value is one that a setting may have. -/
def Setting.Accepts (setting : Setting) (value : Json) : Prop :=
  ∃ result, setting.Means value result

/-! ## Reading a value -/

namespace Settings

variable {key : String} {value : Json}

theorem positive_eq_ok {n : Int} : positive key value = .ok n ↔ 0 < n ∧ value = .int n := by
  unfold positive
  split
  case h_1 m =>
    split
    · simp only [reduceCtorEq, Json.int.injEq, false_iff, not_and]
      rintro hpos rfl
      omega
    · simp only [Except.ok.injEq, Json.int.injEq]
      exact ⟨fun h => ⟨by omega, h⟩, And.right⟩
  case h_2 hother =>
    exact ⟨nofun, fun h => absurd h.2 (hother n)⟩

theorem texts_eq_ok {xs : List String} : texts key value = .ok xs ↔ value.ListsTexts xs := by
  constructor
  · intro h
    unfold texts at h
    split at h
    case h_1 text =>
      obtain rfl := Except.ok.inj h
      exact .one text
    case h_2 items =>
      obtain rfl := Except.ok.inj h
      exact .many items
    case h_3 => cases h
  · rintro (text | items) <;> rfl

theorem boolean_eq_ok {b : Bool} : boolean key value = .ok b ↔ value = .bool b := by
  unfold boolean
  split
  case h_1 c => simp
  case h_2 hother => exact ⟨nofun, fun h => absurd h (hother b)⟩

theorem text_eq_ok {s : String} : text key value = .ok s ↔ value = .str s := by
  unfold text
  split
  case h_1 c => simp
  case h_2 hother => exact ⟨nofun, fun h => absurd h (hother s)⟩

theorem exemptions_eq_ok {xs : List String} : exemptions value = .ok xs ↔
    ∃ texts, value.ListsTexts texts ∧ (∀ text ∈ texts, text ∈ docExemptionNames) ∧
      xs = distinct texts := by
  rw [exemptions, bind_eq_ok]
  refine exists_congr fun names => and_congr texts_eq_ok ?_
  have hknown : (distinct names).filter (fun name => !docExemptionNames.contains name) = [] ↔
      ∀ text ∈ names, text ∈ docExemptionNames := by
    simp [List.filter_eq_nil_iff]
  rw [← hknown]
  split
  case h_1 hnone =>
    rw [and_iff_right hnone]
    exact ⟨fun h => (Except.ok.inj h).symm, fun h => congrArg Except.ok h.symm⟩
  case h_2 hsome => exact ⟨nofun, fun h => absurd h.1 hsome⟩

section Bands

variable {band : Members}

theorem bandNumber_eq_ok {n : Int} :
    bandNumber band value = .ok n ↔ value.wholeNumber = .ok n := by
  unfold bandNumber
  split
  case h_1 m hm => rw [hm, Except.ok.injEq, Except.ok.injEq]
  case h_2 hinfinite => rw [hinfinite]; exact ⟨nofun, nofun⟩
  case h_3 fault hfault => rw [hfault]; exact ⟨nofun, nofun⟩

theorem bandNumberOr_eq_ok {default n : Int} :
    bandNumberOr band key default = .ok n ↔ band.GivesNumber key default n := by
  rw [bandNumberOr, Members.GivesNumber]
  cases band.lookup key with
  | none => exact ⟨fun h => (Except.ok.inj h).symm, fun h => congrArg Except.ok h.symm⟩
  | some value => exact bandNumber_eq_ok

/-- The greatest number of lines that a band covers, which may be left open. -/
def maxLinesOf (band : Members) : Json → Step (Option Int)
  | .null => pure none
  | value => some <$> bandNumber band value

theorem maxLinesOf_eq_ok {maxLines : Option Int} : maxLinesOf band value = .ok maxLines ↔
    match maxLines with
    | none => value = .null
    | some n => value.wholeNumber = .ok n := by
  unfold maxLinesOf
  split
  case h_1 =>
    cases maxLines with
    | none => exact ⟨fun _ => rfl, fun _ => rfl⟩
    | some n => exact ⟨nofun, nofun⟩
  case h_2 hother =>
    rw [map_eq_ok]
    simp only [bandNumber_eq_ok]
    cases maxLines with
    | none => exact ⟨nofun, fun h => absurd h hother⟩
    | some n => simp

/-- A band is read number by number. -/
theorem scopeBand_obj : scopeBand (.obj band) = (do
    let maxLines ← maxLinesOf band (band.get "max_lines")
    let minWords ← bandNumberOr band "min_tokens" 1
    let maxWords ← bandNumberOr band "max_tokens" 4
    if maxWords < minWords then throw (.bandInverted (Json.obj band).shown)
    return ⟨maxLines, minWords, maxWords, !(band.get "single_letter").isVacant⟩) := by
  unfold scopeBand
  dsimp only
  cases band.get "max_lines" <;> rfl

theorem scopeBand_eq_ok {result : ScopeBand} :
    scopeBand value = .ok result ↔ ∃ band : Members, value = .obj band ∧ band.MeansBand result := by
  constructor
  · intro h
    cases value with
    | obj band =>
      rw [scopeBand_obj] at h
      obtain ⟨maxLines, hmaxLines, h⟩ := bind_eq_ok.mp h
      obtain ⟨minWords, hminWords, h⟩ := bind_eq_ok.mp h
      obtain ⟨maxWords, hmaxWords, h⟩ := bind_eq_ok.mp h
      split at h
      case isTrue => cases h
      case isFalse hordered =>
        obtain rfl := Except.ok.inj h
        exact ⟨band, rfl, maxLinesOf_eq_ok.mp hmaxLines, bandNumberOr_eq_ok.mp hminWords,
          bandNumberOr_eq_ok.mp hmaxWords, Int.not_lt.mp hordered, rfl⟩
    | _ => cases h
  · rintro ⟨band, rfl, hmaxLines, hminWords, hmaxWords, hordered, hsingle⟩
    rw [scopeBand_obj]
    refine bind_eq_ok.mpr ⟨result.maxLines, maxLinesOf_eq_ok.mpr hmaxLines, ?_⟩
    refine bind_eq_ok.mpr ⟨result.minWords, bandNumberOr_eq_ok.mpr hminWords, ?_⟩
    refine bind_eq_ok.mpr ⟨result.maxWords, bandNumberOr_eq_ok.mpr hmaxWords, ?_⟩
    rw [if_neg (Int.not_lt.mpr hordered), ← hsingle]
    rfl

theorem mapM_scopeBand_eq_ok {values : List Json} {bands : List ScopeBand} :
    values.mapM scopeBand = .ok bands ↔
      ∃ items : List Members, values = items.map .obj ∧
        List.Forall₂ Members.MeansBand items bands :=
  mapM_eq_ok_of_form fun _ _ => scopeBand_eq_ok

theorem scopeBandsOf_eq_ok {bands : List ScopeBand} : scopeBandsOf value = .ok bands ↔
    ∃ items : List Members, items ≠ [] ∧ value = .arr (items.map .obj) ∧
      List.Forall₂ Members.MeansBand items bands := by
  constructor
  · intro h
    unfold scopeBandsOf at h
    split at h
    case h_1 => cases h
    case h_2 values hvalues =>
      obtain ⟨items, rfl, hbands⟩ := mapM_scopeBand_eq_ok.mp h
      refine ⟨items, ?_, rfl, hbands⟩
      rintro rfl
      exact hvalues rfl
    case h_3 => cases h
  · rintro ⟨items, hne, rfl, hbands⟩
    obtain ⟨item, items, rfl⟩ := List.exists_cons_of_ne_nil hne
    exact mapM_scopeBand_eq_ok.mpr ⟨_, rfl, hbands⟩

end Bands

end Settings

/-- What the reader makes of a value under the key of a setting. -/
def Setting.read (setting : Setting) (value : Json) : Settings.Step SettingValue :=
  match setting with
  | .maxLineLength | .maxCommentLineLength | .maxFunctionLines | .maxParameters
  | .maxNestingDepth => .limit <$> Settings.positive setting.key value
  | .scopeBands => .bands <$> Settings.scopeBandsOf value
  | .requirePackageComment => .flag <$> Settings.boolean setting.key value
  | .logLevel => .text <$> Settings.text setting.key value
  | .exclude =>
    (fun texts => .names (distinct (texts.map Text.upper))) <$> Settings.texts setting.key value
  | .docExemptions => .names <$> Settings.exemptions value
  | .discardMarkers | .generatedSuffixes => .names <$> Settings.texts setting.key value
  | .shortNameAllowlist | .properNouns | .genericPackageNames | .extraStdlib
  | .sideEffectRoots =>
    (fun texts => .names (distinct texts)) <$> Settings.texts setting.key value

/-- **The reader takes what has a meaning.** -/
theorem Setting.read_eq_ok_iff {setting : Setting} {value : Json} {result : SettingValue} :
    setting.read value = .ok result ↔ setting.Means value result := by
  cases setting
  case scopeBands =>
    rw [Setting.read, Setting.Means, map_eq_ok]
    simp only [Settings.scopeBandsOf_eq_ok]
    constructor
    · rintro ⟨bands, ⟨items, hne, hvalue, hbands⟩, rfl⟩
      exact ⟨items, bands, hne, hvalue, hbands, rfl⟩
    · rintro ⟨items, bands, hne, hvalue, hbands, rfl⟩
      exact ⟨bands, ⟨items, hne, hvalue, hbands⟩, rfl⟩
  case docExemptions =>
    rw [Setting.read, Setting.Means, map_eq_ok]
    simp only [Settings.exemptions_eq_ok]
    constructor
    · rintro ⟨_, ⟨texts, hlists, hknown, rfl⟩, rfl⟩
      exact ⟨texts, hlists, hknown, rfl⟩
    · rintro ⟨texts, hlists, hknown, rfl⟩
      exact ⟨_, ⟨texts, hlists, hknown, rfl⟩, rfl⟩
  all_goals
    simp only [Setting.read, Setting.Means, map_eq_ok, Settings.positive_eq_ok,
      Settings.texts_eq_ok, Settings.boolean_eq_ok, Settings.text_eq_ok, and_assoc,
      eq_comm (b := result)]

namespace Settings

variable {s t : Settings} {key : String} {value : Json} {setting : Setting}

/-- **A member replaces the value of its setting.** -/
theorem assign?_key :
    assign? s setting.key value = some (s.put setting <$> setting.read value) := by
  cases setting <;> simp only [Setting.read, map_map] <;> rfl

/-- A member of another key is passed over. -/
theorem assign?_eq_none (h : isSettingKey key = false) : assign? s key value = none := by
  unfold assign?
  dsimp only
  split
  case h_18 => rfl
  all_goals exact absurd h (by decide +kernel)

/-- A value that a setting may have becomes its value. -/
theorem get_put {result : SettingValue} (h : setting.Means value result) :
    (s.put setting result).get setting = result := by
  cases setting
  case maxLineLength | maxCommentLineLength | maxFunctionLines | maxParameters | maxNestingDepth =>
    obtain ⟨n, -, -, rfl⟩ := h
    rfl
  case scopeBands =>
    obtain ⟨items, bands, -, -, -, rfl⟩ := h
    rfl
  case requirePackageComment | logLevel | exclude | discardMarkers | generatedSuffixes |
      shortNameAllowlist | properNouns | genericPackageNames | extraStdlib | sideEffectRoots =>
    obtain ⟨given, -, rfl⟩ := h
    rfl
  case docExemptions =>
    obtain ⟨texts, -, -, rfl⟩ := h
    rfl

end Settings

end GoConventions
