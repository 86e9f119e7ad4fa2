import GoConventions.Proofs.Rule.Catalog
import GoConventions.Rule.Packaged
import Mathlib.Data.List.TakeWhile

/-!
# Excluding rules by name

A caller excludes rules by naming them, and letter case and the blanks around a name are not to
matter: the rules that are named go, the others stay in their order, and a name of no rule is
remarked upon, or refused where the caller is strict.  A text of blanks alone is no name.

Names are put in upper case and looked up among the identifiers of the catalog, which are taken as
they are written.  So exclusions are heeded exactly when the identifiers are written in the form in
which they are looked up (`heedsExclusions_iff`).  Those of the packaged rules are; a rule with
another identifier stays even when it is excluded by its own, and is reported as unknown.

## Main definitions

* `Rule.IsNamedBy`, `Rule.HasPlainId`: a name of a rule, and identifiers that are looked up as they
  are written.
* `Registry.HeedsExclusions`: what a caller who excludes rules may rely on.

## Main results

* `Registry.heeds_of_plainIds`: a registry of plain identifiers heeds all exclusions.
* `heedsExclusions_iff`: which registries do.
-/

namespace GoConventions

/-- A name is that of a rule, letter case and the blanks around it apart. -/
def Rule.IsNamedBy (rule : Rule) (name : String) : Prop :=
  Text.upper (Text.trim name) = Text.upper (Text.trim rule.id)

instance (rule : Rule) (name : String) : Decidable (rule.IsNamedBy name) :=
  inferInstanceAs (Decidable (_ = _))

/-- The identifier of a rule is in upper case, has no blanks around it, and is not empty. -/
def Rule.HasPlainId (rule : Rule) : Prop :=
  Text.upper (Text.trim rule.id) = rule.id ∧ rule.id ≠ ""

instance (rule : Rule) : Decidable rule.HasPlainId :=
  inferInstanceAs (Decidable (_ ∧ _))

theorem Text.trim_eq_empty {s : String} (h : Text.isBlankText s = true) : Text.trim s = "" := by
  have hblank : s.toList.dropWhile Text.isBlank = [] :=
    List.dropWhile_eq_nil_iff.mpr (List.all_eq_true.mp h)
  rw [Text.trim, Text.trimChars, hblank]
  rfl

/-- A rule of a plain identifier is looked up under its names, and under nothing else. -/
theorem Rule.isNamedBy_iff {rule : Rule} {name : String} (hrule : rule.HasPlainId) :
    rule.IsNamedBy name ↔
      Text.isBlankText name = false ∧ Text.upper (Text.trim name) = rule.id := by
  rw [Rule.IsNamedBy, hrule.1]
  refine ⟨fun h => ⟨?_, h⟩, And.right⟩
  by_contra hblank
  rw [Bool.not_eq_false] at hblank
  rw [Text.trim_eq_empty hblank] at h
  exact hrule.2 h.symm

namespace Registry

variable (registry : Registry)

/-- The names that are those of no rule, as they are reported. -/
def strangeNames (exclusions : List String) : List String :=
  distinct ((exclusions.filter fun name => !Text.isBlankText name &&
    registry.rules.all fun rule => !decide (rule.IsNamedBy name)).map fun name =>
      Text.upper (Text.trim name))

/-- Exclusions are heeded: the rules that remain are those that are not named, in their order, and
what is reported are the names of no rule, in a warning or, to a strict caller, as a fault. -/
structure Heeds (exclusions : List String) : Prop where
  remaining : (registry.without exclusions).rules =
    registry.rules.filter fun rule => !exclusions.any fun name => decide (rule.IsNamedBy name)
  remarked : registry.exclusionLog exclusions =
    if registry.strangeNames exclusions = [] then []
    else [{ level := .warning, source := .registry
            message := "ignoring unknown rule ids: " ++
              ", ".intercalate (registry.strangeNames exclusions) }]
  refused : registry.strictlyWithout exclusions =
    if registry.strangeNames exclusions = [] then .ok (registry.without exclusions)
    else .error (.unknownExclusions (registry.strangeNames exclusions))

/-- All exclusions are heeded. -/
def HeedsExclusions : Prop :=
  ∀ exclusions, registry.Heeds exclusions

variable {registry} {exclusions : List String} {name : String} {rule : Rule}

theorem mem_exclusionIds {id : String} : id ∈ exclusionIds exclusions ↔
    ∃ name ∈ exclusions, Text.isBlankText name = false ∧ Text.upper (Text.trim name) = id := by
  simp [exclusionIds, and_assoc]

theorem contains_exclusionIds (hrule : rule.HasPlainId) :
    (exclusionIds exclusions).contains rule.id =
      exclusions.any fun name => decide (rule.IsNamedBy name) := by
  rw [Bool.eq_iff_iff, List.contains_iff_mem, mem_exclusionIds, List.any_eq_true]
  simp only [decide_eq_true_eq, Rule.isNamedBy_iff hrule]

/-- A name is unknown when it is the name of no rule. -/
theorem not_contains_iff (hplain : ∀ rule ∈ registry.rules, rule.HasPlainId)
    (hname : Text.isBlankText name = false) :
    (!registry.contains (Text.upper (Text.trim name))) =
      registry.rules.all fun rule => !decide (rule.IsNamedBy name) := by
  rw [Bool.eq_iff_iff, Bool.not_eq_true', ← Bool.not_eq_true, registry.contains_iff,
    List.all_eq_true]
  simp only [Bool.not_eq_true', decide_eq_false_iff_not, not_exists, not_and]
  refine forall₂_congr fun rule hrule => not_congr ?_
  rw [Rule.isNamedBy_iff (hplain rule hrule), eq_comm]
  exact (and_iff_right hname).symm

theorem unknownExclusions_eq (hplain : ∀ rule ∈ registry.rules, rule.HasPlainId) :
    registry.unknownExclusions exclusions = registry.strangeNames exclusions := by
  rw [unknownExclusions, strangeNames, exclusionIds, List.filter_map, List.filter_filter]
  congr 2
  refine List.filter_congr fun name _ => ?_
  cases hname : Text.isBlankText name with
  | true => simp
  | false => simpa using not_contains_iff hplain hname

/-- **A registry of plain identifiers heeds all exclusions.** -/
theorem heeds_of_plainIds (hplain : ∀ rule ∈ registry.rules, rule.HasPlainId)
    (exclusions : List String) : registry.Heeds exclusions where
  remaining := by
    refine List.filter_congr fun rule hrule => ?_
    rw [contains_exclusionIds (hplain rule hrule)]
  remarked := by
    rw [exclusionLog, unknownExclusions_eq hplain]
    split
    case h_1 hnone => rw [if_pos hnone]
    case h_2 hsome => rw [if_neg hsome]
  refused := by
    rw [strictlyWithout, unknownExclusions_eq hplain]
    split
    case h_1 hnone => rw [if_pos hnone]
    case h_2 hsome => rw [if_neg hsome]

/-- A rule goes under its own identifier exactly when that is plain. -/
theorem not_mem_without_own (hrule : rule ∈ registry.rules) :
    rule ∉ (registry.without [rule.id]).rules ↔ rule.HasPlainId := by
  have hexcluded : rule ∉ (registry.without [rule.id]).rules ↔
      rule.id ∈ exclusionIds [rule.id] := by
    simp [without, hrule]
  rw [hexcluded, mem_exclusionIds]
  constructor
  · rintro ⟨name, hname, hblank, hid⟩
    obtain rfl := List.mem_singleton.mp hname
    refine ⟨hid, fun hempty => ?_⟩
    rw [hempty] at hblank
    cases hblank
  · intro hplain
    have hnamed : rule.IsNamedBy rule.id := rfl
    exact ⟨rule.id, List.mem_singleton_self _, (Rule.isNamedBy_iff hplain).mp hnamed⟩

/-- Where exclusions are heeded, each rule goes under its own identifier. -/
theorem hasPlainId_of_heeds (h : registry.HeedsExclusions) (hrule : rule ∈ registry.rules) :
    rule.HasPlainId := by
  refine (not_mem_without_own hrule).mp fun hkept => ?_
  rw [(h [rule.id]).remaining, List.mem_filter] at hkept
  simp [Rule.IsNamedBy] at hkept

end Registry

/-- **Which registries heed exclusions**: those whose rules have plain identifiers.  A rule that has
none stays even when it is excluded by its own. -/
theorem heedsExclusions_iff (registry : Registry) :
    (registry.HeedsExclusions ↔ ∀ rule ∈ registry.rules, rule.HasPlainId) ∧
      ∀ rule ∈ registry.rules,
        (rule ∉ (registry.without [rule.id]).rules ↔ rule.HasPlainId) :=
  ⟨⟨fun h _ hrule => Registry.hasPlainId_of_heeds h hrule, Registry.heeds_of_plainIds⟩,
    fun _ hrule => Registry.not_mem_without_own hrule⟩

/-- Every packaged rule can be excluded. -/
theorem heedsExclusions_packagedRegistry : packagedRegistry.HeedsExclusions :=
  (heedsExclusions_iff packagedRegistry).1.mpr (by decide +kernel)

/-- **A rule may stay although it is excluded**: catalogs with identifiers in lower case are
accepted. -/
theorem not_forall_heedsExclusions :
    ¬ ∀ (catalog : Json) (registry : Registry), Registry.ofJson catalog = .ok registry →
      registry.HeedsExclusions := by
  intro hall
  have hread : ((Registry.ofJson (plainCatalog [])).toOption.map fun registry =>
      decide (registry.rules.all fun rule => decide rule.HasPlainId)) = some false := by
    decide +kernel
  obtain ⟨registry, hregistry, hplain⟩ := Option.map_eq_some_iff.mp hread
  have hheeds := hall _ _ (toOption_eq_some.mp hregistry)
  exact of_decide_eq_false hplain (List.all_eq_true.mpr fun rule hrule =>
    decide_eq_true (Registry.hasPlainId_of_heeds hheeds hrule))

end GoConventions
