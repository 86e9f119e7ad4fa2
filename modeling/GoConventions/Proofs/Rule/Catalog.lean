import GoConventions.Proofs.Result
import GoConventions.Rule.Catalog
import Mathlib.Data.List.Nodup

/-!
# Catalogs and their rules

A rule is found under its identifier and has one category, and categories are told apart by their
labels.  So what a finding says about its rule leads back to the rule.

A catalog that is accepted has from three to eight rules in every category but the internal one, of
which nothing is asked: it may be empty, and the rule under which failures are reported need not be
in it, nor need that rule exist at all.

## Main results

* `Category.ofLabel?_eq_some_iff`, `Severity.ofLabel?_eq_some_iff`,
  `FixTemplate.ofLabel?_eq_some_iff`: what is found under a label.
* `RuleSet.get?_eq_some_iff`: which rule is found under an identifier.
* `Registry.ofJson_eq_ok_iff`: the conditions for accepting a catalog, one after the other.
* `Registry.size_ofCategory_of_ofJson`: how many rules a category of an accepted catalog has.
-/

namespace GoConventions

/-! ## Labels -/

/-- What is found by its label has that label, when everything is found by its own. -/
theorem find?_label_eq_some_iff {α : Type} {all : List α} {label : α → String}
    (hown : ∀ x, all.find? (fun y => label y == label x) = some x) {s : String} {x : α} :
    all.find? (fun y => label y == s) = some x ↔ s = label x := by
  constructor
  · intro h
    have hlabel := List.find?_some h
    exact (eq_of_beq hlabel).symm
  · rintro rfl
    exact hown x

theorem Category.ofLabel?_eq_some_iff {label : String} {category : Category} :
    ofLabel? label = some category ↔ label = category.label :=
  find?_label_eq_some_iff ofLabel?_label

theorem Severity.ofLabel?_eq_some_iff {label : String} {severity : Severity} :
    ofLabel? label = some severity ↔ label = severity.label :=
  find?_label_eq_some_iff ofLabel?_label

theorem FixTemplate.ofLabel?_eq_some_iff {label : String} {template : FixTemplate} :
    ofLabel? label = some template ↔ label = template.label :=
  find?_label_eq_some_iff fun template => by cases template <;> decide +kernel

theorem Category.label_inj {c d : Category} : c.label = d.label ↔ c = d := by
  refine ⟨fun h => ?_, congrArg Category.label⟩
  have hread := Category.ofLabel?_label c
  rw [h, Category.ofLabel?_label d] at hread
  exact (Option.some.inj hread).symm

/-! ## Rules and their identifiers -/

/-- A rule is found under its identifier, since no other rule has it. -/
theorem RuleSet.get?_eq_some_iff {set : RuleSet} {id : String} {rule : Rule} :
    set.get? id = some rule ↔ rule ∈ set.rules ∧ rule.id = id := by
  constructor
  · intro h
    exact ⟨set.mem_of_get? h, set.id_of_get? h⟩
  · rintro ⟨hmem, rfl⟩
    cases hget : set.get? rule.id with
    | none => simpa using List.find?_eq_none.mp hget rule hmem
    | some other =>
      -- What is found has the identifier too, and no two rules share one.
      have hid := set.id_of_get? hget
      rw [List.inj_on_of_nodup_map set.nodup_ids (set.mem_of_get? hget) hmem hid]

/-! ## Accepted catalogs -/

/-- No category but the internal one has too few or too many rules. -/
theorem firstWrongCount?_eq_none_iff {rules : List Rule} :
    firstWrongCount? rules = none ↔ ∀ category, category ≠ .internal →
      leastRules ≤ (rules.filter fun rule => rule.category == category).length ∧
        (rules.filter fun rule => rule.category == category).length ≤ mostRules := by
  rw [firstWrongCount?, List.find?_eq_none, List.forall_mem_map]
  constructor
  · intro h category hcategory
    have hmem : category ∈ Category.all.filter (· != .internal) :=
      List.mem_filter.mpr ⟨Category.mem_all category, by simpa using hcategory⟩
    simpa using h category hmem
  · intro h category hmem
    obtain ⟨-, hcategory⟩ := List.mem_filter.mp hmem
    simpa using h category (by simpa using hcategory)

namespace Registry

variable {data : Json} {registry : Registry}

/-- The version that a catalog states, or zero. -/
def statedVersion (catalog : Members) : Except WholeNumberFault Int :=
  ((catalog.lookup "version").map Json.wholeNumber).getD (.ok 0)

/-- **The conditions for accepting a catalog**, and what is read from it. -/
theorem ofJson_eq_ok_iff : ofJson data = .ok registry ↔
    ∃ (catalog : Members) (entries : List Json), data = .obj catalog ∧
      catalog.get "rules" = .arr entries ∧ entries.mapM Rule.ofJson = .ok registry.rules ∧
      firstWrongCount? registry.rules = none ∧ statedVersion catalog = .ok registry.version := by
  constructor
  · intro h
    unfold ofJson at h
    split at h
    case h_2 => cases h
    case h_1 catalog =>
      dsimp only at h
      split at h
      case h_2 => cases h
      case h_1 entries hentries =>
        obtain ⟨rules, hrules, h⟩ := bind_eq_ok.mp h
        split at h
        case isFalse => cases h
        case isTrue hnodup =>
          split at h
          case h_1 => cases h
          case h_2 hcount =>
            -- However the version is read, the rules are those that have been counted.
            cases hlookup : catalog.lookup "version" with
            | none =>
              rw [hlookup] at h
              obtain rfl := Except.ok.inj h
              refine ⟨catalog, entries, rfl, hentries, hrules, hcount, ?_⟩
              rw [statedVersion, hlookup]
              rfl
            | some value =>
              rw [hlookup] at h
              dsimp only at h
              cases hvalue : value.wholeNumber with
              | error fault =>
                rw [hvalue] at h
                cases h
              | ok version =>
                rw [hvalue] at h
                obtain rfl := Except.ok.inj h
                refine ⟨catalog, entries, rfl, hentries, hrules, hcount, ?_⟩
                rw [statedVersion, hlookup]
                exact hvalue
  · rintro ⟨catalog, entries, rfl, hentries, hrules, hcount, hversion⟩
    unfold ofJson
    dsimp only
    rw [hentries]
    dsimp only
    rw [hrules]
    refine bind_eq_ok.mpr ⟨_, rfl, ?_⟩
    rw [dif_pos registry.nodup_ids, hcount]
    dsimp only
    cases hlookup : catalog.lookup "version" with
    | none =>
      rw [statedVersion, hlookup] at hversion
      exact congrArg (fun version => Except.ok { registry with version }) (Except.ok.inj hversion)
    | some value =>
      rw [statedVersion, hlookup] at hversion
      dsimp only
      rw [show value.wholeNumber = _ from hversion]
      rfl

/-- A catalog is accepted only after its categories have been counted. -/
theorem firstWrongCount?_of_ofJson (h : ofJson data = .ok registry) :
    firstWrongCount? registry.rules = none := by
  obtain ⟨-, -, -, -, -, hcount, -⟩ := ofJson_eq_ok_iff.mp h
  exact hcount

/-- **An accepted catalog has from three to eight rules in each category** that is checked. -/
theorem size_ofCategory_of_ofJson (h : ofJson data = .ok registry) {category : Category}
    (hcategory : category ≠ .internal) :
    leastRules ≤ (registry.ofCategory category).size ∧
      (registry.ofCategory category).size ≤ mostRules :=
  firstWrongCount?_eq_none_iff.mp (firstWrongCount?_of_ofJson h) category hcategory

end Registry

/-! ## A small catalog -/

/-- An entry of a catalog with nothing but what it must have. -/
def plainEntry (id : String) (category : Category) : Json :=
  .obj [("id", .str id), ("category", .str category.label), ("severity", .str "error")]

/-- A catalog of three rules in each category that is checked, and of further rules. -/
def plainCatalog (further : List Json) : Json :=
  let checked := (Category.all.filter (· != .internal)).flatMap fun category =>
    ["1", "2", "3"].map fun number => plainEntry (category.label ++ number) category
  .obj [("rules", .arr (checked ++ further))]

end GoConventions
