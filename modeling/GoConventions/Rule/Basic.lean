import GoConventions.Log
import GoConventions.Order.Sorting
import GoConventions.Rule.Severity

/-!
# Rules

A rule has an identifier, by which it is reported and suppressed, a category, which says who checks
it, and a severity.  A rule set holds each identifier at most once, in the order of its catalog; a
registry is the rule set of a whole catalog with the catalog's version.

A run excludes rules by identifier.  Case and surrounding blanks of an exclusion do not matter, and
an exclusion that names no rule is remarked upon, or refused where the caller is strict.

## Main definitions

* `Category`, `FixTemplate`, `Rule`, `RuleSet`, `Registry`.
* `Registry.without`: the rules that remain after exclusions, with what is said about unknown ones.
-/

namespace GoConventions

/-- What a rule is about; each category is checked by one evaluator.  The internal one is for
reports on the run itself. -/
inductive Category where
  | naming | errorHandling | imports | documentation | organization | formatting | internal
  deriving DecidableEq, Repr

namespace Category

def label : Category → String
  | .naming => "naming"
  | .errorHandling => "error-handling"
  | .imports => "imports"
  | .documentation => "documentation"
  | .organization => "organization"
  | .formatting => "formatting"
  | .internal => "internal"

def all : List Category :=
  [.naming, .errorHandling, .imports, .documentation, .organization, .formatting, .internal]

/-- The category with a label. -/
def ofLabel? (s : String) : Option Category :=
  all.find? fun category => category.label == s

theorem mem_all (category : Category) : category ∈ all := by
  cases category <;> decide

theorem ofLabel?_label : ∀ category : Category, ofLabel? category.label = some category := by
  intro category; cases category <;> decide +kernel

end Category

/-- The ways in which a finding can be corrected mechanically. -/
inductive FixTemplate where
  | rename | replace | reorderImports
  deriving DecidableEq, Repr

namespace FixTemplate

def label : FixTemplate → String
  | .rename => "rename"
  | .replace => "replace"
  | .reorderImports => "reorder-imports"

def all : List FixTemplate :=
  [.rename, .replace, .reorderImports]

def ofLabel? (s : String) : Option FixTemplate :=
  all.find? fun template => template.label == s

/-- No two templates have one label. -/
theorem label_inj {s t : FixTemplate} : s.label = t.label ↔ s = t := by
  cases s <;> cases t <;> decide

end FixTemplate

structure Rule where
  id : String
  name : String
  category : Category
  severity : Severity
  summary : String
  guidance : String
  fix : Option FixTemplate
  deriving DecidableEq, Repr

/-- Rules with pairwise different identifiers, in order. -/
structure RuleSet where
  rules : List Rule
  nodup_ids : (rules.map Rule.id).Nodup

namespace RuleSet

variable (set : RuleSet)

def ids : List String :=
  set.rules.map Rule.id

def size : Nat :=
  set.rules.length

/-- The rule with an identifier. -/
def get? (id : String) : Option Rule :=
  set.rules.find? fun rule => rule.id == id

def contains (id : String) : Bool :=
  set.ids.contains id

/-- A rule that is found is one of the rules. -/
theorem mem_of_get? {id : String} {rule : Rule} (h : set.get? id = some rule) :
    rule ∈ set.rules :=
  List.mem_of_find?_eq_some h

/-- A rule is found under its own identifier. -/
theorem id_of_get? {id : String} {rule : Rule} (h : set.get? id = some rule) : rule.id = id := by
  have found := List.find?_some h
  simpa using found

/-- An identifier is in a set exactly when some rule has it. -/
theorem contains_iff {id : String} : set.contains id = true ↔ ∃ rule ∈ set.rules, rule.id = id := by
  simp [contains, ids]

/-- The rules that satisfy `p`. -/
def filter (p : Rule → Bool) : RuleSet where
  rules := set.rules.filter p
  nodup_ids := set.nodup_ids.sublist (List.filter_sublist.map Rule.id)

@[simp] theorem rules_filter (p : Rule → Bool) : (set.filter p).rules = set.rules.filter p := rfl

/-- The rules of a category. -/
def ofCategory (category : Category) : RuleSet :=
  set.filter fun rule => rule.category == category

end RuleSet

/-- The rules of a catalog, with its version. -/
structure Registry extends RuleSet where
  version : Int

/-- Identifiers without the blanks around them and in upper case, the blank ones left out. -/
def exclusionIds (exclusions : List String) : List String :=
  (exclusions.filter fun id => !Text.isBlankText id).map fun id => Text.upper (Text.trim id)

namespace Registry

variable (registry : Registry)

/-- The exclusions that name no rule, each once, in ascending order. -/
def unknownExclusions (exclusions : List String) : List String :=
  distinct ((exclusionIds exclusions).filter fun id => !registry.contains id)

/-- The rules that no exclusion names. -/
def without (exclusions : List String) : RuleSet :=
  let excluded := exclusionIds exclusions
  registry.filter fun rule => !excluded.contains rule.id

/-- What is said about exclusions that name no rule. -/
def exclusionLog (exclusions : List String) : List LogRecord :=
  match registry.unknownExclusions exclusions with
  | [] => []
  | unknown =>
    [{ level := .warning, source := .registry
       message := "ignoring unknown rule ids: " ++ ", ".intercalate unknown }]

end Registry

end GoConventions
