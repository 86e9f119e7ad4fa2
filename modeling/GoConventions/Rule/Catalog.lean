import GoConventions.Json.WholeNumber
import GoConventions.Rule.Basic

/-!
# Reading a rule catalog

A catalog is an object with a list of rules and a version.  It is checked as a whole before any rule
is used: every entry must be complete, no identifier may occur twice, and each category except the
internal one must have from three to eight rules.

## Main definitions

* `CatalogFault`: why a catalog is refused.
* `Rule.ofJson`, `Registry.ofJson`: an entry, and a whole catalog.
-/

namespace GoConventions

/-- Why a catalog is refused, or a rule of it not found. -/
inductive CatalogFault where
  | unreadable (reason : String)
  | notCatalog
  | entryNotObject (entry : String)
  | missingMember (id key : String)
  | unknownCategory (id value : String)
  | unknownSeverity (id value : String)
  | unknownTemplate (id value : String)
  /-- The fix of an entry is a list or an object. -/
  | compoundTemplate
  | duplicateId (id : String)
  | wrongCount (category : Category) (count : Nat)
  | badVersion (fault : WholeNumberFault)
  | unknownRule (id : String)
  | unknownExclusions (ids : List String)
  /-- A numeral of the text has too many digits. -/
  | longNumeral (digits : Nat)
  /-- The lists and objects of the text lie too deep inside each other. -/
  | tooDeep
  /-- The path of the file holds a null character. -/
  | nullCharacter
  deriving DecidableEq, Repr

/-- The least number of rules in a category. -/
def leastRules : Nat := 3

/-- The greatest number of rules in a category. -/
def mostRules : Nat := 8

def CatalogFault.message : CatalogFault → String
  | .unreadable reason => "cannot load rule catalog: " ++ reason
  | .notCatalog => "catalog must be a mapping with a 'rules' list"
  | .entryNotObject entry => "catalog entry is not a mapping: " ++ entry
  | .missingMember id key => "catalog entry " ++ id ++ " is missing '" ++ key ++ "'"
  | .unknownCategory id value =>
    "catalog entry " ++ id ++ ": " ++ value ++ " is not a valid Category"
  | .unknownSeverity id value => "catalog entry " ++ id ++ ": unknown severity: " ++ value
  | .unknownTemplate id value => "rule " ++ id ++ " names unknown fix template " ++ value
  | .compoundTemplate => "a fix template is not a text"
  | .duplicateId id => "duplicate rule id: " ++ id
  | .wrongCount category count =>
    "category " ++ category.label ++ " has " ++ toString count ++ " rules, expected " ++
      toString leastRules ++ "-" ++ toString mostRules
  | .badVersion fault => fault.message
  | .unknownRule id => "unknown rule id: " ++ id
  | .unknownExclusions ids => "unknown rule ids in exclusion list: " ++ ", ".intercalate ids
  | .longNumeral digits => WholeNumberFault.message (.tooLong digits)
  | .tooDeep => "the text is nested too deep"
  | .nullCharacter => "a path holds a null character"

/-- A member that an entry must have. -/
def requiredMember (entry : Members) (key : String) : Except CatalogFault Json :=
  match entry.lookup key with
  | some value => .ok value
  | none =>
    .error (.missingMember (entry.textOr "id" "?") key)

/-- The category that a value names. -/
def categoryOf (id : String) (value : Json) : Except CatalogFault Category :=
  match value with
  | .str s =>
    match Category.ofLabel? s with
    | some category => .ok category
    | none => .error (.unknownCategory id value.shown)
  | _ => .error (.unknownCategory id value.shown)

/-- The severity that a value names. -/
def severityOf (id : String) (value : Json) : Except CatalogFault Severity :=
  match Severity.ofText? value.text with
  | some severity => .ok severity
  | none => .error (.unknownSeverity id value.shown)

/-- The fix template that a value names; null names none. -/
def templateOf (id : String) (value : Json) : Except CatalogFault (Option FixTemplate) :=
  match value with
  | .null => .ok none
  | .str s =>
    match FixTemplate.ofLabel? s with
    | some template => .ok (some template)
    | none => .error (.unknownTemplate id value.shown)
  | .arr _ => .error .compoundTemplate
  | .obj _ => .error .compoundTemplate
  | _ => .error (.unknownTemplate id value.shown)

/-- The rule that an entry describes. -/
def Rule.ofJson (entry : Json) : Except CatalogFault Rule := do
  match entry with
  | .obj members => do
    let members : Members := members
    let id := (← requiredMember members "id").text
    let category ← categoryOf id (← requiredMember members "category")
    let severity ← severityOf id (← requiredMember members "severity")
    let fix ← templateOf id (members.get "fix")
    return {
      id, category, severity, fix
      name := members.textOr "name" (Text.lower id)
      summary := members.textOr "summary" ""
      guidance := members.textOr "guidance" "" }
  | _ => throw (.entryNotObject entry.shown)

/-- The first identifier that occurs a second time. -/
def firstDuplicate? : List String → List String → Option String
  | _, [] => none
  | seen, id :: ids => if seen.contains id then some id else firstDuplicate? (id :: seen) ids

/-- The first category, other than the internal one, with too few or too many rules. -/
def firstWrongCount? (rules : List Rule) : Option (Category × Nat) :=
  ((Category.all.filter (· != .internal)).map fun category =>
    (category, (rules.filter fun rule => rule.category == category).length)).find? fun entry =>
      entry.2 < leastRules || mostRules < entry.2

/-- The registry of a catalog. -/
def Registry.ofJson (data : Json) : Except CatalogFault Registry := do
  match data with
  | .obj members => do
    let members : Members := members
    match members.get "rules" with
    | .arr entries => do
      let rules ← entries.mapM Rule.ofJson
      if h : (rules.map Rule.id).Nodup then
        match firstWrongCount? rules with
        | some (category, count) => throw (.wrongCount category count)
        | none => do
          let version ←
            match members.lookup "version" with
            | none => pure 0
            | some value =>
              match value.wholeNumber with
              | .ok version => pure version
              | .error fault => throw (.badVersion fault)
          return { rules, nodup_ids := h, version }
      else
        throw (.duplicateId ((firstDuplicate? [] (rules.map Rule.id)).getD ""))
    | _ => throw .notCatalog
  | _ => throw .notCatalog

/-- What is said about a catalog that was read. -/
def Registry.loadedRecord (registry : Registry) : LogRecord where
  level := .debug
  source := .registry
  message := "loaded rule catalog v" ++ toString registry.version ++ " with " ++
    toString registry.size ++ " rules"

/-- The rule with an identifier, which must exist. -/
def Registry.rule (registry : Registry) (id : String) : Except CatalogFault Rule :=
  match registry.get? id with
  | some rule => .ok rule
  | none => .error (.unknownRule id)

/-- The rules that no exclusion names, when every exclusion names a rule. -/
def Registry.strictlyWithout (registry : Registry) (exclusions : List String) :
    Except CatalogFault RuleSet :=
  match registry.unknownExclusions exclusions with
  | [] => .ok (registry.without exclusions)
  | unknown => .error (.unknownExclusions unknown)

end GoConventions
