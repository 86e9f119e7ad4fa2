import GoConventions.Rule.Basic
import GoConventions.Text.Layout

/-!
# The table of rules

The rules of a registry, one on each line, in the order of the catalog.
-/

namespace GoConventions

/-- The line of a rule. -/
def Rule.tableLine (rule : Rule) : String :=
  Text.padRight 7 rule.id ++ " " ++ Text.padRight 10 rule.severity.label ++ " " ++
    Text.padRight 15 rule.category.label ++ " " ++ rule.summary ++
    match rule.fix with
    | some template => " [fix: " ++ template.label ++ "]"
    | none => ""

/-- The table of a registry. -/
def Registry.table (registry : Registry) : String :=
  "\n".intercalate
    (["Rule catalog v" ++ toString registry.version, Text.rule '=' 40] ++
      registry.rules.map Rule.tableLine)

end GoConventions
