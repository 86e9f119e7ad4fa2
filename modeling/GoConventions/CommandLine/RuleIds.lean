import GoConventions.Text.Blank
import GoConventions.Text.Case
import GoConventions.Text.Search

/-!
# Lists of rule identifiers

Rules are excluded on the command line one by one or in lists with commas; blanks and empty parts do
not matter, nor does case.
-/

namespace GoConventions

/-- The identifiers in the values of an option. -/
def splitRuleIds (values : List String) : List String :=
  values.flatMap fun value =>
    ((Text.splitAt ',' value).filter fun part => !Text.isBlankText part).map fun part =>
      Text.upper (Text.trim part)

end GoConventions
