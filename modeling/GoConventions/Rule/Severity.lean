import GoConventions.Text.Blank
import GoConventions.Text.Case

/-!
# Severity

How serious a finding is.  Errors and warnings make a file fail; suggestions do not.
-/

namespace GoConventions

inductive Severity where
  | error | warning | suggestion
  deriving DecidableEq, Repr

namespace Severity

def label : Severity → String
  | .error => "error"
  | .warning => "warning"
  | .suggestion => "suggestion"

/-- A higher rank is more serious. -/
def rank : Severity → Nat
  | .error => 2
  | .warning => 1
  | .suggestion => 0

/-- The severities, most serious first. -/
def all : List Severity :=
  [.error, .warning, .suggestion]

/-- The severity with a label. -/
def ofLabel? (s : String) : Option Severity :=
  all.find? fun severity => severity.label == s

/-- The severity that a text names, whatever its case and the blanks around it. -/
def ofText? (s : String) : Option Severity :=
  ofLabel? (Text.lower (Text.trim s))

theorem mem_all (severity : Severity) : severity ∈ all := by
  cases severity <;> decide

theorem ofLabel?_label : ∀ severity : Severity, ofLabel? severity.label = some severity := by
  intro severity; cases severity <;> decide +kernel

/-- A severity is read back from its label. -/
theorem ofText?_label : ∀ severity : Severity, ofText? severity.label = some severity := by
  intro severity; cases severity <;> decide +kernel

end Severity

end GoConventions
