import GoConventions.Fix.Patch
import GoConventions.Rule.Basic

/-!
# Findings

A finding is one place where a rule is broken.  It may carry a request for a mechanical correction,
from which a patch is made later, and it gets its number once all findings of a file are in order.

Findings are ordered by where they start; at one place the more serious comes first, then the
identifier of the rule and the end of the span decide.  Two findings of one rule at one span are the
same finding (`Finding.key`).
-/

namespace GoConventions

/-- What is known about a mechanical correction.  A renaming has an old and a new name, and the span
within which occurrences are rewritten; the other templates have a replacement for the span.  The
template is a text, since a request may name one that does not exist. -/
structure FixRequest where
  template : String
  span : Span
  replacement : Option String := none
  oldName : Option String := none
  newName : Option String := none
  within : Option Span := none
  includeSelectors : Bool := false
  deriving DecidableEq, Repr

structure Finding where
  ruleId : String
  category : String
  severity : Severity
  path : String
  span : Span
  message : String
  guidance : String
  fix : Option FixRequest := none
  patch : Option Patch := none
  ordinal : Nat := 0
  deriving DecidableEq, Repr

namespace Finding

/-- What makes two findings the same. -/
def key (finding : Finding) : String × Int × Int :=
  (finding.ruleId, finding.span.start.offset, finding.span.stop.offset)

/-- The order of findings in a report on one file. -/
def order : Finding → Finding → Ordering :=
  compareLex (compareOn (·.span.start.offset))
    (compareLex (fun f g => compare g.severity.rank f.severity.rank)
      (compareLex (compareOn (·.ruleId)) (compareOn (·.span.stop.offset))))

/-- The more serious findings first, and among equals the order of the report. -/
def bySeverity : Finding → Finding → Ordering :=
  compareLex (fun f g => compare g.severity.rank f.severity.rank) order

/-- Where a finding is: path, line and column. -/
def location (finding : Finding) : String :=
  finding.path ++ ":" ++ toString finding.span.start.line ++ ":" ++
    toString finding.span.start.column

/-- Whether a finding reports a failure of the run itself. -/
def isInternal (finding : Finding) : Bool :=
  finding.category == Category.internal.label

end Finding

end GoConventions
