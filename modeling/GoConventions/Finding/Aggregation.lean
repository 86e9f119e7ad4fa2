import GoConventions.Fix.Synthesis

/-!
# The findings of a file

Findings arrive in batches, one for each evaluator.  A batch is looked through before anything is
gathered: if one of its findings lies outside the file, the batch is refused.

The result holds every finding once.  Of several findings with one key the first counts, except that
every report of a failed evaluator counts.  They are put in order, given their patches, and
numbered from one.

## Main definitions

* `Findings.take`, `Findings.add`: takes a batch or refuses it.
* `Findings.result`: the ordered and numbered findings with their summary.
-/

namespace GoConventions

/-- How many findings there are of each severity. -/
structure Summary where
  error : Nat := 0
  warning : Nat := 0
  suggestion : Nat := 0
  deriving DecidableEq, Repr

namespace Summary

def count (summary : Summary) : Severity → Nat
  | .error => summary.error
  | .warning => summary.warning
  | .suggestion => summary.suggestion

/-- The summary with one more finding of a severity. -/
def increment (summary : Summary) : Severity → Summary
  | .error => { summary with error := summary.error + 1 }
  | .warning => { summary with warning := summary.warning + 1 }
  | .suggestion => { summary with suggestion := summary.suggestion + 1 }

/-- The summary of the findings of both. -/
def merge (s t : Summary) : Summary :=
  ⟨s.error + t.error, s.warning + t.warning, s.suggestion + t.suggestion⟩

def total (summary : Summary) : Nat :=
  summary.error + summary.warning + summary.suggestion

/-- The counts by severity, most serious first. -/
def rows (summary : Summary) : List (Severity × Nat) :=
  Severity.all.map fun severity => (severity, summary.count severity)

/-- Whether there is neither an error nor a warning. -/
def passed (summary : Summary) : Bool :=
  summary.error == 0 && summary.warning == 0

def ofFindings (findings : List Finding) : Summary :=
  findings.foldl (fun summary finding => summary.increment finding.severity) {}

end Summary

/-- The findings of one file, in their final order. -/
structure FileResult where
  path : String
  findings : List Finding
  summary : Summary
  deriving DecidableEq, Repr

namespace FileResult

def ofFindings (path : String) (findings : List Finding) : FileResult :=
  ⟨path, findings, .ofFindings findings⟩

def passed (result : FileResult) : Bool :=
  result.summary.passed

def patches (result : FileResult) : List Patch :=
  result.findings.filterMap (·.patch)

/-- The findings of a rule. -/
def byRule (result : FileResult) (ruleId : String) : List Finding :=
  result.findings.filter (·.ruleId == ruleId)

end FileResult

/-- A finding whose span does not lie in the file. -/
structure OutsideFile where
  ruleId : String
  span : Span
  path : String
  deriving DecidableEq, Repr

def OutsideFile.message (fault : OutsideFile) : String :=
  fault.ruleId ++ " reported span " ++ toString fault.span.start.offset ++ "-" ++
    toString fault.span.stop.offset ++ " outside " ++ fault.path

/-- The findings of one file as they arrive. -/
abbrev Findings := List Finding

namespace Findings

variable (unit : SourceUnit)

/-- Refuses a batch at its first finding that lies outside the file. -/
def check (batch : List Finding) : EStateM OutsideFile Findings Unit :=
  batch.forM fun finding =>
    unless unit.containsSpan finding.span do
      throw ⟨finding.ruleId, finding.span, unit.path⟩

/-- Takes a batch, unless it is refused. -/
def take (batch : List Finding) : EStateM OutsideFile Findings Unit := do
  check unit batch
  modify (· ++ batch)

/-- The findings with those of a batch, or why it is refused. -/
def add (findings : Findings) (batch : List Finding) : Except OutsideFile Findings :=
  match (take unit batch).run findings with
  | .ok _ taken => .ok taken
  | .error fault _ => .error fault

/-- The findings that are not internal and whose key is not among those seen, each key once: the
first finding of each key, and apart from it the others in the order in which they are met. -/
def separateDuplicates :
    List (String × Int × Int) → List Finding → List Finding × List Finding
  | _, [] => ([], [])
  | seen, finding :: findings =>
    if seen.contains finding.key then
      let (kept, dropped) := separateDuplicates seen findings
      (kept, finding :: dropped)
    else
      let (kept, dropped) := separateDuplicates (finding.key :: seen) findings
      (finding :: kept, dropped)

/-- The first finding of each key, and the findings dropped. -/
def separated (findings : Findings) : List Finding × List Finding :=
  separateDuplicates [] (findings.filter fun finding => !finding.isInternal)

/-- The findings to be reported, in order: each key once, and all internal ones. -/
def ordered (findings : Findings) : List Finding :=
  sortBy Finding.order (findings.separated.1 ++ findings.filter (·.isInternal))

/-- The findings with their numbers, from one. -/
def numbered (findings : List Finding) : List Finding :=
  findings.zipIdx.map fun (finding, index) => { finding with ordinal := index + 1 }

/-- The result for the file. -/
def result (findings : Findings) : FileResult :=
  .ofFindings unit.path (numbered (synthesize unit findings.ordered))

/-- What is said while the result is put together. -/
def resultLog (findings : Findings) : List LogRecord :=
  (findings.separated.2.map fun finding =>
    { level := .debug, source := .aggregation
      message := "dropping duplicate " ++ finding.ruleId ++ " at " ++ finding.location }) ++
    synthesisLog unit findings.ordered

end Findings

end GoConventions
