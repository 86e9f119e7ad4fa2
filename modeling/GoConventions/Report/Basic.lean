import GoConventions.Finding.Aggregation
import GoConventions.Text.Layout

/-!
# Reports

The results of several files together: the sum of their summaries, the most serious findings, and
the two plain texts that are printed, a table and a list of lines.

A report fails on errors and on warnings, and its exit code tells the two apart.
-/

namespace GoConventions

structure Report where
  results : List FileResult
  deriving DecidableEq, Repr

namespace Report

variable (report : Report)

def summary : Summary :=
  report.results.foldl (fun summary result => summary.merge result.summary) {}

def findings : List Finding :=
  report.results.flatMap FileResult.findings

def passed : Bool :=
  report.results.all FileResult.passed

/-- Two when there is an error, one when there is a warning, else zero. -/
def exitCode : Nat :=
  if 0 < report.summary.error then 2 else if 0 < report.summary.warning then 1 else 0

/-- The order of the most serious findings: by severity, path, offset and rule. -/
def topOrder : Finding → Finding → Ordering :=
  compareLex (fun f g => compare g.severity.rank f.severity.rank)
    (compareLex (compareOn (·.path))
      (compareLex (compareOn (·.span.start.offset)) (compareOn (·.ruleId))))

/-- The most serious findings up to a bound; a bound below zero counts from the end. -/
def topFindings (limit : Int) : List Finding :=
  let ordered := sortBy topOrder report.findings
  ordered.take (Text.bound ordered.length limit)

/-- The lines of the table that counts the findings. -/
def countLines : List String :=
  let header := Text.padRight 10 "Severity" ++ " | " ++ Text.padLeft 5 "Count"
  let divider := Text.rule '-' header.toList.length
  ["Style Summary", Text.rule '=' 40, header, divider] ++
    (report.summary.rows.map fun (severity, count) =>
      Text.padRight 10 severity.label ++ " | " ++ Text.padLeft 5 (toString count)) ++
    [divider,
     "Status    : " ++ (if report.passed then "PASS" else "FAIL"),
     "Files     : " ++ toString report.results.length,
     "Findings  : " ++ toString report.summary.total]

/-- The lines of the table that name the most serious findings. -/
def topLines (limit : Int) : List String :=
  match report.topFindings limit with
  | [] => []
  | findings =>
    ["", "Top Findings", Text.rule '-' 40] ++
      findings.flatMap fun finding =>
        ["[" ++ finding.severity.label ++ "] " ++ finding.ruleId ++ " " ++ finding.message,
         "  Location: " ++ finding.location]

/-- The table for the terminal. -/
def summaryTable (limit : Int := 5) : String :=
  "\n".intercalate (report.countLines ++ report.topLines limit)

/-- One line for each finding. -/
def findingLines : String :=
  "\n".intercalate (report.findings.map fun finding =>
    finding.location ++ ": [" ++ finding.ruleId ++ "] " ++ finding.message ++
      (if finding.patch.isSome then " (fixable)" else ""))

end Report

end GoConventions
