import GoConventions.Json.Printer
import GoConventions.Report.Basic

/-!
# Reports as JSON

The members of a report in the order in which they are written.
-/

namespace GoConventions

def Position.toJson (position : Position) : Json :=
  .obj [("line", .int position.line), ("column", .int position.column),
    ("offset", .int position.offset)]

def Span.toJson (span : Span) : Json :=
  .obj [("start", span.start.toJson), ("end", span.stop.toJson)]

def TextEdit.toJson (edit : TextEdit) : Json :=
  .obj [("span", edit.span.toJson), ("new_text", .str edit.newText)]

def Patch.toJson (patch : Patch) : Json :=
  .obj [("rule_id", .str patch.ruleId), ("description", .str patch.description),
    ("edits", .arr (patch.edits.map TextEdit.toJson))]

def Finding.toJson (finding : Finding) : Json :=
  .obj [("ordinal", .int finding.ordinal), ("rule_id", .str finding.ruleId),
    ("category", .str finding.category), ("severity", .str finding.severity.label),
    ("path", .str finding.path), ("span", finding.span.toJson),
    ("message", .str finding.message), ("guidance", .str finding.guidance),
    ("patch", (finding.patch.map Patch.toJson).getD .null)]

def Summary.toJson (summary : Summary) : Json :=
  .obj [("error", .int summary.error), ("warning", .int summary.warning),
    ("suggestion", .int summary.suggestion)]

def FileResult.toJson (result : FileResult) : Json :=
  .obj [("path", .str result.path), ("summary", result.summary.toJson),
    ("findings", .arr (result.findings.map Finding.toJson)), ("passed", .bool result.passed)]

def Report.toJson (report : Report) : Json :=
  .obj [("summary", report.summary.toJson),
    ("files", .arr (report.results.map FileResult.toJson)), ("passed", .bool report.passed)]

end GoConventions
