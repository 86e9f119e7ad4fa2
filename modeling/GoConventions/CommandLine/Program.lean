import GoConventions.Analysis
import GoConventions.CommandLine.Options
import GoConventions.CommandLine.RuleIds
import GoConventions.Files.Loading
import GoConventions.Report.Json
import GoConventions.Report.RuleTable

/-!
# The program

A run of the program from its options to its exit code: settings are loaded, documents are found and
read, their files analysed, the report is written, and patches are applied if that is asked for.

The program reaches files and a clock through its `Host` and writes to a console that is a value, so
a run is a function of the options and of the host.

What is said about the work becomes lines of the diagnostics.  Once the log is open, its threshold
decides which records are let through, each record begins with the time, and the log file gets it as
well, at the moment when it is said.  Before that, warnings and worse are said without time and
source.

## Main definitions

* `Host`, `Console`, `Stop`, `Program`: what a run reaches, what it has written, why it stopped, and
  its steps.
* `runOptions`, `execute`: a run for given options, and for given arguments.
-/

namespace GoConventions

/-- What a run reaches outside itself. -/
structure Host (m : Type → Type) extends FileAccess m where
  /-- The present time, as the lines of the log begin with it. -/
  time : m String

/-- What a run has written so far. -/
structure Console where
  output : String := ""
  diagnostics : String := ""
  /-- The least rank that is let through; none as long as the log is not open. -/
  threshold : Option Nat := none
  logFile : Option FilePath := none

/-- A fault of the program's work. -/
inductive WorkFault where
  | settings (fault : SettingsFault)
  /-- An exclusion has no value. -/
  | missingExclusion
  | threshold (fault : ThresholdFault)
  | document (fault : DocumentFault)
  /-- The number of jobs has no value. -/
  | missingJobs
  | run (fault : RunFault)
  | patches (conflict : PatchConflict)
  | file (fault : FileFault)
  deriving DecidableEq, Repr

/-- The message of a fault of settings, where it has one. -/
def SettingsFault.message? : SettingsFault → Option String
  | .infiniteNumber => none
  | .longNumeral _ => none
  | .tooDeep => none
  | .nullCharacter => none
  | fault => some fault.message

/-- The message of a fault that input or settings cause; other faults are those of the program or of
the file system. -/
def WorkFault.message? : WorkFault → Option String
  | .settings fault => fault.message?
  | .document (.tree (.malformed path what)) => some (malformationMessage path what)
  | .run (.cancelled path) => some (RunFault.message (.cancelled path))
  | .run (.catalog fault) => some fault.message
  | .patches conflict => some conflict.message
  | _ => none

/-- Why a run stops before its end. -/
inductive Stop where
  /-- Help was asked for. -/
  | help
  | usage (fault : UsageFault)
  | fault (fault : WorkFault)
  deriving DecidableEq, Repr

/-- The name under which the program reports. -/
def programName : String := "gostyle"

section Program

variable {m : Type → Type} [Monad m]

/-- A step of a run. -/
abbrev Program (m : Type → Type) := ExceptT Stop (StateT Console m)

namespace Program

/-- Writes a line. -/
def print (line : String) : Program m Unit :=
  modify fun console => { console with output := console.output ++ line ++ "\n" }

/-- Writes a line of the diagnostics. -/
def tell (line : String) : Program m Unit :=
  modify fun console => { console with diagnostics := console.diagnostics ++ line ++ "\n" }

/-- Reaches the host. -/
def reach {α : Type} (action : m α) : Program m α :=
  (liftM (n := StateT Console m) action : StateT Console m α)

/-- The value of a step that may fail. -/
def orStop {α ε : Type} (wrap : ε → WorkFault) : Except ε α → Program m α
  | .ok value => pure value
  | .error fault => throw (.fault (wrap fault))

end Program

open Program

variable (host : Host m)

/-- Says what a record says, if it is let through. -/
def logRecord (record : LogRecord) : Program m Unit := do
  match (← get).threshold with
  | none => if LogLevel.warning.rank ≤ record.level.rank then tell record.message
  | some rank =>
    if rank ≤ record.level.rank then
      let text := record.text (← reach host.time)
      tell text
      match (← get).logFile with
      | none => return
      -- The log file could be opened, and a log that cannot be kept does not end the run.
      | some path => let _ ← reach (host.append path (text ++ "\n"))

/-- Says what records say, in their order. -/
def log (records : List LogRecord) : Program m Unit :=
  records.forM (logRecord host)

/-- Opens the log at the named threshold; a log file is created, and kept if it is there already. -/
def openLog (level : String) (file : Option String) : Program m Unit := do
  let rank ← orStop .threshold (thresholdRank level)
  modify fun console => { console with threshold := some rank }
  match file.filter (!·.isEmpty) with
  | none => return
  | some file =>
    let path := FilePath.ofText file
    orStop .file (← reach (openForAppending host.toFileAccess path))
    modify fun console => { console with logFile := some path }

/-- A document that was read: the model of its source file, and the place of that file when it was
read from there. -/
structure LoadedUnit where
  unit : SourceUnit
  file : Option FilePath

/-- Reads one document. -/
def loadProgramUnit (path : FilePath) : Program m LoadedUnit := do
  let document ← orStop .document (← reach (loadDocument host.toFileAccess path))
  let unit ← orStop .document
    (← reach (unitOfDocument host.toFileAccess path.parent document))
  log host [unit.readRecord,
    { level := .debug, source := .commandLine
      message := "loaded " ++ unit.path ++ " from " ++ path.text }]
  let file :=
    match document.get "source" with
    | .null => some (sourceFile path.parent unit.path)
    | _ => none
  return { unit, file }

/-- Reads the documents that one root stands for. -/
def loadRoot (root : String) : Program m (List LoadedUnit) := do
  let paths ← orStop .file
    (← reach (documentsBelow host.toFileAccess documentSuffixes (.ofText root)))
  paths.mapM (loadProgramUnit host)

/-- Reads all documents, root after root; there must be one. -/
def loadProgramUnits (roots : List String) : Program m (List LoadedUnit) := do
  let units := (← roots.mapM (loadRoot host)).flatten
  if units.isEmpty then
    throw (.fault (.document (.tree (.malformed none (.noDocuments roots)))))
  return units

/-- The report as a text. -/
def reportPayload (report : Report) : ReportFormat → String
  | .json => report.toJson.pretty
  | .text => report.findingLines

/-- Writes the report: the table, and the findings to a file or after the table. -/
def writeReport (options : Options) (report : Report) : Program m Unit := do
  print (report.summaryTable 5)
  let payload := reportPayload report options.format
  match options.output.filter (!·.isEmpty) with
  | some output =>
    orStop .file (← reach (writeText host.toFileAccess (.ofText output) (payload ++ "\n")))
    print ("\nReport written to " ++ output)
  | none =>
    if !payload.isEmpty then
      print (match options.format with
        | .json => "\nJSON Report"
        | .text => "\nFindings")
      print payload

/-- Applies the patches of one file, and answers whether it was changed.  A source that stands in
its document has no file. -/
def applyFileFixes (loaded : LoadedUnit) (result : FileResult) : Program m Bool := do
  if result.patches.isEmpty then return false
  match loaded.file with
  | none =>
    log host [{
      level := .warning
      source := .commandLine
      message := loaded.unit.path ++ ": source is embedded in the document, patches not applied" }]
    return false
  | some file =>
    let text ← orStop .patches (applyPatches loaded.unit.text result.patches)
    orStop .file (← reach (writeText host.toFileAccess file text))
    log host [{
      level := .info
      source := .commandLine
      message := file.text ++ ": applied " ++ toString result.patches.length ++ " patches" }]
    return true

/-- Applies the patches of all files, and says how many were changed. -/
def applyFixes (units : List LoadedUnit) (results : List FileResult) : Program m Unit := do
  let changed ← (units.zip results).mapM fun (loaded, result) =>
    applyFileFixes host loaded result
  print ("\nPatched " ++ toString (changed.filter id).length ++ " file(s)")

/-- The analysis of all files.  The files do not depend on each other, so the number of jobs, which
must have been given its value, does not change the results. -/
def analyzeUnits (settings : Settings) (jobs : Option Int) (units : List LoadedUnit) :
    Program m (List FileResult) := do
  if jobs.isNone then throw (.fault .missingJobs)
  let (results, records) := analyzeMany (units.map fun loaded => { unit := loaded.unit, settings })
  log host records
  orStop .run results

/-- The settings of a run, with the exclusions that the options add. -/
def settingsFor (options : Options) : Program m Settings := do
  let (settings, records) ← reach (loadSettings host.toFileAccess options.config)
  log host records
  let settings ← orStop .settings settings
  match options.exclude.mapM id with
  | some exclusions => return settings.withExclusions (splitRuleIds exclusions)
  | none => throw (.fault .missingExclusion)

/-- A run for the given options: its exit code. -/
def runOptions (options : Options) : Program m Nat := do
  let settings ← settingsFor host options
  openLog host (options.logLevel.getD (Text.upper settings.logLevel)) options.logFile
  if options.listRules then
    print packagedRegistry.table
    return 0
  if options.documents.isEmpty then throw (.usage .noDocuments)
  let units ← loadProgramUnits host options.documents
  let results ← analyzeUnits host settings options.jobs units
  let report : Report := ⟨results⟩
  writeReport host options report
  if options.apply then applyFixes host units results
  return report.exitCode

/-- How the program is used, as lines. -/
def usageLines : List String :=
  ["usage: gostyle [-h] [--config CONFIG] [--exclude RULE_ID]",
   "               [--format \x7btext,json\x7d] [--out OUTPUT_PATH] [--jobs JOBS]",
   "               [--apply] [--list-rules]",
   "               [--log-level \x7bDEBUG,INFO,WARNING,ERROR,CRITICAL\x7d]",
   "               [--log-file LOG_FILE]",
   "               [DOCUMENT ...]"]

/-- What is printed when help is asked for, as lines. -/
def helpLines : List String :=
  usageLines ++
  ["",
   "Style-conformance analysis for Go parse-tree documents",
   "",
   "positional arguments:",
   "  DOCUMENT              Tree document (.ast.json/.ast.yaml) or directory",
   "                        containing them.",
   "",
   "options:",
   "  -h, --help            show this help message and exit",
   "  --config CONFIG, -c CONFIG",
   "                        Path to a settings file (defaults to .gostyle.yaml",
   "                        when present).",
   "  --exclude RULE_ID, -x RULE_ID",
   "                        Rule id to suppress for this run (repeatable, comma",
   "                        lists accepted).",
   "  --format \x7btext,json\x7d  Report format (defaults to text).",
   "  --out OUTPUT_PATH, --output OUTPUT_PATH",
   "                        Path to write the report (e.g., artifacts/style.json).",
   "  --jobs JOBS, -j JOBS  Number of files analysed in parallel.",
   "  --apply               Write patched sources back to the files named in the",
   "                        documents.",
   "  --list-rules          Print the rule catalog and exit.",
   "  --log-level \x7bDEBUG,INFO,WARNING,ERROR,CRITICAL\x7d",
   "                        Diagnostic log level (overrides the settings file).",
   "  --log-file LOG_FILE   Also write diagnostics to this file."]

/-- A run for the given arguments: its exit code. -/
def runArguments (arguments : List String) : Program m Nat := do
  match Options.parse arguments with
  | .error fault => throw (.usage fault)
  | .ok .help =>
    helpLines.forM print
    throw .help
  | .ok (.run options) => runOptions host options

/-- The message with which a run stops, if it has one. -/
def Stop.message? : Stop → Option String
  | .help => none
  | .usage cause => some (programName ++ ": error: " ++ cause.message)
  | .fault cause => cause.message?.map (programName ++ ": " ++ ·)

/-- What the diagnostics say at the end of a run that stops, as lines. -/
def Stop.lines (stop : Stop) : List String :=
  match stop with
  | .usage _ => usageLines ++ stop.message?.toList
  | _ => stop.message?.toList

/-- A whole run: how it ended, and what it has written. -/
def execute (arguments : List String) : m (Except Stop Nat × Console) := do
  let (ending, console) ← (runArguments host arguments).run.run {}
  let last :=
    match ending with
    | .ok _ => []
    | .error stop => stop.lines
  return (ending, { console with
    diagnostics := console.diagnostics ++ String.join (last.map (· ++ "\n")) })

end Program

/-- The exit code when the input cannot be used. -/
def unusableInputCode : Nat := 3

/-- The exit code of a run that stops. -/
def Stop.exitCode : Stop → Nat
  | .help => 0
  | .usage _ => 2
  | .fault cause => if cause.message?.isSome then unusableInputCode else 1

end GoConventions
