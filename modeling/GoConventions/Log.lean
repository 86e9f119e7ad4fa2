/-!
# Diagnostics

What the program says about its own work, as data: each record has a level, the part of the program
it comes from, and a message.  Functions that have something to say answer their records beside
their result, in order; which of them are shown is decided by a threshold at the very end.
-/

namespace GoConventions

inductive LogLevel where
  | debug | info | warning | error | critical
  deriving DecidableEq, Repr

namespace LogLevel

def label : LogLevel → String
  | .debug => "DEBUG"
  | .info => "INFO"
  | .warning => "WARNING"
  | .error => "ERROR"
  | .critical => "CRITICAL"

def rank : LogLevel → Nat
  | .debug => 10
  | .info => 20
  | .warning => 30
  | .error => 40
  | .critical => 50

end LogLevel

/-- Why a name sets no threshold: it stands for something else that belongs to a log. -/
inductive ThresholdFault where
  /-- The name stands for a text: the layout of records. -/
  | layout
  /-- The name stands for a table: the styles of layouts. -/
  | styles
  deriving DecidableEq, Repr

/-- The least rank that a named threshold lets through; a name that is not known lets warnings
through. -/
def thresholdRank (name : String) : Except ThresholdFault Nat :=
  match name with
  | "NOTSET" => .ok 0
  | "DEBUG" => .ok 10
  | "INFO" => .ok 20
  | "WARNING" => .ok 30
  | "WARN" => .ok 30
  | "ERROR" => .ok 40
  | "CRITICAL" => .ok 50
  | "FATAL" => .ok 50
  | "BASIC_FORMAT" => .error .layout
  | "_STYLES" => .error .styles
  | _ => .ok 30

/-- The parts of the program that keep a log. -/
inductive LogSource where
  | reading | settings | registry | fixes | aggregation | analysis | commandLine
  deriving DecidableEq, Repr

def LogSource.label : LogSource → String
  | .reading => "gostyle.adapter"
  | .settings => "gostyle.config"
  | .registry => "gostyle.registry"
  | .fixes => "gostyle.fixes"
  | .aggregation => "gostyle.aggregator"
  | .analysis => "gostyle.engine"
  | .commandLine => "gostyle.cli"

structure LogRecord where
  level : LogLevel
  source : LogSource
  message : String
  /-- The failure that the record reports, described below its line. -/
  failure : Option String := none
  deriving DecidableEq, Repr

/-- A log record as a line, after the time at which it was made. -/
def LogRecord.line (time : String) (record : LogRecord) : String :=
  time ++ " - " ++ record.source.label ++ " - " ++ record.level.label ++ " - " ++ record.message

/-- A log record as it is written: its line, and the failure that it reports. -/
def LogRecord.text (time : String) (record : LogRecord) : String :=
  "\n".intercalate (record.line time :: record.failure.toList)

/-- The records that a threshold lets through. -/
def logAbove (rank : Nat) (records : List LogRecord) : List LogRecord :=
  records.filter fun record => rank ≤ record.level.rank

end GoConventions
