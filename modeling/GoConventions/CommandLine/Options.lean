import GoConventions.Text.Digits
import GoConventions.Text.Quoted
import GoConventions.Text.Search
import GoConventions.Text.Slice

/-!
# The options of the command line

An argument is an option when it starts with a dash and is the spelling of one, an unambiguous
beginning of a long spelling, or a short spelling with its value attached.  A negative number and a
text with a blank are no options; anything else with a dash is an unknown one.  After a double dash
there are no more options.

The documents are the first run of arguments that no option takes; what stands in later runs is not
recognized.  An option that needs a value takes the next argument, unless its value is attached.  A
double dash that is attached stands for no value: most options then fall back to their default, but
an exclusion without a value, and a number of jobs without one, are missed where they are used.

## Main definitions

* `OptionName`, `Options`, `UsageFault`.
* `Token.ofArguments`: the arguments, told apart.
* `Options.parse`: the options that the arguments ask for.
-/

namespace GoConventions

inductive OptionName where
  | help | config | exclude | format | output | jobs | apply | listRules | logLevel | logFile
  deriving DecidableEq, Repr

inductive ReportFormat where
  | text | json
  deriving DecidableEq, Repr

namespace OptionName

/-- The spellings of all options. -/
def spellings : List (String × OptionName) :=
  [("-h", .help), ("--help", .help), ("--config", .config), ("-c", .config),
   ("--exclude", .exclude), ("-x", .exclude), ("--format", .format), ("--out", .output),
   ("--output", .output), ("--jobs", .jobs), ("-j", .jobs), ("--apply", .apply),
   ("--list-rules", .listRules), ("--log-level", .logLevel), ("--log-file", .logFile)]

/-- An option as messages name it: by all of its spellings. -/
def shown (name : OptionName) : String :=
  "/".intercalate ((spellings.filter fun entry => entry.2 == name).map (·.1))

/-- Whether an option needs a value. -/
def takesValue : OptionName → Bool
  | .help => false
  | .apply => false
  | .listRules => false
  | _ => true

end OptionName

structure Options where
  documents : List String := []
  config : Option String := none
  /-- The exclusions, in their order; one may lack its value. -/
  exclude : List (Option String) := []
  format : ReportFormat := .text
  output : Option String := none
  /-- The number of jobs, which may lack its value. -/
  jobs : Option Int := some 1
  apply : Bool := false
  listRules : Bool := false
  logLevel : Option String := none
  logFile : Option String := none
  deriving DecidableEq, Repr

/-- Why the arguments cannot be used. -/
inductive UsageFault where
  | ambiguous (given : String) (candidates : List String)
  | missingValue (name : OptionName)
  | unusedValue (name : OptionName) (value : String)
  | invalidChoice (name : OptionName) (value : String) (choices : List String)
  | invalidNumber (name : OptionName) (value : String)
  | unrecognized (arguments : List String)
  | noDocuments
  deriving DecidableEq, Repr

def UsageFault.message : UsageFault → String
  | .ambiguous given candidates =>
    "ambiguous option: " ++ given ++ " could match " ++ ", ".intercalate candidates
  | .missingValue name => "argument " ++ name.shown ++ ": expected one argument"
  | .unusedValue name value =>
    "argument " ++ name.shown ++ ": ignored explicit argument " ++ Text.quoted value
  | .invalidChoice name value choices =>
    "argument " ++ name.shown ++ ": invalid choice: " ++ Text.quoted value ++ " (choose from " ++
      ", ".intercalate (choices.map Text.quoted) ++ ")"
  | .invalidNumber name value =>
    "argument " ++ name.shown ++ ": invalid int value: " ++ Text.quoted value
  | .unrecognized arguments => "unrecognized arguments: " ++ " ".intercalate arguments
  | .noDocuments => "at least one DOCUMENT is required"

/-! ## Telling arguments apart -/

/-- A value attached to an option: after an equals sign, or directly after a short spelling. -/
inductive Attached where
  | none
  | afterEquals (value : String)
  | direct (value : String)
  deriving DecidableEq, Repr

/-- The value that is attached. -/
def Attached.value? : Attached → Option String
  | .none => Option.none
  | .afterEquals value => some value
  | .direct value => some value

inductive Token where
  | argument (text : String)
  /-- The double dash, after which there are no options. -/
  | separator
  | option (name : OptionName) (short : Bool) (attached : Attached)
  | unknownOption (text : String)
  deriving DecidableEq, Repr

/-- Whether the characters are digits, with at most one point, which digits follow. -/
def isUnsignedNumber (s : List Char) : Bool :=
  let isDigit (c : Char) : Bool := (Text.digitValue? c).isSome
  let s := if s.getLast? == some '\n' then s.dropLast else s
  match s.dropWhile isDigit with
  | [] => !s.isEmpty
  | '.' :: r => !r.isEmpty && r.all isDigit
  | _ => false

/-- Whether a text is a negative number. -/
def isNegativeNumber (s : String) : Bool :=
  match s.toList with
  | '-' :: r => isUnsignedNumber r
  | _ => false

/-- A spelling with what an equals sign attaches to it. -/
def splitEquals (s : String) : String × Attached :=
  if Text.hasChar '=' s then
    let given := Text.firstPart '=' s
    (given, .afterEquals (Text.dropFirst (given.toList.length + 1) s))
  else (s, .none)

/-- Whether a spelling has a single dash. -/
def isShort (spelling : String) : Bool :=
  !Text.startsWith spelling "--"

/-- The options that an argument which is no spelling may stand for: an option with a long spelling
that starts with it, or a short spelling that it starts with. -/
def candidateOptions (s : String) : List (String × Token) :=
  if isShort s then
    let spelling := String.ofList (s.toList.take 2)
    (OptionName.spellings.filter fun entry => entry.1 == spelling).map fun entry =>
      (entry.1, .option entry.2 true (.direct (Text.dropFirst 2 s)))
  else
    let (given, attached) := splitEquals s
    (OptionName.spellings.filter fun entry => Text.startsWith entry.1 given).map fun entry =>
      (entry.1, .option entry.2 false attached)

/-- What an argument is, as long as options may occur. -/
def Token.ofArgument (s : String) : Except UsageFault Token :=
  if !Text.startsWith s "-" || s == "-" then .ok (.argument s)
  else
    match OptionName.spellings.lookup s with
    | some name => .ok (.option name (isShort s) .none)
    | none =>
      -- A full spelling before an equals sign is not ambiguous, even if it begins another one.
      let (given, attached) := splitEquals s
      match (if attached == .none then none else OptionName.spellings.lookup given) with
      | some name => .ok (.option name (isShort given) attached)
      | none =>
        match candidateOptions s with
        | [candidate] => .ok candidate.2
        | [] =>
          -- No option begins like this; numbers and texts with blanks are taken for arguments.
          if isNegativeNumber s || Text.hasChar ' ' s then .ok (.argument s)
          else .ok (.unknownOption s)
        | candidates => .error (.ambiguous s (candidates.map (·.1)))

/-- The arguments, told apart. -/
def Token.ofArguments : List String → Except UsageFault (List Token)
  | [] => .ok []
  | s :: rest =>
    if s == "--" then .ok (.separator :: rest.map .argument)
    else do
      let token ← Token.ofArgument s
      return token :: (← Token.ofArguments rest)

/-! ## Taking options -/

/-- What the arguments ask for: a run with these options, or the help text. -/
inductive Invocation where
  | help
  | run (options : Options)
  deriving DecidableEq, Repr

def logLevelChoices : List String :=
  ["DEBUG", "INFO", "WARNING", "ERROR", "CRITICAL"]

/-- The format that a value names. -/
def ReportFormat.ofText : String → Except UsageFault ReportFormat
  | "text" => .ok .text
  | "json" => .ok .json
  | value => .error (.invalidChoice .format value ["text", "json"])

/-- The number of jobs that a value denotes. -/
def jobsOf (value : String) : Except UsageFault Int :=
  match Text.integer value with
  | .ok n => .ok n
  | .error _ => .error (.invalidNumber .jobs value)

/-- The level that a value names. -/
def logLevelOf (value : String) : Except UsageFault String :=
  if logLevelChoices.contains value then .ok value
  else .error (.invalidChoice .logLevel value logLevelChoices)

/-- The options with the value of one that needs one, or with none for it. -/
def Options.withValue (options : Options) (name : OptionName) (value : Option String) :
    Except UsageFault Options :=
  match name with
  | .config => .ok { options with config := value }
  | .exclude => .ok { options with exclude := options.exclude ++ [value] }
  | .format => do
    let format ← value.mapM ReportFormat.ofText
    return { options with format := format.getD .text }
  | .output => .ok { options with output := value }
  | .jobs => do
    let jobs ← value.mapM jobsOf
    return { options with jobs }
  | .logLevel => do
    let logLevel ← value.mapM logLevelOf
    return { options with logLevel }
  | .logFile => .ok { options with logFile := value }
  | _ => .ok options

/-- A value attached to an option; a double dash is none. -/
def attachedValue (value : String) : Option String :=
  if value == "--" then none else some value

/-- The options with a flag set. -/
def Options.withFlag (options : Options) : OptionName → Options
  | .apply => { options with apply := true }
  | .listRules => { options with listRules := true }
  | _ => options

/-- How far the arguments have been taken. -/
structure ParseState where
  options : Options := {}
  documentsTaken : Bool := false
  unrecognized : List String := []

/-- The arguments at the front that no option takes, and the tokens after them. -/
def leadingRun : List Token → List String × List Token
  | .argument s :: rest => let (run, rest) := leadingRun rest; (s :: run, rest)
  | .separator :: rest => let (run, rest) := leadingRun rest; ("--" :: run, rest)
  | rest => ([], rest)

/-- What follows a run is no longer than the tokens. -/
theorem length_leadingRun_le (tokens : List Token) :
    (leadingRun tokens).2.length ≤ tokens.length := by
  induction tokens with
  | nil => simp [leadingRun]
  | cons token tokens ih => cases token <;> simp [leadingRun] <;> omega

/-- Takes a run of arguments: the first one are the documents. -/
def ParseState.takeRun (state : ParseState) (run : List String) : ParseState :=
  if state.documentsTaken then { state with unrecognized := state.unrecognized ++ run }
  else
    { state with
      documentsTaken := true
      options := { state.options with documents := run.erase "--" } }

/-- Checks the short options that share a dash with a flag, when help has been asked for: `rest` are
the characters attached to the flag, `next` is the token after the argument. -/
def checkBundle (flag : OptionName) (next : Option Token) : List Char → Except UsageFault Unit
  | [] => .ok ()
  | c :: rest =>
    match OptionName.spellings.lookup (String.ofList ['-', c]) with
    | none => .error (.unusedValue flag (String.ofList (c :: rest)))
    | some name =>
      if name.takesValue then
        match rest, next with
        | [], some (.argument _) => .ok ()
        | [], _ => .error (.missingValue name)
        | _, _ => .ok ()
      else checkBundle name next rest

/-- Takes the tokens; none when help is asked for. -/
def takeTokens (state : ParseState) : List Token → Except UsageFault (Option ParseState)
  | [] => .ok (some state)
  | .argument s :: rest =>
    takeTokens (state.takeRun (s :: (leadingRun rest).1)) (leadingRun rest).2
  | .separator :: rest =>
    takeTokens (state.takeRun ("--" :: (leadingRun rest).1)) (leadingRun rest).2
  | .unknownOption s :: rest =>
    takeTokens { state with unrecognized := state.unrecognized ++ [s] } rest
  | .option name short attached :: rest =>
    if name.takesValue then
      match attached.value?, rest with
      | some value, rest => do
        let options ← state.options.withValue name (attachedValue value)
        takeTokens { state with options } rest
      | none, .argument value :: rest => do
        let options ← state.options.withValue name (some value)
        takeTokens { state with options } rest
      | none, _ => .error (.missingValue name)
    else
      match attached.value? with
      | none =>
        if name == .help then .ok none
        else takeTokens { state with options := state.options.withFlag name } rest
      | some value => do
        if short && !value.isEmpty then
          checkBundle name rest.head? value.toList
          return none
        else throw (.unusedValue name value)
termination_by tokens => tokens.length
decreasing_by
  all_goals simp only [List.length_cons]
  -- A run is left behind as a whole; every other step leaves one or two tokens behind.
  all_goals first
    | exact Nat.lt_succ_of_le (length_leadingRun_le _)
    | omega

/-- What the arguments ask for. -/
def Options.parse (arguments : List String) : Except UsageFault Invocation := do
  let tokens ← Token.ofArguments arguments
  match ← takeTokens {} tokens with
  | none => return .help
  | some state =>
    match state.unrecognized with
    | [] => return .run state.options
    | unrecognized => throw (.unrecognized unrecognized)

example : (Options.parse ["a", "-xERR001", "--jobs=2"]).toOption =
    some (.run { documents := ["a"], exclude := [some "ERR001"], jobs := some 2 }) := by
  decide +kernel
example : (Options.parse ["--format", "json", "--", "-x"]).toOption =
    some (.run { documents := ["-x"], format := .json }) := by decide +kernel

end GoConventions
