import GoConventions.Json.WholeNumber
import GoConventions.Log
import GoConventions.Settings.Basic

/-!
# Reading settings

Settings are the members of an object, each under its key.  A member replaces the default of its
key; a key that is not known is remarked upon and passed over.  A value of the wrong kind is a
fault, and the first one met is reported; what was remarked before it stands.

A single text may stand for a list of one.  Items of a list are taken by their text.  Identifiers of
excluded rules are put in upper case.
-/

namespace GoConventions

/-- Why settings are refused. -/
inductive SettingsFault where
  | unreadable (path reason : String)
  | invalid (path reason : String)
  | notObject (path : String)
  | notBoolean (key : String)
  | notPositive (key : String)
  | notText (key : String)
  | notList (key : String)
  | unknownExemptions (names : List String)
  | noBands
  | bandNotObject
  | bandNumber (band : String) (fault : WholeNumberFault)
  | bandInverted (band : String)
  /-- A number of a band is infinite. -/
  | infiniteNumber
  /-- A numeral of the text has too many digits. -/
  | longNumeral (digits : Nat)
  /-- The lists and objects of the text lie too deep inside each other. -/
  | tooDeep
  /-- The path of the file holds a null character. -/
  | nullCharacter
  deriving DecidableEq, Repr

def SettingsFault.message : SettingsFault → String
  | .unreadable path reason => "cannot read configuration " ++ path ++ ": " ++ reason
  | .invalid path reason => "invalid YAML in " ++ path ++ ": " ++ reason
  | .notObject path => "configuration " ++ path ++ " must be a mapping"
  | .notBoolean key => key ++ " must be a boolean"
  | .notPositive key => key ++ " must be a positive integer"
  | .notText key => key ++ " must be a string"
  | .notList key => key ++ " must be a list"
  | .unknownExemptions names => "unknown doc_exemptions: " ++ ", ".intercalate names
  | .noBands => "scope_bands must be a non-empty list"
  | .bandNotObject => "each scope band must be a mapping"
  | .bandNumber band fault => "invalid scope band " ++ band ++ ": " ++ fault.message
  | .bandInverted band => "scope band " ++ band ++ " has min_tokens above max_tokens"
  | .infiniteNumber => WholeNumberFault.message .infinite
  | .longNumeral digits => WholeNumberFault.message (.tooLong digits)
  | .tooDeep => "the text is nested too deep"
  | .nullCharacter => "a path holds a null character"

namespace Settings

/-- A step of the reader of settings. -/
abbrev Step := Except SettingsFault

def boolean (key : String) : Json → Step Bool
  | .bool b => .ok b
  | _ => .error (.notBoolean key)

def positive (key : String) : Json → Step Int
  | .int n => if n ≤ 0 then .error (.notPositive key) else .ok n
  | _ => .error (.notPositive key)

def text (key : String) : Json → Step String
  | .str s => .ok s
  | _ => .error (.notText key)

/-- The texts of a list, or of a single text. -/
def texts (key : String) : Json → Step (List String)
  | .str s => .ok [s]
  | .arr items => .ok (items.map Json.text)
  | _ => .error (.notList key)

/-- A number of a band. -/
def bandNumber (band : Members) (value : Json) : Step Int :=
  match value.wholeNumber with
  | .ok n => .ok n
  | .error .infinite => .error .infiniteNumber
  | .error fault => .error (.bandNumber (Json.obj band).shown fault)

/-- A number of a band, or the given one when the band does not state it. -/
def bandNumberOr (band : Members) (key : String) (default : Int) : Step Int :=
  match band.lookup key with
  | none => .ok default
  | some value => bandNumber band value

/-- A scope band. -/
def scopeBand (value : Json) : Step ScopeBand := do
  match value with
  | .obj band => do
    let band : Members := band
    let maxLines ←
      match band.get "max_lines" with
      | .null => pure none
      | value => some <$> bandNumber band value
    let minWords ← bandNumberOr band "min_tokens" 1
    let maxWords ← bandNumberOr band "max_tokens" 4
    if maxWords < minWords then throw (.bandInverted value.shown)
    return ⟨maxLines, minWords, maxWords, !(band.get "single_letter").isVacant⟩
  | _ => throw .bandNotObject

/-- The scope bands, at least one. -/
def scopeBandsOf : Json → Step (List ScopeBand)
  | .arr [] => .error .noBands
  | .arr items => items.mapM scopeBand
  | _ => .error .noBands

/-- The documentation exemptions, all of them known. -/
def exemptions (value : Json) : Step (List String) := do
  let names ← texts "doc_exemptions" value
  match (distinct names).filter fun name => !docExemptionNames.contains name with
  | [] => return distinct names
  | unknown => throw (.unknownExemptions unknown)

/-- The settings with the value of one key replaced; none when the key is not known. -/
def assign? (s : Settings) (key : String) (value : Json) : Option (Step Settings) :=
  let limit (set : Int → Settings) : Option (Step Settings) := some (set <$> positive key value)
  let names (set : List String → Settings) : Option (Step Settings) :=
    some ((set ∘ distinct) <$> texts key value)
  match key with
  | "exclude" =>
    some ((fun ids => { s with exclude := distinct (ids.map Text.upper) }) <$> texts key value)
  | "max_line_length" => limit fun n => { s with maxLineLength := n }
  | "max_comment_line_length" => limit fun n => { s with maxCommentLineLength := n }
  | "max_function_lines" => limit fun n => { s with maxFunctionLines := n }
  | "max_parameters" => limit fun n => { s with maxParameters := n }
  | "max_nesting_depth" => limit fun n => { s with maxNestingDepth := n }
  | "scope_bands" => some ((fun bands => { s with scopeBands := bands }) <$> scopeBandsOf value)
  | "short_name_allowlist" => names fun xs => { s with shortNameAllowlist := xs }
  | "proper_nouns" => names fun xs => { s with properNouns := xs }
  | "discard_markers" => some ((fun xs => { s with discardMarkers := xs }) <$> texts key value)
  | "generic_package_names" => names fun xs => { s with genericPackageNames := xs }
  | "extra_stdlib" => names fun xs => { s with extraStdlib := xs }
  | "generated_suffixes" =>
    some ((fun xs => { s with generatedSuffixes := xs }) <$> texts key value)
  | "side_effect_roots" => names fun xs => { s with sideEffectRoots := xs }
  | "require_package_comment" =>
    some ((fun b => { s with requirePackageComment := b }) <$> boolean key value)
  | "doc_exemptions" => some ((fun xs => { s with docExemptions := xs }) <$> exemptions value)
  | "log_level" => some ((fun level => { s with logLevel := level }) <$> text key value)
  | _ => none

/-- What is said about a key that is not known. -/
def unknownKeyRecord (key : String) : LogRecord where
  level := .warning
  source := .settings
  message := "ignoring unknown configuration key: " ++ key

/-- The settings with the given members replaced, one after the other, and what is said about keys
that are not known, up to the first fault. -/
def assignAll (s : Settings) : Members → Step Settings × List LogRecord
  | [] => (.ok s, [])
  | (key, value) :: members =>
    match assign? s key value with
    | some (.ok s) => assignAll s members
    | some (.error fault) => (.error fault, [])
    | none =>
      let (result, log) := assignAll s members
      (result, unknownKeyRecord key :: log)

/-- The settings that the members of an object give, and what is said about them. -/
def ofMembers (members : Members) : Step Settings × List LogRecord :=
  assignAll {} members

end Settings

end GoConventions
