import GoConventions.Order.Sorting
import GoConventions.Text.Case

/-!
# Settings

What can be tuned in a run.  Every threshold here belongs to an advisory rule.  Collections of names
whose order means nothing are kept in ascending order without repetition (`distinct`), so that two
settings with the same members are equal; markers and suffixes keep the order in which they were
given.

The expected length of a local name depends on the length of its scope: a *scope band* says how many
words a name should have in a scope of up to so many lines.  The first band that covers a scope
counts, and the last one stands for all longer scopes.
-/

namespace GoConventions

structure ScopeBand where
  maxLines : Option Int
  minWords : Int
  maxWords : Int
  singleLetter : Bool
  deriving DecidableEq, Repr

/-- Whether a band is for scopes of this many lines. -/
def ScopeBand.covers (band : ScopeBand) (lines : Int) : Bool :=
  match band.maxLines with
  | none => true
  | some most => lines ≤ most

def defaultBands : List ScopeBand :=
  [⟨some 7, 1, 2, true⟩, ⟨some 15, 1, 3, false⟩, ⟨some 25, 1, 3, false⟩, ⟨none, 1, 4, false⟩]

/-- The relaxations of the documentation rules that can be asked for. -/
def docExemptionNames : List String :=
  ["group-comment", "test-files", "unexported-receivers"]

structure Settings where
  exclude : List String := []
  maxLineLength : Int := 100
  maxCommentLineLength : Int := 80
  maxFunctionLines : Int := 60
  maxParameters : Int := 5
  maxNestingDepth : Int := 4
  scopeBands : List ScopeBand := defaultBands
  shortNameAllowlist : List String := ["_"]
  properNouns : List String :=
    ["AWS", "Docker", "GitHub", "Go", "Google", "Kubernetes", "Linux", "Unix", "Windows", "macOS"]
  discardMarkers : List String :=
    ["nolint:errcheck", "ignore error", "ignored", "intentionally", "best effort", "best-effort"]
  genericPackageNames : List String :=
    ["base", "common", "helper", "helpers", "interfaces", "lib", "misc", "shared", "types", "util",
     "utils"]
  extraStdlib : List String := []
  generatedSuffixes : List String := ["_go_proto", "_proto", "pb", "_grpc"]
  sideEffectRoots : List String := ["main"]
  requirePackageComment : Bool := true
  docExemptions : List String := []
  logLevel : String := "WARNING"
  deriving DecidableEq, Repr

namespace Settings

variable (settings : Settings)

/-- The settings with further rules excluded. -/
def withExclusions (ids : List String) : Settings :=
  if ids.isEmpty then settings
  else { settings with exclude := distinct (settings.exclude ++ ids.map Text.upper) }

/-- The band for a scope of this many lines: the first that covers them, or else the last one. -/
def bandFor? (lines : Int) : Option ScopeBand :=
  (settings.scopeBands.find? (·.covers lines)).or settings.scopeBands.getLast?

/-- The band for a scope of this many lines, in settings that have one, as all settings have that
have been read.  The check of names asks for `bandFor?`, and fails where there is none. -/
def bandFor (lines : Int) : ScopeBand :=
  (settings.bandFor? lines).getD ⟨none, 1, 4, false⟩

end Settings

end GoConventions
