import GoConventions.Rule.Basic

/-!
# The packaged rules

The rules that are checked when no other catalog is given.  Identifiers are stable, because they are
used for suppression and in reports: an identifier is retired rather than used again.
-/

namespace GoConventions

/-- The packaged rules, category by category. -/
def packagedRules : List Rule :=
  [{ id := "NAM001", name := "mixed-caps", category := .naming,
     severity := .warning, fix := some .rename,
     summary := "Multi-word names use MixedCaps or mixedCaps, never underscores.",
     guidance := "Rename the identifier using MixedCaps; exported names keep a leading capital." },
   { id := "NAM002", name := "package-stutter", category := .naming,
     severity := .suggestion, fix := none,
     summary := "Exported names do not repeat the package name as a leading or trailing word.",
     guidance := "Callers already qualify the name with the package; drop the redundant word." },
   { id := "NAM003", name := "receiver-consistency", category := .naming,
     severity := .warning, fix := none,
     summary := "Every method of a type uses the same receiver name.",
     guidance := "Pick one short receiver name for the type and use it in every method." },
   { id := "NAM004", name := "generic-receiver", category := .naming,
     severity := .suggestion, fix := none,
     summary := "Receivers are not named self, this or me.",
     guidance := "Use a one or two letter abbreviation of the type name as the receiver." },
   { id := "NAM005", name := "scope-proportional-length", category := .naming,
     severity := .suggestion, fix := none,
     summary := "Local name length is proportional to the size of its scope.",
     guidance :=
       "Short scopes favour short names; names that live across long scopes need more words." },
   { id := "NAM006", name := "initialism-case", category := .naming,
     severity := .warning, fix := some .rename,
     summary := "Initialisms keep a consistent case (URL or url, never Url).",
     guidance :=
       "Write the initialism in all capitals, or all lowercase when it starts an " ++
         "unexported name." },
   { id := "NAM007", name := "getter-prefix", category := .naming,
     severity := .suggestion, fix := some .rename,
     summary := "Getters are not prefixed with Get.",
     guidance := "Name the accessor after the value it returns." },
   { id := "NAM008", name := "package-name", category := .naming,
     severity := .warning, fix := none,
     summary := "Package names are short, lowercase, single words and not generic.",
     guidance :=
       "Name the package after what it provides; avoid util, common and similar catch-alls." },
   { id := "ERR001", name := "error-last", category := .errorHandling,
     severity := .error, fix := none,
     summary := "An error result is the last result of a function.",
     guidance := "Move the error to the final result position." },
   { id := "ERR002", name := "discarded-error", category := .errorHandling,
     severity := .warning, fix := none,
     summary := "Returned errors are handled, not discarded.",
     guidance :=
       "Handle the error, or annotate the discard with a comment explaining why it is safe." },
   { id := "ERR003", name := "error-string", category := .errorHandling,
     severity := .warning, fix := some .replace,
     summary := "Error strings start lowercase and carry no trailing punctuation.",
     guidance := "Error strings are usually composed into longer messages." },
   { id := "ERR004", name := "redundant-wrap-context", category := .errorHandling,
     severity := .suggestion, fix := none,
     summary := "Context added when wrapping repeats information already in the wrapped error.",
     guidance := "Add only context the underlying error does not already carry." },
   { id := "ERR005", name := "sentinel-error-name", category := .errorHandling,
     severity := .warning, fix := some .rename,
     summary := "Package-level sentinel errors are named ErrXxx or errXxx.",
     guidance := "Prefix sentinel error variables with Err (exported) or err (unexported)." },
   { id := "ERR006", name := "library-panic", category := .errorHandling,
     severity := .suggestion, fix := none,
     summary := "Library packages return errors instead of panicking.",
     guidance := "Return an error to the caller; reserve panic for impossible states." },
   { id := "IMP001", name := "import-grouping", category := .imports,
     severity := .warning, fix := some .reorderImports,
     summary :=
       "Imports are grouped as standard library, third party, generated protocol, side effect.",
     guidance := "Keep one category per blank-line separated group, in canonical order." },
   { id := "IMP002", name := "dot-import", category := .imports,
     severity := .error, fix := none,
     summary := "Dot imports are not used.",
     guidance := "Import the package by name and qualify its identifiers." },
   { id := "IMP003", name := "side-effect-import", category := .imports,
     severity := .warning, fix := none,
     summary := "Side-effect-only imports appear only in main packages and tests.",
     guidance := "Move the blank import to the program's main package or to a test." },
   { id := "IMP004", name := "redundant-import-alias", category := .imports,
     severity := .suggestion, fix := some .replace,
     summary := "Import aliases differ from the package's own name.",
     guidance := "Remove the alias; it repeats the default package name." },
   { id := "IMP005", name := "generated-protocol-alias", category := .imports,
     severity := .suggestion, fix := none,
     summary := "Generated protocol packages are imported with a pb-suffixed alias.",
     guidance := "Rename the import with a short alias ending in pb, for example foopb." },
   { id := "DOC001", name := "exported-doc", category := .documentation,
     severity := .warning, fix := none,
     summary := "Exported declarations have a doc comment starting with their name.",
     guidance := "Add a full-sentence comment that begins with the declared name." },
   { id := "DOC002", name := "package-comment", category := .documentation,
     severity := .warning, fix := none,
     summary := "A package has exactly one package comment.",
     guidance :=
       "Keep a single comment of the form \"Package name ...\" directly above the " ++
         "package clause." },
   { id := "DOC003", name := "doc-sentence", category := .documentation,
     severity := .suggestion, fix := some .replace,
     summary := "Doc comments are complete sentences ending with a period.",
     guidance := "End the comment with a period." },
   { id := "DOC004", name := "detached-doc", category := .documentation,
     severity := .suggestion, fix := some .replace,
     summary := "Doc comments sit directly above the declaration they document.",
     guidance := "Remove the blank line between the comment and the declaration." },
   { id := "ORG001", name := "long-function", category := .organization,
     severity := .suggestion, fix := none,
     summary := "Functions stay short enough to read in one screen.",
     guidance := "Extract cohesive steps into helper functions." },
   { id := "ORG002", name := "many-parameters", category := .organization,
     severity := .suggestion, fix := none,
     summary := "Functions take a small number of parameters.",
     guidance := "Group related parameters into an options struct." },
   { id := "ORG003", name := "deep-nesting", category := .organization,
     severity := .suggestion, fix := none,
     summary := "Control flow is not nested deeply.",
     guidance := "Return early and handle errors first to keep the happy path unindented." },
   { id := "ORG004", name := "mutable-global", category := .organization,
     severity := .warning, fix := none,
     summary := "Packages do not export mutable package-level variables.",
     guidance := "Unexport the variable and provide functions, or pass state explicitly." },
   { id := "ORG005", name := "init-function", category := .organization,
     severity := .suggestion, fix := none,
     summary := "init functions are avoided.",
     guidance := "Initialise state explicitly from the caller or with package-level expressions." },
   { id := "FMT001", name := "long-line", category := .formatting,
     severity := .suggestion, fix := none,
     summary := "Code lines stay within the configured length.",
     guidance := "The formatter does not wrap lines; split the expression at a natural boundary." },
   { id := "FMT002", name := "long-comment-line", category := .formatting,
     severity := .suggestion, fix := none,
     summary := "Comment lines stay within the configured length.",
     guidance := "Rewrap the comment text." },
   { id := "FMT003", name := "unfactored-imports", category := .formatting,
     severity := .suggestion, fix := none,
     summary := "Several imports share one parenthesized import declaration.",
     guidance := "Merge the import declarations into a single factored block." },
   { id := "INT001", name := "evaluator-failure", category := .internal,
     severity := .error, fix := none,
     summary := "An evaluator failed while analysing the file.",
     guidance := "Report the failure together with the input document." }]

/-- The registry of the packaged rules. -/
def packagedRegistry : Registry where
  rules := packagedRules
  nodup_ids := by decide +kernel
  version := 1

end GoConventions
