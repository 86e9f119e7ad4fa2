import GoConventions.Finding.Basic
import GoConventions.Source.Unit
import GoConventions.Text.Quoted

/-!
# Making patches

From the corrections that findings ask for to patches that can be applied together.

Each request becomes a patch by its template.  A renaming rewrites the occurrences of the old name
within its bounds; a replacement puts a text for a span; a reordering of imports does so too, but
only if it moves lines about without changing their content.  A request that would change nothing
gives no patch.

Patches that overlap cannot both be kept.  They are judged in order of severity, and then in the
order of the report: a patch is kept if it overlaps none that is kept already.  The finding that
loses its patch says so in its guidance.

## Main definitions

* `buildPatch`: the patch for one finding.
* `withheldPatches`: the patches that have to yield, each with the patch it yields to.
* `synthesize`: the findings with their patches.
-/

namespace GoConventions

variable (unit : SourceUnit)

/-- What is added to the guidance of a finding that loses its patch. -/
def demotionNote : String :=
  "Patch withheld: it overlaps the patch of a higher-severity finding."

/-- A name that is given and not empty. -/
def givenName : Option String → Option String
  | some name => if name.isEmpty then none else some name
  | none => none

/-- Whether a renaming rewrites an occurrence. -/
def FixRequest.covers (request : FixRequest) (identifier : Identifier) : Bool :=
  (!identifier.selector || request.includeSelectors) &&
    match request.within with
    | some span => span.contains identifier.span
    | none => true

/-- The edits of a renaming, in the order of their offsets; the place of the finding is always among
them. -/
def renameEdits (request : FixRequest) (old new : String) : List TextEdit :=
  let edits := ((unit.occurrences old).filter request.covers).map fun identifier =>
    TextEdit.mk identifier.span new
  -- The declaring name may be no recorded occurrence, and is renamed all the same.
  let complete :=
    if edits.any (·.span == request.span) then edits else edits ++ [⟨request.span, new⟩]
  sortBy (compareOn (·.span.start.offset)) complete

/-- The patch of a renaming. -/
def renamePatch (finding : Finding) (request : FixRequest) : Option Patch := do
  let old ← givenName request.oldName
  let new ← givenName request.newName
  if old == new then none
  else
    return { ruleId := finding.ruleId, edits := renameEdits unit request old new
             description := "rename " ++ old ++ " to " ++ new }

/-- The patch of a replacement. -/
def replacePatch (finding : Finding) (request : FixRequest) : Option Patch := do
  let replacement ← request.replacement
  let current := unit.textAt request.span
  if current == replacement then none
  else
    return { ruleId := finding.ruleId, edits := [⟨request.span, replacement⟩]
             description :=
               "replace " ++ Text.quoted current ++ " with " ++ Text.quoted replacement }

/-- The lines of a text that are not blank, without the blanks around them, in ascending order. -/
def contentLines (s : String) : List String :=
  sortBy compare (((Text.paragraphLines s).filter fun line => !Text.isBlankText line).map Text.trim)

/-- The patch of a reordering of imports, and what is said when it would change their content. -/
def reorderPatch (finding : Finding) (request : FixRequest) : Option Patch × List LogRecord :=
  match request.replacement with
  | none => (none, [])
  | some replacement =>
    let current := unit.textAt request.span
    if contentLines current != contentLines replacement then
      (none, [{ level := .warning, source := .fixes
                message := unit.path ++ ": import reorder would change content, patch dropped" }])
    else if current == replacement then (none, [])
    else
      (some { ruleId := finding.ruleId, edits := [⟨request.span, replacement⟩]
              description := "regroup imports in canonical order" }, [])

/-- The patch that a finding asks for, and what is said about a request that cannot be met. -/
def buildPatch (finding : Finding) : Option Patch × List LogRecord :=
  match finding.fix with
  | none => (none, [])
  | some request =>
    match FixTemplate.ofLabel? request.template with
    | some .rename => (renamePatch unit finding request, [])
    | some .replace => (replacePatch unit finding request, [])
    | some .reorderImports => reorderPatch unit finding request
    | none =>
      (none, [{
        level := .warning
        source := .fixes
        message := "no fix template named " ++ request.template ++ " for " ++ finding.ruleId }])

/-- A finding with the patch it asks for; a finding keeps the patch it has when none is made. -/
def withPatch (finding : Finding) : Finding :=
  match (buildPatch unit finding).1 with
  | some patch => { finding with patch := some patch }
  | none => finding

/-- A patch that has to yield: the index of its finding, and the conflict. -/
structure WithheldPatch where
  index : Nat
  conflict : PatchConflict

/-- The patches that have to yield among findings in order of rank, given the patches kept so
far. -/
def withheldAmong (kept : List Patch) : List (Finding × Nat) → List WithheldPatch
  | [] => []
  | (finding, index) :: ranked =>
    match finding.patch with
    | none => withheldAmong kept ranked
    | some patch =>
      match conflictWith? kept patch with
      -- A patch that yields blocks no other one.
      | some conflict => ⟨index, conflict⟩ :: withheldAmong kept ranked
      | none => withheldAmong (kept ++ [patch]) ranked

/-- The findings with their indexes, in the order in which their patches are judged. -/
def rankedFindings (findings : List Finding) : List (Finding × Nat) :=
  sortBy (fun f g => Finding.bySeverity f.1 g.1) findings.zipIdx

/-- The patches of a list of findings that have to yield. -/
def withheldPatches (findings : List Finding) : List WithheldPatch :=
  withheldAmong [] (rankedFindings findings)

/-- A finding without its patch, which says so. -/
def Finding.demoted (finding : Finding) : Finding :=
  { finding with patch := none, guidance := Text.trim (finding.guidance ++ " " ++ demotionNote) }

/-- The findings, those whose patches have to yield without them. -/
def resolveConflicts (findings : List Finding) : List Finding :=
  let withheld := withheldPatches findings
  findings.zipIdx.map fun (finding, index) =>
    if withheld.any (·.index == index) then finding.demoted else finding

/-- What is said about a patch that has to yield. -/
def WithheldPatch.record (withheld : WithheldPatch) : LogRecord where
  level := .warning
  source := .fixes
  message :=
    unit.path ++ ": " ++ withheld.conflict.message ++ "; keeping " ++ withheld.conflict.first

/-- The findings with their patches, in the same order. -/
def synthesize (findings : List Finding) : List Finding :=
  resolveConflicts (findings.map (withPatch unit))

/-- What is said while patches are made. -/
def synthesisLog (findings : List Finding) : List LogRecord :=
  findings.flatMap (fun finding => (buildPatch unit finding).2) ++
    (withheldPatches (findings.map (withPatch unit))).map (WithheldPatch.record unit)

end GoConventions
