import GoConventions.Order.Sorting
import GoConventions.Source.Position

/-!
# Patches

A patch is a set of edits that together correct one finding; an edit replaces a span of the text.

Two patches *overlap* when an edit of one and an edit of the other touch a common character or begin
at the same offset: at one offset the order of two insertions would matter.  Patches that do not
overlap are applied together, from the end of the text to its beginning, so that the offsets of the
edits still to be made stay valid.

## Main definitions

* `Patch.overlaps`, `firstConflict?`: whether patches can be applied together.
* `applyPatches`: the text with all edits made, or the conflict that forbids it.
-/

namespace GoConventions

structure TextEdit where
  span : Span
  newText : String
  deriving DecidableEq, Repr

structure Patch where
  ruleId : String
  edits : List TextEdit
  description : String
  deriving DecidableEq, Repr

/-- Whether two edits cannot both be made. -/
def TextEdit.clashes (e f : TextEdit) : Bool :=
  e.span.overlaps f.span || e.span.start.offset == f.span.start.offset

theorem TextEdit.clashes_comm (e f : TextEdit) : e.clashes f = f.clashes e := by
  unfold TextEdit.clashes
  rw [Span.overlaps_comm, Bool.beq_comm]

namespace Patch

/-- Whether two patches cannot both be applied. -/
def overlaps (p q : Patch) : Bool :=
  p.edits.any fun mine => q.edits.any fun theirs => mine.clashes theirs

theorem overlaps_iff {p q : Patch} :
    p.overlaps q = true ↔ ∃ e ∈ p.edits, ∃ f ∈ q.edits, e.clashes f = true := by
  simp [overlaps]

theorem overlaps_comm (p q : Patch) : p.overlaps q = q.overlaps p := by
  rw [Bool.eq_iff_iff, overlaps_iff, overlaps_iff]
  constructor <;> rintro ⟨e, he, f, hf, h⟩ <;> exact ⟨f, hf, e, he, TextEdit.clashes_comm e f ▸ h⟩

/-- The least position that compares lowest. -/
def leastOf (order : Position → Position → Ordering) : List Position → Option Position
  | [] => none
  | p :: ps => some (ps.foldl (fun least q => if order q least == .lt then q else least) p)

/-- The span from the first start to the last end of the edits; a patch without edits has none. -/
def span? (p : Patch) : Option Span := do
  let start ← leastOf Position.order (p.edits.map (·.span.start))
  let stop ← leastOf (fun a b => Position.order b a) (p.edits.map (·.span.stop))
  return ⟨start, stop⟩

end Patch

/-- Two patches that cannot both be applied. -/
structure PatchConflict where
  first : String
  second : String
  deriving DecidableEq, Repr

def PatchConflict.message (conflict : PatchConflict) : String :=
  "patch for " ++ conflict.second ++ " overlaps patch for " ++ conflict.first

/-- The conflict of a patch with the first of the others that it overlaps. -/
def conflictWith? (others : List Patch) (patch : Patch) : Option PatchConflict :=
  (others.find? patch.overlaps).map fun other => ⟨other.ruleId, patch.ruleId⟩

/-- The conflict of the first patch that overlaps one before it. -/
def firstConflict? : List Patch → List Patch → Option PatchConflict
  | _, [] => none
  | seen, patch :: patches =>
    (conflictWith? seen patch).or (firstConflict? (seen ++ [patch]) patches)

/-- The text with one edit made. -/
def TextEdit.apply (edit : TextEdit) (text : String) : String :=
  Text.upTo edit.span.start.offset text ++ edit.newText ++
    Text.fromOffset edit.span.stop.offset text

/-- The edits of the patches, those at the end of the text first. -/
def editsFromEnd (patches : List Patch) : List TextEdit :=
  sortBy (fun e f => compare f.span.start.offset e.span.start.offset)
    (patches.flatMap Patch.edits)

/-- The text with all patches applied. -/
def applyPatches (text : String) (patches : List Patch) : Except PatchConflict String :=
  match firstConflict? [] patches with
  | some conflict => .error conflict
  | none => .ok ((editsFromEnd patches).foldl (fun text edit => edit.apply text) text)

end GoConventions
