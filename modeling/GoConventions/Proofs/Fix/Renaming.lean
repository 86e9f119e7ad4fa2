import GoConventions.Fix.Synthesis
import GoConventions.Proofs.Rule.Catalog

/-!
# The edits of a patch

A renaming rewrites occurrences of the old name, and every edit of it writes the new one.  The other
templates make a patch of a single edit.  So all that a patch writes at one place is one text
(`newText_eq_of_buildPatch`), whatever list of identifiers a file comes with.

## Main results

* `mem_renameEdits`: where a renaming writes, and what.
* `buildPatch_eq_some`: the edits of a patch that is made for a finding.
-/

namespace GoConventions

variable {unit : SourceUnit} {request : FixRequest} {finding : Finding} {patch : Patch}

/-- An edit of a renaming writes the new name, at the place of the finding or at an occurrence of
the old name that the renaming covers. -/
theorem mem_renameEdits {old new : String} {edit : TextEdit}
    (h : edit ∈ renameEdits unit request old new) :
    edit.newText = new ∧ (edit.span = request.span ∨
      ∃ identifier ∈ unit.occurrences old, request.covers identifier = true ∧
        edit.span = identifier.span) := by
  rw [renameEdits, mem_sortBy] at h
  have hoccurrence : ∀ e ∈ ((unit.occurrences old).filter request.covers).map
      (fun identifier => TextEdit.mk identifier.span new),
      e.newText = new ∧ ∃ identifier ∈ unit.occurrences old, request.covers identifier = true ∧
        e.span = identifier.span := by
    intro e he
    obtain ⟨identifier, hidentifier, rfl⟩ := List.mem_map.mp he
    obtain ⟨hold, hcovers⟩ := List.mem_filter.mp hidentifier
    exact ⟨rfl, identifier, hold, hcovers, rfl⟩
  split at h
  case isTrue => exact (hoccurrence edit h).imp_right Or.inr
  case isFalse =>
    rcases List.mem_append.mp h with h | h
    · exact (hoccurrence edit h).imp_right Or.inr
    · obtain rfl := List.mem_singleton.mp h
      exact ⟨rfl, Or.inl rfl⟩

theorem givenName_eq_some {name : Option String} {given : String}
    (h : givenName name = some given) : name = some given := by
  cases name with
  | none => simp [givenName] at h
  | some name =>
    simp only [givenName] at h
    split at h
    case isTrue => simp at h
    case isFalse => exact h

theorem renamePatch_eq_some (h : renamePatch unit finding request = some patch) :
    ∃ old new, request.oldName = some old ∧ request.newName = some new ∧
      patch.edits = renameEdits unit request old new := by
  obtain ⟨old, hold, h⟩ := Option.bind_eq_some_iff.mp h
  obtain ⟨new, hnew, h⟩ := Option.bind_eq_some_iff.mp h
  split at h
  case isTrue => simp at h
  case isFalse =>
    obtain rfl := Option.some.inj h
    exact ⟨old, new, givenName_eq_some hold, givenName_eq_some hnew, rfl⟩

theorem replacePatch_eq_some (h : replacePatch unit finding request = some patch) :
    ∃ replacement, request.replacement = some replacement ∧
      patch.edits = [⟨request.span, replacement⟩] := by
  obtain ⟨replacement, hreplacement, h⟩ := Option.bind_eq_some_iff.mp h
  dsimp only at h
  split at h
  case isTrue => simp at h
  case isFalse =>
    obtain rfl := Option.some.inj h
    exact ⟨replacement, hreplacement, rfl⟩

theorem reorderPatch_eq_some (h : (reorderPatch unit finding request).1 = some patch) :
    ∃ replacement, request.replacement = some replacement ∧
      patch.edits = [⟨request.span, replacement⟩] := by
  unfold reorderPatch at h
  split at h
  case h_1 => simp at h
  case h_2 replacement hreplacement =>
    dsimp only at h
    split at h
    case isTrue => simp at h
    case isFalse =>
      split at h
      case isTrue => simp at h
      case isFalse =>
        obtain rfl := Option.some.inj h
        exact ⟨replacement, hreplacement, rfl⟩

/-- **The edits of a patch that is made for a finding**: those of a renaming, or a single one. -/
theorem buildPatch_eq_some (h : (buildPatch unit finding).1 = some patch) :
    ∃ request, finding.fix = some request ∧
      ((request.template = FixTemplate.rename.label ∧
          ∃ old new, request.oldName = some old ∧ request.newName = some new ∧
            patch.edits = renameEdits unit request old new) ∨
        (request.template ≠ FixTemplate.rename.label ∧
          ∃ replacement, request.replacement = some replacement ∧
            patch.edits = [⟨request.span, replacement⟩])) := by
  unfold buildPatch at h
  split at h
  case h_1 => simp at h
  case h_2 request hfix =>
    refine ⟨request, hfix, ?_⟩
    split at h
    case h_1 htemplate =>
      exact Or.inl ⟨FixTemplate.ofLabel?_eq_some_iff.mp htemplate, renamePatch_eq_some h⟩
    case h_2 htemplate =>
      refine Or.inr ⟨?_, replacePatch_eq_some h⟩
      simp [FixTemplate.ofLabel?_eq_some_iff.mp htemplate, FixTemplate.label_inj]
    case h_3 htemplate =>
      refine Or.inr ⟨?_, reorderPatch_eq_some h⟩
      simp [FixTemplate.ofLabel?_eq_some_iff.mp htemplate, FixTemplate.label_inj]
    case h_4 => simp at h

/-- A patch writes one text, wherever it writes. -/
theorem newText_eq_of_buildPatch (h : (buildPatch unit finding).1 = some patch) {e f : TextEdit}
    (he : e ∈ patch.edits) (hf : f ∈ patch.edits) : e.newText = f.newText := by
  obtain ⟨request, -, ⟨-, old, new, -, -, hedits⟩ | ⟨-, replacement, -, hedits⟩⟩ :=
    buildPatch_eq_some h
  · rw [hedits] at he hf
    exact (mem_renameEdits he).1.trans (mem_renameEdits hf).1.symm
  · rw [hedits, List.mem_singleton] at he hf
    rw [he, hf]

/-- A finding that comes without a patch has the one that is made for it. -/
theorem withPatch_patch (h : finding.patch = none) :
    (withPatch unit finding).patch = (buildPatch unit finding).1 := by
  unfold withPatch
  split
  case h_1 heq => exact heq.symm
  case h_2 heq => rw [h, heq]

end GoConventions
