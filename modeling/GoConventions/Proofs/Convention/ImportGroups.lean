import Mathlib.Data.List.Chain
import GoConventions.Proofs.Convention.Restriction
import GoConventions.Proofs.Tree.ImportDecls
import GoConventions.Proofs.Tree.Positions
import GoConventions.Rule.Packaged

/-!
# The grouping of imports

The check of an import declaration looks at the groups that blank lines separate: each is to hold
imports of one category, and the categories are to come in their order.  That is a condition on two
consecutive imports each (`SourceText.FollowsInOrder`): they have one category and no blank line
stands between them, or the second category comes later and there is a blank line.

Groups are built from the last import on, and so the equivalence is proved: an import in front of
the others joins their first group or has a group of its own, and either way one condition is added
(`groupsInOrder_join_iff`, `groupsInOrder_apart_iff`).

A declaration that is out of order is remarked upon, and its imports are written anew from the lines
that they stand on.  An import that ends on a line before the one it starts on stands on none, and
then the whole check of imports fails (`importsEvaluator_eq_error_iff`): what is said of the other
declarations of the file is lost with it.

## Main definitions

* `SourceText.FollowsInOrder`: an import may stand after another one.
* `GroupsInOrder`: what the check asks of groups.
* `Context.disorderedImports`: the declarations that are out of order.
* `Context.JudgesGrouping`: these are the ones that findings tell of.

## Main results

* `groupsInOrder_groupEntries_iff`: the groups are in order exactly when consecutive imports are.
* `judgesGrouping_of_readTree`: what is found, and when the check fails.
* `not_forall_silent_iff_isChain`: silence does not always tell that the imports are in order.
-/

namespace GoConventions

variable {src : SourceText} {settings : Settings} {first second entry : ImportEntry}
  {entries : List ImportEntry} {group : ImportGroup} {groups : List ImportGroup}

/-! ## Blank lines between imports -/

namespace SourceText

variable (src)

/-- A blank line stands between the end of an import and the start of another one. -/
def BlankBetween (first second : ImportEntry) : Prop :=
  ∃ line, first.span.stop.line < line ∧ line < second.span.start.line ∧
    src.lineIsBlank line = true

/-- An import may stand right after another one: in one category, and no blank line stands between
them, or in a later category, and there is a blank line. -/
def FollowsInOrder (settings : Settings) (first second : ImportEntry) : Prop :=
  (first.category settings = second.category settings ∧ ¬ src.BlankBetween first second) ∨
    ((first.category settings).rank < (second.category settings).rank ∧
      src.BlankBetween first second)

variable {src}

theorem mem_linesBetween_iff {lower upper : Int} {content : String} :
    content ∈ src.linesBetween lower upper ↔ ∃ line, lower ≤ line ∧ line ≤ upper ∧ 1 ≤ line ∧
      src.lines[(line - 1).toNat]? = some content := by
  rw [linesBetween, List.mem_iff_getElem?]
  constructor
  · rintro ⟨index, hindex⟩
    rw [List.getElem?_drop, List.getElem?_take, Option.ite_none_right_eq_some] at hindex
    refine ⟨((lower - 1).toNat + index : Nat) + 1, by omega, by omega, by omega, ?_⟩
    rw [← hindex.2]
    congr 1
    omega
  · rintro ⟨line, hlower, hupper, hline, hcontent⟩
    refine ⟨(line - 1).toNat - (lower - 1).toNat, ?_⟩
    rw [List.getElem?_drop, List.getElem?_take, Option.ite_none_right_eq_some]
    refine ⟨by omega, ?_⟩
    rw [← hcontent]
    congr 1
    omega

theorem lineIsBlank_iff {line : Int} :
    src.lineIsBlank line = true ↔ 1 ≤ line ∧
      ∃ content, src.lines[(line - 1).toNat]? = some content ∧ Text.isBlankText content = true := by
  rw [lineIsBlank, Bool.and_eq_true, Bool.and_eq_true, decide_eq_true_eq, decide_eq_true_eq,
    and_assoc]
  refine and_congr_right fun hline => ?_
  rw [lineText, if_neg (Int.not_lt.mpr hline)]
  constructor
  · rintro ⟨hlength, hblank⟩
    have hlt : (line - 1).toNat < src.lines.length := by omega
    rw [List.getElem?_eq_getElem hlt] at hblank ⊢
    exact ⟨_, rfl, hblank⟩
  · rintro ⟨content, hcontent, hblank⟩
    obtain ⟨hlt, -⟩ := List.getElem?_eq_some_iff.mp hcontent
    rw [hcontent]
    exact ⟨by omega, hblank⟩

/-- From the line of a position on there is a line up to another one, unless that comes before. -/
theorem linesBetween_eq_nil_iff {position : Position} {upper : Int}
    (hposition : src.IsCanonical position) :
    src.linesBetween position.line upper = [] ↔ upper < position.line := by
  constructor
  · intro h
    obtain ⟨hline, start, hstart, -⟩ := hposition.exists_lineStart
    have hlength : src.lineStarts.length = src.lines.length := Text.length_lineStarts src.text
    have hlt : (position.line - 1).toNat < src.lines.length :=
      hlength ▸ (List.getElem?_eq_some_iff.mp hstart).1
    refine Int.not_le.mp fun hle => ?_
    have hmem : src.lines[(position.line - 1).toNat] ∈ src.linesBetween position.line upper :=
      mem_linesBetween_iff.mpr
        ⟨position.line, Int.le_refl _, hle, hline, List.getElem?_eq_getElem hlt⟩
    rw [h] at hmem
    cases hmem
  · intro hlt
    refine List.eq_nil_iff_forall_not_mem.mpr fun content hcontent => ?_
    obtain ⟨line, hlower, hupper, -⟩ := mem_linesBetween_iff.mp hcontent
    omega

/-- The lines that are looked at are those between two imports. -/
theorem blankLineBetween_iff :
    blankLineBetween src first.span.stop.line second.span.start.line = true ↔
      src.BlankBetween first second := by
  simp only [blankLineBetween, List.any_eq_true, mem_linesBetween_iff, BlankBetween,
    lineIsBlank_iff]
  constructor
  · rintro ⟨content, ⟨line, hlower, hupper, hline, hcontent⟩, hblank⟩
    exact ⟨line, by omega, by omega, hline, content, hcontent, hblank⟩
  · rintro ⟨line, hlower, hupper, hline, content, hcontent, hblank⟩
    exact ⟨content, ⟨line, by omega, by omega, hline, hcontent⟩, hblank⟩

instance (first second : ImportEntry) : Decidable (src.BlankBetween first second) :=
  decidable_of_iff _ blankLineBetween_iff

instance (first second : ImportEntry) : Decidable (src.FollowsInOrder settings first second) :=
  inferInstanceAs (Decidable ((_ ∧ _) ∨ (_ ∧ _)))

end SourceText

/-! ## Groups of imports -/

/-- The imports of a group have the category of the first one. -/
def ImportGroup.IsUniform (settings : Settings) (group : ImportGroup) : Prop :=
  ∀ entry ∈ group.rest, entry.category settings = group.first.category settings

/-- Groups are in order: each holds imports of one category, and the categories come in their
order. -/
structure GroupsInOrder (settings : Settings) (groups : List ImportGroup) : Prop where
  uniform : ∀ group ∈ groups, group.IsUniform settings
  ascending : (groups.map fun group => (group.first.category settings).rank).IsChain (· < ·)

theorem groupsInOrder_singleton : GroupsInOrder settings [⟨entry, []⟩] where
  uniform := List.forall_mem_singleton.mpr (List.forall_mem_nil _)
  ascending := .singleton _

/-- An import with a group of its own, before the other groups. -/
theorem groupsInOrder_apart_iff :
    GroupsInOrder settings (⟨entry, []⟩ :: group :: groups) ↔
      (entry.category settings).rank < (group.first.category settings).rank ∧
        GroupsInOrder settings (group :: groups) := by
  constructor
  · rintro ⟨huniform, hascending⟩
    obtain ⟨hlt, hrest⟩ := List.isChain_cons_cons.mp hascending
    exact ⟨hlt, (List.forall_mem_cons.mp huniform).2, hrest⟩
  · rintro ⟨hlt, huniform, hascending⟩
    exact ⟨List.forall_mem_cons.mpr ⟨List.forall_mem_nil _, huniform⟩, .cons_cons hlt hascending⟩

/-- An import that joins the first of the other groups. -/
theorem groupsInOrder_join_iff :
    GroupsInOrder settings (⟨entry, group.first :: group.rest⟩ :: groups) ↔
      entry.category settings = group.first.category settings ∧
        GroupsInOrder settings (group :: groups) := by
  constructor
  · rintro ⟨huniform, hascending⟩
    obtain ⟨hjoined, hothers⟩ := List.forall_mem_cons.mp huniform
    obtain ⟨hsame, hrest⟩ := List.forall_mem_cons.mp hjoined
    refine ⟨hsame.symm, List.forall_mem_cons.mpr ⟨?_, hothers⟩, ?_⟩
    · exact fun other hother => (hrest other hother).trans hsame.symm
    · rw [List.map_cons] at hascending ⊢
      rwa [← hsame] at hascending
  · rintro ⟨hsame, huniform, hascending⟩
    obtain ⟨hgroup, hothers⟩ := List.forall_mem_cons.mp huniform
    refine ⟨List.forall_mem_cons.mpr ⟨List.forall_mem_cons.mpr ⟨hsame.symm, ?_⟩, hothers⟩, ?_⟩
    · exact fun other hother => (hgroup other hother).trans hsame.symm
    · rw [List.map_cons] at hascending ⊢
      rwa [← hsame] at hascending

/-- **The groups are in order exactly when each import may stand after the one before it.** -/
theorem groupsInOrder_groupEntries_iff :
    GroupsInOrder settings (groupEntries src entries) ↔
      entries.IsChain (src.FollowsInOrder settings) := by
  induction entries with
  | nil => exact iff_of_true ⟨List.forall_mem_nil _, .nil⟩ .nil
  | cons entry entries ih =>
    have hentries := flatMap_groupEntries src entries
    rw [groupEntries]
    cases hgroups : groupEntries src entries with
    | nil =>
      rw [hgroups] at hentries
      rw [← hentries]
      exact iff_of_true groupsInOrder_singleton (.singleton entry)
    | cons group groups =>
      -- The import before which the new one stands is the first of the first group.
      rw [hgroups, List.flatMap_cons, ImportGroup.entries, List.cons_append] at hentries
      rw [hgroups, ← hentries] at ih
      rw [← hentries, List.isChain_cons_cons, ← ih]
      by_cases hblank : src.BlankBetween entry group.first
      · rw [SourceText.FollowsInOrder, or_iff_right fun h => h.2 hblank, and_iff_left hblank]
        simp only [if_pos (SourceText.blankLineBetween_iff.mpr hblank)]
        exact groupsInOrder_apart_iff
      · rw [SourceText.FollowsInOrder, or_iff_left fun h => hblank h.2, and_iff_left hblank]
        simp only [if_neg (mt SourceText.blankLineBetween_iff.mp hblank)]
        exact groupsInOrder_join_iff

/-! ## The verdict on the groups -/

namespace ImportGroup

theorem mem_categories_iff {category : ImportCategory} :
    category ∈ group.categories settings ↔
      ∃ entry ∈ group.entries, entry.category settings = category := by
  have hall : category ∈ ImportCategory.all := by cases category <;> decide
  rw [categories, List.mem_filter, List.contains_iff_mem, List.mem_map]
  exact and_iff_right hall

theorem category_first_mem : group.first.category settings ∈ group.categories settings :=
  mem_categories_iff.mpr ⟨group.first, List.mem_cons_self, rfl⟩

/-- The one category of a group is that of its first import. -/
theorem categories_of_length_le_one (h : ¬ 1 < (group.categories settings).length) :
    group.categories settings = [group.first.category settings] := by
  have hmem := @category_first_mem settings group
  cases hcategories : group.categories settings with
  | nil =>
    rw [hcategories] at hmem
    cases hmem
  | cons category others =>
    rw [hcategories, List.length_cons] at h
    obtain rfl := List.length_eq_zero_iff.mp (show others.length = 0 by omega)
    rw [hcategories] at hmem
    rw [List.mem_singleton.mp hmem]

/-- Several categories are found in a group exactly when not all of its imports have that of the
first one. -/
theorem one_lt_length_categories_iff :
    1 < (group.categories settings).length ↔ ¬ group.IsUniform settings := by
  rw [← not_iff_not, not_not]
  constructor
  · intro h entry hentry
    have hmem : entry.category settings ∈ group.categories settings :=
      mem_categories_iff.mpr ⟨entry, List.mem_cons_of_mem _ hentry, rfl⟩
    rw [categories_of_length_le_one h] at hmem
    exact List.mem_singleton.mp hmem
  · intro huniform
    have hnodup : (group.categories settings).Nodup :=
      List.Nodup.filter _ (by decide : ImportCategory.all.Nodup)
    have hsubset : group.categories settings ⊆ [group.first.category settings] := by
      intro category hcategory
      obtain ⟨entry, hentry, rfl⟩ := mem_categories_iff.mp hcategory
      rcases List.mem_cons.mp hentry with rfl | hrest
      · exact List.mem_cons_self
      · exact List.mem_singleton.mpr (huniform entry hrest)
    exact Nat.not_lt.mpr (hnodup.subperm hsubset).length_le

end ImportGroup

theorem inCanonicalOrder_iff {categories : List ImportCategory} :
    inCanonicalOrder categories = true ↔ (categories.map (·.rank)).IsChain (· < ·) := by
  induction categories using inCanonicalOrder.induct with
  | case1 first second rest ih =>
    rw [inCanonicalOrder, Bool.and_eq_true, decide_eq_true_eq, ih]
    exact List.isChain_cons_cons.symm
  | case2 categories hshort =>
    match categories with
    | [] => exact iff_of_true rfl .nil
    | [category] => exact iff_of_true rfl (.singleton _)
    | first :: second :: rest => exact absurd rfl (hshort first second rest)

/-- **Nothing is wrong with the groups exactly when they are in order.** -/
theorem groupingProblem?_eq_none_iff {decl : ImportDecl} :
    groupingProblem? settings decl = none ↔ GroupsInOrder settings decl.groups := by
  unfold groupingProblem?
  dsimp only
  split
  case h_1 present hpresent =>
    -- A group of several categories is found.
    refine iff_of_false nofun fun horder => ?_
    obtain ⟨group, hgroup, rfl⟩ := List.mem_map.mp (List.mem_of_find?_eq_some hpresent)
    have hmixed : 1 < (group.categories settings).length := by
      simpa using List.find?_some hpresent
    exact ImportGroup.one_lt_length_categories_iff.mp hmixed (horder.uniform group hgroup)
  case h_2 hpresent =>
    have hsmall : ∀ group ∈ decl.groups, ¬ 1 < (group.categories settings).length := by
      intro group hgroup
      simpa using List.find?_eq_none.mp hpresent _ (List.mem_map_of_mem hgroup)
    have huniform : ∀ group ∈ decl.groups, group.IsUniform settings := fun group hgroup =>
      not_not.mp (mt ImportGroup.one_lt_length_categories_iff.mpr (hsmall group hgroup))
    have hheads : (decl.groups.map (·.categories settings)).filterMap List.head? =
        decl.groups.map (·.first.category settings) := by
      rw [List.filterMap_map, ← List.filterMap_eq_map]
      refine List.filterMap_congr fun group hgroup => ?_
      simp only [Function.comp, ImportGroup.categories_of_length_le_one (hsmall group hgroup),
        List.head?_cons]
    rw [hheads, ite_eq_left_iff, imp_iff_not_or, not_not, or_iff_left (by simp),
      inCanonicalOrder_iff, List.map_map]
    exact ⟨fun hascending => ⟨huniform, hascending⟩, (·.ascending)⟩

/-! ## What is found -/

/-- The place of a remark on the groups of a declaration: its body, if it has one. -/
def ImportDecl.groupingSpan (decl : ImportDecl) : Span :=
  decl.bodySpan.getD decl.span

namespace Context

variable (context : Context)

/-- A declaration in parentheses is out of order: an import may not stand right after the one before
it. -/
def isDisordered (decl : ImportDecl) : Bool :=
  decl.parenthesized &&
    !decide (decl.entries.IsChain (context.unit.FollowsInOrder context.settings))

def disorderedImports : List ImportDecl :=
  context.unit.imports.filter context.isDisordered

/-- The imports of a declaration can be written anew: it has a body, and no comment stands there by
itself. -/
def Rewrites (decl : ImportDecl) : Prop :=
  ∃ body, decl.bodySpan = some body ∧ hasFreeComment context.unit decl body = false

/-- Findings tell of the declarations that are out of order: there is one for each of these, in
their order, and so a place is passed over exactly when what stands there is in order. -/
structure JudgesGrouping (findings : List Finding) : Prop where
  reported : (findings.filter (·.ruleId == "IMP001")).map (·.span) =
    context.disorderedImports.map (·.groupingSpan)
  silent : ∀ decl ∈ context.unit.imports, decl.parenthesized = true →
    ((∀ f ∈ findings, f.ruleId = "IMP001" → f.span ≠ decl.groupingSpan) ↔
      ∀ other ∈ context.unit.imports, other.parenthesized = true →
        other.groupingSpan = decl.groupingSpan →
          other.entries.IsChain (context.unit.FollowsInOrder context.settings))

end Context

section Verdict

variable {context : Context} {decl : ImportDecl} {failure : EvaluatorFailure}

theorem isDisordered_iff : context.isDisordered decl = true ↔ decl.parenthesized = true ∧
    ¬ decl.entries.IsChain (context.unit.FollowsInOrder context.settings) := by
  rw [Context.isDisordered, Bool.and_eq_true, Bool.not_eq_true', decide_eq_false_iff_not]

theorem mem_disorderedImports_iff :
    decl ∈ context.disorderedImports ↔ decl ∈ context.unit.imports ∧ decl.parenthesized = true ∧
      ¬ decl.entries.IsChain (context.unit.FollowsInOrder context.settings) := by
  rw [Context.disorderedImports, List.mem_filter, isDisordered_iff]

/-- What the check of the groups looks at is the order of the imports. -/
theorem groupingProblem?_ne_none_iff
    (hgroups : decl.groups = groupEntries context.unit.toSourceText decl.entries) :
    groupingProblem? context.settings decl ≠ none ↔
      ¬ decl.entries.IsChain (context.unit.FollowsInOrder context.settings) := by
  rw [Ne, groupingProblem?_eq_none_iff, hgroups, groupsInOrder_groupEntries_iff]

/-- One finding for each declaration out of order, at its place, makes the others silent. -/
theorem judgesGrouping_of_reported {findings : List Finding}
    (h : (findings.filter (·.ruleId == "IMP001")).map (·.span) =
      context.disorderedImports.map (·.groupingSpan)) : context.JudgesGrouping findings := by
  refine ⟨h, fun decl _ _ => ?_⟩
  have hplaces : (∀ f ∈ findings, f.ruleId = "IMP001" → f.span ≠ decl.groupingSpan) ↔
      decl.groupingSpan ∉ (findings.filter (·.ruleId == "IMP001")).map (·.span) := by
    simp only [List.mem_map, List.mem_filter, beq_iff_eq, not_exists, not_and, and_imp, ne_eq]
  rw [hplaces, h]
  simp only [List.mem_map, mem_disorderedImports_iff, not_exists, not_and, and_imp]
  refine forall₂_congr fun other _ => forall_congr' fun _ => ?_
  exact ⟨fun hall hplace => by_contra fun hdisorder => hall hdisorder hplace,
    fun hall hdisorder hplace => hdisorder (hall hplace)⟩

/-! ## The check of one declaration -/

theorem ruleId_ne_of_mem_entryRemarks {remark : Remark} (hdecl : decl ∈ context.unit.imports)
    (hentry : entry ∈ decl.entries) (h : remark ∈ entryRemarks context entry) :
    remark.ruleId ≠ "IMP001" := by
  simp only [entryRemarks, List.mem_append, or_assoc] at h
  rcases h with h | h | h | h
  · exact ruleId_ne_of_mem_whenEnabled (by decide) (allMeet_dotImportRemark? hdecl hentry) h
  · exact ruleId_ne_of_mem_whenEnabled (by decide) (allMeet_sideEffectRemark? hdecl hentry) h
  · exact ruleId_ne_of_mem_whenEnabled (by decide) (allMeet_redundantAliasRemark? hdecl hentry) h
  · exact ruleId_ne_of_mem_whenEnabled (by decide) (allMeet_generatedAliasRemark? _ hdecl hentry) h

/-- Groups are remarked upon once, at the place of the declaration, if something is wrong. -/
theorem map_span_groupingRemarks {remarks : List Remark}
    (h : groupingRemarks context decl = .ok remarks) :
    remarks.map (·.span) =
      if groupingProblem? context.settings decl = none then [] else [decl.groupingSpan] := by
  unfold groupingRemarks at h
  split at h
  case h_1 hnone =>
    obtain rfl := Except.ok.inj h
    rw [if_pos hnone]
    rfl
  case h_2 problem hproblem =>
    obtain ⟨body, -, h⟩ := bind_eq_ok.mp h
    obtain rfl := Except.ok.inj h
    rw [if_neg (by rw [hproblem]; exact Option.some_ne_none _)]
    rfl

/-- Of the remarks on a declaration those on its groups are under their rule. -/
theorem filter_importDeclRemarks {remarks : List Remark} (hdecl : decl ∈ context.unit.imports)
    (hgroups : decl.groups = groupEntries context.unit.toSourceText decl.entries)
    (henabled : context.enabled "IMP001" = true)
    (h : importDeclRemarks context decl = .ok remarks) :
    (remarks.filter (·.ruleId == "IMP001")).map (·.span) =
      if context.isDisordered decl then [decl.groupingSpan] else [] := by
  obtain ⟨grouping, hgrouping, rfl⟩ := importDeclRemarks_eq_ok.mp h
  have hentries :
      (decl.entries.flatMap (entryRemarks context)).filter (·.ruleId == "IMP001") = [] := by
    refine List.filter_eq_nil_iff.mpr fun remark hremark hrule => ?_
    obtain ⟨entry, hentry, hmem⟩ := List.mem_flatMap.mp hremark
    exact ruleId_ne_of_mem_entryRemarks hdecl hentry hmem (beq_iff_eq.mp hrule)
  rw [henabled, Bool.true_and] at hgrouping
  rw [List.filter_append, hentries, List.append_nil]
  split at hgrouping
  case isTrue hparenthesized =>
    have hall : grouping.filter (·.ruleId == "IMP001") = grouping :=
      List.filter_eq_self.mpr fun remark hremark =>
        beq_iff_eq.mpr (allMeet_groupingRemarks hdecl hgrouping remark hremark).ruleId_eq
    rw [hall, map_span_groupingRemarks hgrouping, ← ite_not]
    refine if_congr ?_ rfl rfl
    rw [isDisordered_iff, and_iff_right hparenthesized]
    exact groupingProblem?_ne_none_iff hgroups
  case isFalse hparenthesized =>
    obtain rfl := Except.ok.inj hgrouping
    rw [if_neg fun hdisorder => hparenthesized (isDisordered_iff.mp hdisorder).1]
    rfl

/-! ## The failure -/

theorem entryText_eq_error_iff {unit : SourceUnit} :
    entryText unit entry = .error failure ↔ failure = .emptyEntry ∧
      unit.linesBetween entry.span.start.line entry.span.stop.line = [] := by
  unfold entryText
  split
  case h_1 hlines =>
    rw [and_iff_left hlines]
    exact ⟨fun h => (Except.error.inj h).symm, fun h => congrArg Except.error h.symm⟩
  case h_2 hlines => exact iff_of_false nofun fun h => by simp [h.2] at hlines

/-- The canonical form fails only where it is written, and at an import that stands on no line. -/
theorem canonicalBody_eq_error_iff :
    canonicalBody context.unit context.settings decl = .error failure ↔ failure = .emptyEntry ∧
      context.Rewrites decl ∧ ∃ entry ∈ decl.entries,
        context.unit.linesBetween entry.span.start.line entry.span.stop.line = [] := by
  unfold canonicalBody Context.Rewrites
  cases hbody : decl.bodySpan with
  | none => simp [pure, Except.pure]
  | some body =>
    cases hfree : hasFreeComment context.unit decl body with
    | true => simp [hfree, pure, Except.pure]
    | false =>
      simp only [hfree, Bool.false_eq_true, if_false, Option.some.injEq, exists_eq_left', true_and]
      -- One entry after the other is written, and each has the one failure.
      rw [← mapM_eq_error_iff (f := fun entry => do
        return (⟨entry.category context.settings, entry.path, ← entryText context.unit entry⟩ :
          RenderedEntry)) fun entry _ failure => ?_]
      · simp [bind_eq_error, pure, Except.pure]
      · simp [bind_eq_error, pure, Except.pure, entryText_eq_error_iff]

theorem groupingRemarks_eq_error_iff :
    groupingRemarks context decl = .error failure ↔
      groupingProblem? context.settings decl ≠ none ∧
        canonicalBody context.unit context.settings decl = .error failure := by
  unfold groupingRemarks
  cases groupingProblem? context.settings decl with
  | none => simp [pure, Except.pure]
  | some problem => simp [bind_eq_error, pure, Except.pure]

theorem importDeclRemarks_eq_error_iff (henabled : context.enabled "IMP001" = true) :
    importDeclRemarks context decl = .error failure ↔
      decl.parenthesized = true ∧ groupingRemarks context decl = .error failure := by
  unfold importDeclRemarks
  rw [henabled, Bool.true_and]
  split <;> simp_all [bind_eq_error, pure, Except.pure]

/-! ## The check of all declarations -/

section Evaluator

variable (henabled : context.enabled "IMP001" = true)
  (hgroups : ∀ decl ∈ context.unit.imports,
    decl.groups = groupEntries context.unit.toSourceText decl.entries)

include henabled hgroups

/-- **The check of imports fails exactly at a declaration that is out of order**, is written anew,
and has an import that stands on no line. -/
theorem importsEvaluator_eq_error_iff :
    importsEvaluator.evaluate context = .error failure ↔ failure = .emptyEntry ∧
      ∃ decl ∈ context.disorderedImports, context.Rewrites decl ∧ ∃ entry ∈ decl.entries,
        context.unit.linesBetween entry.span.start.line entry.span.stop.line = [] := by
  have hdecl : ∀ decl ∈ context.unit.imports, ∀ failure,
      importDeclRemarks context decl = .error failure ↔ failure = .emptyEntry ∧
        decl ∈ context.disorderedImports ∧ context.Rewrites decl ∧ ∃ entry ∈ decl.entries,
          context.unit.linesBetween entry.span.start.line entry.span.stop.line = [] := by
    intro decl hmem failure
    rw [importDeclRemarks_eq_error_iff henabled, groupingRemarks_eq_error_iff,
      groupingProblem?_ne_none_iff (hgroups decl hmem), canonicalBody_eq_error_iff,
      mem_disorderedImports_iff]
    tauto
  have hremarks : importsEvaluator.evaluate context = .error failure ↔
      context.unit.imports.mapM (importDeclRemarks context) = .error failure := by
    refine bind_eq_error.trans (or_iff_left ?_)
    -- What has been remarked becomes findings.
    rintro ⟨remarks, hremarks, hfailed⟩
    obtain ⟨findings, hfindings⟩ :=
      (acceptsAll_flatten_importDeclRemarks hremarks).exists_findings
    rw [hfindings] at hfailed
    cases hfailed
  rw [hremarks, mapM_eq_error_iff hdecl]
  refine and_congr_right fun _ => exists_congr fun decl => ?_
  rw [and_iff_right_of_imp fun h => (mem_disorderedImports_iff.mp h.1).1]

/-- The remarks on groups are those on the declarations out of order, one after the other. -/
theorem map_span_filter_flatten {decls : List ImportDecl} {remarks : List (List Remark)}
    (hsubset : decls ⊆ context.unit.imports)
    (h : decls.mapM (importDeclRemarks context) = .ok remarks) :
    (remarks.flatten.filter (·.ruleId == "IMP001")).map (·.span) =
      (decls.filter context.isDisordered).map (·.groupingSpan) := by
  induction decls generalizing remarks with
  | nil =>
    obtain rfl := Except.ok.inj h
    rfl
  | cons decl decls ih =>
    obtain ⟨first, rest, hfirst, hrest, rfl⟩ := mapM_cons_eq_ok.mp h
    obtain ⟨hdecl, hdecls⟩ := List.cons_subset.mp hsubset
    rw [List.flatten_cons, List.filter_append, List.map_append, ih hdecls hrest,
      filter_importDeclRemarks hdecl (hgroups decl hdecl) henabled hfirst, List.filter_cons]
    split <;> rfl

theorem judgesGrouping_of_evaluate {findings : List Finding}
    (h : importsEvaluator.evaluate context = .ok findings) : context.JudgesGrouping findings := by
  obtain ⟨remarks, hremarks, hfindings⟩ := importsEvaluator_eq_ok.mp h
  refine judgesGrouping_of_reported ?_
  rw [map_span_filter_findings hfindings]
  exact map_span_filter_flatten henabled hgroups (List.Subset.refl _) hremarks

end Evaluator

/-- The imports of a model start where lines are. -/
theorem isCanonical_entry_of_readTree {path text : String} {tree : Members} {unit : SourceUnit}
    (hread : readTree path text tree = .ok unit) (hdecl : decl ∈ unit.imports)
    (hentry : entry ∈ decl.entries) : unit.IsCanonical entry.span.start := by
  obtain ⟨-, -, history, htells⟩ := exists_history_of_readTree hread
  have hspan : entry.span ∈ decl.spans :=
    List.mem_cons_of_mem _ (List.mem_flatMap.mpr ⟨entry, hentry, List.mem_cons_self⟩)
  exact (isCanonical_of_statesSpan ((statesSpan_of_mem_imports htells hdecl).1 _ hspan)).1

/-- **What is found of the order of imports**: in every file that has been read and under all
settings, there is one finding for each declaration in parentheses in which an import may not stand
right after the one before it, and none for another one.  The check answers unless it has to write
such a declaration anew and one of its imports ends on a line before the one it starts on. -/
theorem judgesGrouping_of_readTree {path text : String} {tree : Members}
    (hread : readTree path text tree = .ok context.unit)
    (henabled : context.enabled "IMP001" = true) :
    ∃ decls, nodesIn (tree.get "decls") = .ok decls ∧
      List.Forall₂ (ReadsImports (context.unit.withComments context.unit.comments))
        (decls.filter Members.declaresImports) context.unit.imports ∧
      (∀ findings, importsEvaluator.evaluate context = .ok findings →
        context.JudgesGrouping findings) ∧
      ((∃ findings, importsEvaluator.evaluate context = .ok findings) ↔
        ∀ decl ∈ context.disorderedImports, context.Rewrites decl →
          ∀ entry ∈ decl.entries, entry.span.start.line ≤ entry.span.stop.line) ∧
      ∀ failure, importsEvaluator.evaluate context = .error failure → failure = .emptyEntry := by
  obtain ⟨decls, hdecls, hreads⟩ := forall₂_readsImports_of_readTree hread
  have hgroups : ∀ decl ∈ context.unit.imports,
      decl.groups = groupEntries context.unit.toSourceText decl.entries := by
    intro decl hdecl
    obtain ⟨index, hlt, rfl⟩ := List.mem_iff_getElem.mp hdecl
    exact (hreads.get (by rw [hreads.length_eq]; exact hlt) hlt).groups
  have hfails := fun failure => @importsEvaluator_eq_error_iff context failure henabled hgroups
  have hlines : ∀ decl ∈ context.disorderedImports, ∀ entry ∈ decl.entries,
      (context.unit.linesBetween entry.span.start.line entry.span.stop.line = [] ↔
        ¬ entry.span.start.line ≤ entry.span.stop.line) := by
    intro decl hdecl entry hentry
    rw [Int.not_le]
    exact SourceText.linesBetween_eq_nil_iff
      (isCanonical_entry_of_readTree hread (mem_disorderedImports_iff.mp hdecl).1 hentry)
  refine ⟨decls, hdecls, hreads, fun _ => judgesGrouping_of_evaluate henabled hgroups, ?_,
    fun failure h => ((hfails failure).mp h).1⟩
  constructor
  · rintro ⟨findings, hfindings⟩ decl hdecl hrewrites entry hentry
    by_contra hline
    have hfailed := (hfails .emptyEntry).mpr
      ⟨rfl, decl, hdecl, hrewrites, entry, hentry, (hlines decl hdecl entry hentry).mpr hline⟩
    rw [hfailed] at hfindings
    cases hfindings
  · intro hall
    cases hresult : importsEvaluator.evaluate context with
    | ok findings => exact ⟨findings, rfl⟩
    | error failure =>
      obtain ⟨-, decl, hdecl, hrewrites, entry, hentry, hempty⟩ := (hfails failure).mp hresult
      exact absurd (hall decl hdecl hrewrites entry hentry)
        ((hlines decl hdecl entry hentry).mp hempty)

end Verdict

/-! ## Two declarations, one of them without its blank line -/

def groupedText : SourceText where
  path := "p.go"
  text := "package p\n\nimport (\n\t\"fmt\"\n\n\t\"a.b/c\"\n)\n\n" ++
    "import (\n\t\"a.b/d\"\n\t\"os\"\n)\n"

namespace groupedText

def node (kind : String) (start stop : Int) (parts : Members) : Members :=
  spannedNode kind (groupedText.spanOf start stop) parts

def spec (start stop : Int) (literal : String) : Json :=
  .obj (node "ImportSpec" start stop [
    ("path", .obj (node "BasicLit" start stop [("value", .str literal)]))])

/-- The tree of the text, in which the last import ends at the given place. -/
def tree (stop : Int) : Members :=
  node "File" 0 66 [
    ("package", .obj (node "Ident" 8 9 [("name", .str "p")])),
    ("decls", .arr [
      declaration 11 38 [spec 21 26 "\"fmt\"", spec 29 36 "\"a.b/c\""],
      declaration 40 65 [spec 50 57 "\"a.b/d\"", spec 59 stop "\"os\""]])]
where
  declaration (start stop : Int) (specs : List Json) : Json :=
    .obj (node "GenDecl" start stop [("tok", .str "import"), ("specs", .arr specs)])

end groupedText
/-- The first declaration has its blank line.  The second one has a standard package after another
one, without a blank line, and is found. -/
theorem judgesGrouping_groupedText : ∃ (context : Context) (findings : List Finding),
    readTree groupedText.path groupedText.text (groupedText.tree 63) = .ok context.unit ∧
      context.enabled "IMP001" = true ∧ importsEvaluator.evaluate context = .ok findings ∧
      context.JudgesGrouping findings ∧
      (findings.filter (·.ruleId == "IMP001")).map (·.span) = [groupedText.spanOf 48 64] := by
  let rules := packagedRegistry.toRuleSet
  have hfacts : (readTree groupedText.path groupedText.text (groupedText.tree 63)).toOption.any
      (fun unit =>
        (Context.disorderedImports { unit, rules, settings := {} }).map
            (fun decl => (decl.groupingSpan, decl.entries.all fun entry =>
              entry.span.start.line ≤ entry.span.stop.line)) ==
          [(groupedText.spanOf 48 64, true)]) = true := by decide +kernel
  obtain ⟨unit, hunit, hfacts⟩ := (Option.any_eq_true _ _).mp hfacts
  let context : Context := { unit, rules, settings := {} }
  have hread : readTree groupedText.path groupedText.text (groupedText.tree 63) =
      .ok context.unit := toOption_eq_some.mp hunit
  have henabled : context.enabled "IMP001" = true :=
    show packagedRegistry.toRuleSet.contains "IMP001" = true by decide +kernel
  obtain ⟨mixed, rest, hlist, hmixed, hrest⟩ := List.map_eq_cons_iff.mp (beq_iff_eq.mp hfacts)
  obtain rfl := List.map_eq_nil_iff.mp hrest
  obtain ⟨hplace, hlines⟩ := Prod.mk.inj hmixed
  rw [List.all_eq_true] at hlines
  obtain ⟨-, -, -, hjudges, hanswers, -⟩ := judgesGrouping_of_readTree hread henabled
  obtain ⟨findings, hfindings⟩ := hanswers.mpr fun decl hdecl _ entry hentry => by
    obtain rfl := List.mem_singleton.mp (hlist ▸ hdecl)
    exact of_decide_eq_true (hlines entry hentry)
  have hfound := hjudges findings hfindings
  refine ⟨context, findings, hread, henabled, hfindings, hfound, ?_⟩
  rw [hfound.reported, hlist, List.map_singleton, hplace]

/-- **Silence does not always tell that imports are in order**: the last import ends on the line
before its own, and instead of the order of the imports only a failure is reported. -/
theorem not_forall_silent_iff_isChain :
    ¬ ∀ (context : Context) (path text : String) (tree : Members),
      readTree path text tree = .ok context.unit → context.enabled "IMP001" = true →
        ∀ decl ∈ context.unit.imports, decl.parenthesized = true →
          ((∀ findings, importsEvaluator.evaluate context = .ok findings →
              ∀ f ∈ findings, f.ruleId = "IMP001" → f.span ≠ decl.groupingSpan) ↔
            decl.entries.IsChain (context.unit.FollowsInOrder context.settings)) := by
  intro hall
  let rules := packagedRegistry.toRuleSet
  have hfacts : (readTree groupedText.path groupedText.text (groupedText.tree 57)).toOption.any
      (fun unit => (importsEvaluator.evaluate { unit, rules, settings := {} }).toOption.isNone &&
        !(Context.disorderedImports { unit, rules, settings := {} }).isEmpty) = true := by
    decide +kernel
  obtain ⟨unit, hunit, hfacts⟩ := (Option.any_eq_true _ _).mp hfacts
  obtain ⟨hfails, hdisordered⟩ := Bool.and_eq_true_iff.mp hfacts
  let context : Context := { unit, rules, settings := {} }
  have henabled : context.enabled "IMP001" = true :=
    show packagedRegistry.toRuleSet.contains "IMP001" = true by decide +kernel
  obtain ⟨decl, hdecl⟩ := List.exists_mem_of_ne_nil context.disorderedImports
    (by simpa using hdisordered)
  obtain ⟨hmem, hparenthesized, hdisorder⟩ := mem_disorderedImports_iff.mp hdecl
  refine hdisorder ((hall context _ _ _ (toOption_eq_some.mp hunit) henabled decl hmem
    hparenthesized).mp fun findings hfindings => ?_)
  have hanswers : (importsEvaluator.evaluate context).toOption = none :=
    Option.isNone_iff_eq_none.mp hfails
  rw [hfindings] at hanswers
  cases hanswers

end GoConventions
