import Mathlib.Data.String.Basic
import GoConventions.Proofs.Convention.ImportGroups
import GoConventions.Proofs.Order.Sorted
import GoConventions.Proofs.Source.JoinedLines

/-!
# The blocks of imports in canonical form

The canonical form of the body of an import declaration is a text.  Read back, it has a block for
each category that occurs, in the order of the categories, and the lines of a block are the imports
of its category in the order of their paths and texts: nothing is lost, nothing is repeated, and
nothing stands in a block of another category (`IsLaidOutAs`).

So the blocks are groups of the imports that were given, and these groups do not depend on the
groups or the order in which the imports had been (`canonicalBody_congr`).  A declaration whose
groups are these blocks is one that the check of the grouping accepts, wherever its imports stand
then: the category of an import is that of its path and alias.

An import is written as one line or as several ones.  Only imports of one line each make up blocks
that can be told apart by their lines, since a line in an import could be blank itself.

## Main definitions

* `SourceUnit.importText`: an import as it is written.
* `SourceUnit.IsLaidOutAs`: a body consists of blocks of given imports.
* `ImportDecl.IsGroupedAs`: the groups of a declaration import what given groups import.

## Main results

* `canonicalBody_eq_ok_iff`: when there is a canonical form, and what it is.
* `exists_blocks_of_canonicalBody`: the blocks of the canonical form.
-/

namespace GoConventions

variable {unit : SourceUnit} {settings : Settings} {decl other : ImportDecl}
  {entry first second : ImportEntry} {entries : List ImportEntry} {body : String}

/-! ## Imports as they are written -/

namespace SourceUnit

variable (unit) (settings)

/-- An import as it is written, from its first character to the end of its last line. -/
def importText (entry : ImportEntry) : String :=
  (entryText unit entry).toOption.getD ""

/-- An import with its category and its text. -/
def rendered (entry : ImportEntry) : RenderedEntry :=
  ⟨entry.category settings, entry.path, unit.importText entry⟩

/-- An import stands before another one by its path, or by its text if their paths are the same. -/
def SortsBefore (first second : ImportEntry) : Prop :=
  first.path < second.path ∨
    first.path = second.path ∧ unit.importText first ≤ unit.importText second

/-- The imports of a category, in the order of their paths and texts. -/
def sortedEntries (entries : List ImportEntry) (category : ImportCategory) : List ImportEntry :=
  sortBy (compareLex (compareOn (·.path)) (compareOn unit.importText))
    (entries.filter (·.category settings == category))

variable {unit settings}

theorem sortedEntries_perm (entries : List ImportEntry) (category : ImportCategory) :
    (unit.sortedEntries settings entries category).Perm
      (entries.filter (·.category settings == category)) :=
  sortBy_perm _ _

theorem mem_sortedEntries {category : ImportCategory} :
    entry ∈ unit.sortedEntries settings entries category ↔
      entry ∈ entries ∧ entry.category settings = category := by
  rw [(sortedEntries_perm entries category).mem_iff, List.mem_filter, beq_iff_eq]

theorem sortsBefore_of_isLE
    (h : (compareLex (compareOn (·.path)) (compareOn unit.importText) first second).isLE = true) :
    unit.SortsBefore first second := by
  rw [compareLex, Ordering.isLE_then_iff_or] at h
  exact h.imp compare_lt_iff_lt.mp fun ⟨hpath, htext⟩ =>
    ⟨Std.compare_eq_iff_eq.mp hpath, compare_le_iff_le.mp (Ordering.isLE_iff_ne_gt.mp htext)⟩

theorem pairwise_sortedEntries (entries : List ImportEntry) (category : ImportCategory) :
    (unit.sortedEntries settings entries category).Pairwise unit.SortsBefore :=
  (sortBy_pairwise_isLE _).imp sortsBefore_of_isLE

/-- The lines of a block are the imports of its category, as they are written. -/
theorem blockEntries_rendered (category : ImportCategory) :
    blockEntries (entries.map (unit.rendered settings)) category =
      (unit.sortedEntries settings entries category).map (unit.rendered settings) := by
  rw [blockEntries, List.filter_map, sortBy_map]
  rfl

end SourceUnit

/-! ## When there is a canonical form -/

theorem entryText_eq_ok {text : String} (h : entryText unit entry = .ok text) :
    unit.importText entry = text := by
  rw [SourceUnit.importText, h]
  rfl

/-- **There is a canonical form if a declaration has a body without comments of their own, and all
of its imports have a text; it is the body of these texts.** -/
theorem canonicalBody_eq_ok_iff :
    canonicalBody unit settings decl = .ok (some body) ↔
      (∃ span, decl.bodySpan = some span ∧ hasFreeComment unit decl span = false) ∧
        (∀ entry ∈ decl.entries, entryText unit entry = .ok (unit.importText entry)) ∧
          body = bodyOfEntries (decl.entries.map (unit.rendered settings)) := by
  have hrendered : ∀ (entry : ImportEntry) (line : RenderedEntry),
      (do return (⟨entry.category settings, entry.path, ← entryText unit entry⟩ : RenderedEntry)) =
          Except.ok line ↔
        entryText unit entry = .ok (unit.importText entry) ∧
          line = unit.rendered settings entry := by
    intro entry line
    rw [bind_eq_ok]
    constructor
    · rintro ⟨text, htext, hline⟩
      obtain rfl := entryText_eq_ok htext
      exact ⟨htext, (Except.ok.inj hline).symm⟩
    · rintro ⟨htext, rfl⟩
      exact ⟨_, htext, rfl⟩
  unfold canonicalBody
  cases hspan : decl.bodySpan with
  | none => exact iff_of_false nofun nofun
  | some span =>
    cases hfree : hasFreeComment unit decl span with
    | true => simp [hfree, pure, Except.pure]
    | false =>
      simp only [hfree, Bool.false_eq_true, if_false, bind_eq_ok, mapM_eq_ok_map hrendered]
      constructor
      · rintro ⟨_, ⟨htexts, rfl⟩, hbody⟩
        exact ⟨⟨span, rfl, hfree⟩, htexts, (Option.some.inj (Except.ok.inj hbody)).symm⟩
      · rintro ⟨-, htexts, rfl⟩
        exact ⟨_, ⟨htexts, rfl⟩, rfl⟩

/-! ## The order in which the imports are given -/

attribute [ext] RenderedEntry

/-- Lines of one category that compare equal are equal. -/
theorem blockEntries_congr {lines lines' : List RenderedEntry} (h : lines.Perm lines')
    (category : ImportCategory) : blockEntries lines category = blockEntries lines' category := by
  refine sortBy_perm_eq (h.filter _) fun first hfirst second hsecond heq => ?_
  have hcategory : first.category = second.category :=
    (beq_iff_eq.mp (List.mem_filter.mp hfirst).2).trans
      (beq_iff_eq.mp (List.mem_filter.mp hsecond).2).symm
  obtain ⟨hpath, htext⟩ := Ordering.then_eq_eq.mp heq
  exact RenderedEntry.ext hcategory (Std.compare_eq_iff_eq.mp hpath)
    (Std.compare_eq_iff_eq.mp htext)

theorem bodyOfEntries_congr {lines lines' : List RenderedEntry} (h : lines.Perm lines') :
    bodyOfEntries lines = bodyOfEntries lines' := by
  rw [bodyOfEntries, bodyOfEntries, funext (blockEntries_congr h)]

theorem hasFreeComment_congr (h : other.entries.Perm decl.entries) (span : Span) :
    hasFreeComment unit other span = hasFreeComment unit decl span := by
  rw [hasFreeComment, hasFreeComment]
  refine congrArg _ (funext fun comment => ?_)
  rw [h.any_eq]

/-- **The canonical form does not depend on the order or the groups of the imports.** -/
theorem canonicalBody_congr (hspan : other.bodySpan = decl.bodySpan)
    (hentries : other.entries.Perm decl.entries)
    (h : canonicalBody unit settings decl = .ok (some body)) :
    canonicalBody unit settings other = .ok (some body) := by
  obtain ⟨⟨span, hdecl, hfree⟩, htexts, rfl⟩ := canonicalBody_eq_ok_iff.mp h
  exact canonicalBody_eq_ok_iff.mpr
    ⟨⟨span, hspan.trans hdecl, (hasFreeComment_congr hentries span).trans hfree⟩,
      fun entry hentry => htexts entry (hentries.mem_iff.mp hentry),
      bodyOfEntries_congr (hentries.symm.map _)⟩

/-! ## The blocks -/

namespace ImportCategory

theorem mem_all (category : ImportCategory) : category ∈ all := by
  cases category <;> decide

/-- The categories of imports, in canonical order. -/
def occurring (settings : Settings) (entries : List ImportEntry) : List ImportCategory :=
  all.filter fun category => entries.any (·.category settings == category)

theorem isChain_rank_occurring :
    ((occurring settings entries).map (·.rank)).IsChain (· < ·) := by
  have hall : (all.map (·.rank)).Pairwise (· < ·) := by decide
  exact (hall.sublist (List.filter_sublist.map _)).isChain

/-- Each import has one category. -/
theorem flatMap_filter_perm :
    (all.flatMap fun category => entries.filter (·.category settings == category)).Perm
      entries := by
  -- An import is counted where its category has its turn, and nowhere else.
  refine List.perm_iff_count.mpr fun entry => ?_
  rw [List.count_flatMap]
  have hcount : ∀ category, List.count entry (entries.filter (·.category settings == category)) =
      if entry.category settings = category then entries.count entry else 0 := by
    intro category
    split
    case isTrue h => exact List.count_filter (beq_iff_eq.mpr h)
    case isFalse h =>
      exact List.count_eq_zero.mpr fun hmem => h (beq_iff_eq.mp (List.mem_filter.mp hmem).2)
  simp only [Function.comp_def, hcount]
  cases entry.category settings <;> simp [all]

end ImportCategory

namespace ImportGroup

/-- Imports as a group, if there are any. -/
def ofEntries? : List ImportEntry → Option ImportGroup
  | [] => none
  | entry :: entries => some ⟨entry, entries⟩

theorem ofEntries?_eq_some_iff {group : ImportGroup} :
    ofEntries? entries = some group ↔ entries = group.entries := by
  cases entries with
  | nil => exact iff_of_false nofun nofun
  | cons entry entries =>
    constructor
    · intro h
      rw [← Option.some.inj h]
      rfl
    · intro h
      obtain ⟨rfl, rfl⟩ := List.cons.inj h
      rfl

theorem entries_ne_nil (group : ImportGroup) : group.entries ≠ [] :=
  List.cons_ne_nil _ _

theorem map_entries_filterMap_ofEntries? (parts : List (List ImportEntry)) :
    (parts.filterMap ofEntries?).map ImportGroup.entries = parts.filter (!·.isEmpty) := by
  induction parts with
  | nil => rfl
  | cons part parts ih =>
    cases part with
    | nil => exact ih
    | cons entry part => exact congrArg (_ :: ·) ih

end ImportGroup

namespace SourceUnit

variable (unit) (settings)

/-- The imports in one group for each category that occurs, as the canonical form has them. -/
def canonicalGroups (entries : List ImportEntry) : List ImportGroup :=
  (ImportCategory.all.map (unit.sortedEntries settings entries)).filterMap ImportGroup.ofEntries?

/-- A body consists of blocks, and these are groups of the given imports: one group for each
category that occurs, in the order of the categories, with all imports of that category and no
others, in the order of their paths and texts. -/
structure IsLaidOutAs (entries : List ImportEntry) (groups : List ImportGroup) (body : String) :
    Prop where
  blocks_eq : Text.blocks body =
    groups.map fun group => group.entries.map fun entry => "\t" ++ unit.importText entry
  categories_eq : groups.map (·.first.category settings) =
    ImportCategory.occurring settings entries
  perm : (groups.flatMap ImportGroup.entries).Perm entries
  own : ∀ group ∈ groups, group.entries.Perm
    (entries.filter (·.category settings == group.first.category settings))
  sorted : ∀ group ∈ groups, group.entries.Pairwise unit.SortsBefore

variable {unit settings}

theorem exists_category_of_mem_canonicalGroups {group : ImportGroup}
    (h : group ∈ unit.canonicalGroups settings entries) :
    group.entries = unit.sortedEntries settings entries (group.first.category settings) := by
  obtain ⟨_, hpart, hgroup⟩ := List.mem_filterMap.mp h
  obtain ⟨category, -, rfl⟩ := List.mem_map.mp hpart
  have hentries := ImportGroup.ofEntries?_eq_some_iff.mp hgroup
  have hfirst : group.first ∈ unit.sortedEntries settings entries category :=
    hentries ▸ List.mem_cons_self
  rw [(mem_sortedEntries.mp hfirst).2, hentries]

/-- The categories of the groups are those that occur. -/
theorem map_category_canonicalGroups :
    (unit.canonicalGroups settings entries).map (·.first.category settings) =
      ImportCategory.occurring settings entries := by
  rw [canonicalGroups, ImportCategory.occurring, List.filterMap_map, List.map_filterMap,
    ← List.filterMap_eq_filter]
  refine List.filterMap_congr fun category _ => ?_
  cases hsorted : unit.sortedEntries settings entries category with
  | nil =>
    -- A category without sorted imports does not occur.
    have hnone : (entries.any (·.category settings == category)) = false := by
      rw [List.any_eq_false]
      intro entry hentry hcategory
      have hmem : entry ∈ unit.sortedEntries settings entries category :=
        mem_sortedEntries.mpr ⟨hentry, beq_iff_eq.mp hcategory⟩
      rw [hsorted] at hmem
      cases hmem
    simp [hsorted, hnone, ImportGroup.ofEntries?, Option.guard]
  | cons entry rest =>
    have hmem : entry ∈ unit.sortedEntries settings entries category :=
      hsorted ▸ List.mem_cons_self
    obtain ⟨hentry, hcategory⟩ := mem_sortedEntries.mp hmem
    have hany : (entries.any (·.category settings == category)) = true :=
      List.any_eq_true.mpr ⟨entry, hentry, beq_iff_eq.mpr hcategory⟩
    simp [hsorted, hany, ImportGroup.ofEntries?, hcategory]

theorem flatMap_entries_canonicalGroups :
    (unit.canonicalGroups settings entries).flatMap ImportGroup.entries =
      ImportCategory.all.flatMap (unit.sortedEntries settings entries) := by
  rw [List.flatMap, canonicalGroups, ImportGroup.map_entries_filterMap_ofEntries?,
    List.flatten_filter_not_isEmpty, List.flatMap]

theorem canonicalGroups_perm :
    ((unit.canonicalGroups settings entries).flatMap ImportGroup.entries).Perm entries := by
  rw [flatMap_entries_canonicalGroups]
  exact (List.Perm.flatMap_left _ fun category _ => sortedEntries_perm entries category).trans
    ImportCategory.flatMap_filter_perm

/-- The lines of the body, block by block. -/
theorem bodyOfEntries_rendered :
    bodyOfEntries (entries.map (unit.rendered settings)) =
      "\n" ++ "\n\n".intercalate
        (((unit.canonicalGroups settings entries).map fun group =>
          group.entries.map fun entry => "\t" ++ unit.importText entry).map "\n".intercalate) ++
        "\n" := by
  -- Blocks without lines are left out of the text, as groups without imports are.
  have hblocks : (ImportCategory.all.map
      (blockEntries (entries.map (unit.rendered settings)))).filter (!·.isEmpty) =
        ((unit.canonicalGroups settings entries).map ImportGroup.entries).map
          (List.map (unit.rendered settings)) := by
    have hsorted : blockEntries (entries.map (unit.rendered settings)) =
        List.map (unit.rendered settings) ∘ unit.sortedEntries settings entries :=
      funext blockEntries_rendered
    rw [hsorted, canonicalGroups, ImportGroup.map_entries_filterMap_ofEntries?, ← List.map_map,
      List.filter_map]
    refine congrArg _ (List.filter_congr fun part _ => ?_)
    rw [Function.comp, List.isEmpty_map]
  have hlines : ∀ group : ImportGroup, (group.entries.map (unit.rendered settings)).map
      (fun line => "\t" ++ line.text) =
        group.entries.map fun entry => "\t" ++ unit.importText entry := by
    intro group
    rw [List.map_map]
    rfl
  rw [bodyOfEntries, hblocks, List.map_map, List.map_map, List.map_map]
  simp only [Function.comp_def, hlines]

/-- **The canonical form of imports of one line each, read back, is laid out in groups.** -/
theorem isLaidOutAs_canonicalGroups
    (hlines : ∀ entry ∈ entries, Text.IsLine (unit.importText entry)) :
    unit.IsLaidOutAs settings entries (unit.canonicalGroups settings entries)
      (bodyOfEntries (entries.map (unit.rendered settings))) where
  blocks_eq := by
    rw [bodyOfEntries_rendered, Text.blocks_surround]
    refine Text.blocks_intercalate ?_ ?_
    · intro block hblock
      obtain ⟨group, -, rfl⟩ := List.mem_map.mp hblock
      exact mt List.map_eq_nil_iff.mp group.entries_ne_nil
    · intro block hblock line hline
      obtain ⟨group, hgroup, rfl⟩ := List.mem_map.mp hblock
      obtain ⟨entry, hentry, rfl⟩ := List.mem_map.mp hline
      exact (hlines entry (canonicalGroups_perm.mem_iff.mp
        (List.mem_flatMap.mpr ⟨group, hgroup, hentry⟩))).indent
  categories_eq := map_category_canonicalGroups
  perm := canonicalGroups_perm
  own group hgroup := by
    rw [exists_category_of_mem_canonicalGroups hgroup]
    exact sortedEntries_perm _ _
  sorted group hgroup := by
    rw [exists_category_of_mem_canonicalGroups hgroup]
    exact pairwise_sortedEntries _ _

end SourceUnit

/-! ## Declarations with these groups -/

/-- What an import imports, wherever it stands: a path, and perhaps an alias. -/
def ImportEntry.imported (entry : ImportEntry) : String × Option String :=
  (entry.path, entry.aliasName)

theorem ImportEntry.category_congr (h : first.imported = second.imported) :
    first.category settings = second.category settings := by
  obtain ⟨hpath, halias⟩ := Prod.mk.inj h
  rw [category, category, hpath, halias]

/-- The groups of a declaration import what given groups import, each what the one in its place
does. -/
def ImportDecl.IsGroupedAs (decl : ImportDecl) (groups : List ImportGroup) : Prop :=
  List.Forall₂ (fun own group : ImportGroup =>
    (own.entries.map (·.imported)).Perm (group.entries.map (·.imported))) decl.groups groups

/-- Imports have the category of those that import the same. -/
theorem forall_category_of_perm {own : List ImportEntry} {category : ImportCategory}
    (h : (own.map (·.imported)).Perm (entries.map (·.imported)))
    (hentries : ∀ entry ∈ entries, entry.category settings = category) :
    ∀ entry ∈ own, entry.category settings = category := by
  intro entry hentry
  obtain ⟨same, hsame, himported⟩ :=
    List.mem_map.mp (h.mem_iff.mp (List.mem_map_of_mem (f := (·.imported)) hentry))
  exact (ImportEntry.category_congr himported.symm).trans (hentries same hsame)

/-- A declaration that is grouped as blocks of one category each are has their categories. -/
theorem ImportDecl.IsGroupedAs.categories {groups : List ImportGroup}
    (h : decl.IsGroupedAs groups)
    (hgroups : ∀ group ∈ groups, ∀ entry ∈ group.entries,
      entry.category settings = group.first.category settings) :
    (∀ group ∈ decl.groups, group.IsUniform settings) ∧
      decl.groups.map (·.first.category settings) = groups.map (·.first.category settings) := by
  unfold IsGroupedAs at h
  generalize decl.groups = owns at h ⊢
  induction h with
  | nil => exact ⟨List.forall_mem_nil _, rfl⟩
  | @cons own group _ _ hsame _ ih =>
    obtain ⟨hgroup, hrest⟩ := List.forall_mem_cons.mp hgroups
    obtain ⟨huniform, hcategories⟩ := ih hrest
    obtain ⟨hfirst, hothers⟩ := List.forall_mem_cons.mp (forall_category_of_perm hsame hgroup)
    refine ⟨List.forall_mem_cons.mpr
      ⟨fun entry hentry => (hothers entry hentry).trans hfirst.symm, huniform⟩, ?_⟩
    rw [List.map_cons, List.map_cons, hfirst, hcategories]

/-- Nothing is said of a declaration that is grouped as the blocks are. -/
theorem groupingRemarks_eq_nil {groups : List ImportGroup} {context : Context}
    (hlaid : unit.IsLaidOutAs context.settings entries groups body)
    (h : decl.IsGroupedAs groups) : groupingRemarks context decl = .ok [] := by
  have hcategory : ∀ group ∈ groups, ∀ entry ∈ group.entries,
      entry.category context.settings = group.first.category context.settings :=
    fun group hgroup entry hentry =>
      beq_iff_eq.mp (List.mem_filter.mp ((hlaid.own group hgroup).mem_iff.mp hentry)).2
  obtain ⟨huniform, hcategories⟩ := h.categories hcategory
  have hnone : groupingProblem? context.settings decl = none := by
    refine groupingProblem?_eq_none_iff.mpr ⟨huniform, ?_⟩
    have hranks : (decl.groups.map fun group => (group.first.category context.settings).rank) =
        (ImportCategory.occurring context.settings entries).map (·.rank) := by
      rw [← hlaid.categories_eq, ← hcategories, List.map_map]
      rfl
    rw [hranks]
    exact ImportCategory.isChain_rank_occurring
  rw [groupingRemarks, hnone]
  rfl

/-- **The canonical form of a declaration's body.**  If there is one, and all imports are lines of
their own, then its blocks are groups of these imports, one for each category that occurs; it is the
form of every declaration of the same imports, whatever their order and groups; and the check has
nothing to say of a declaration that is grouped as the blocks are. -/
theorem exists_blocks_of_canonicalBody
    (hbody : canonicalBody unit settings decl = .ok (some body))
    (hlines : ∀ entry ∈ decl.entries, Text.IsLine (unit.importText entry)) :
    ∃ groups, unit.IsLaidOutAs settings decl.entries groups body ∧
      (∀ other : ImportDecl, other.bodySpan = decl.bodySpan → other.entries.Perm decl.entries →
        canonicalBody unit settings other = .ok (some body)) ∧
      ∀ (context : Context) (other : ImportDecl), context.settings = settings →
        other.IsGroupedAs groups → groupingRemarks context other = .ok [] := by
  obtain ⟨-, -, rfl⟩ := canonicalBody_eq_ok_iff.mp hbody
  have hlaid : unit.IsLaidOutAs settings decl.entries
      (unit.canonicalGroups settings decl.entries) _ :=
    SourceUnit.isLaidOutAs_canonicalGroups hlines
  refine ⟨_, hlaid, fun other hspan hentries => canonicalBody_congr hspan hentries hbody, ?_⟩
  rintro context other rfl hgrouped
  exact groupingRemarks_eq_nil hlaid hgrouped

/-! ## Three imports in disorder, with a comment on one of them -/

def scatteredText : SourceText where
  path := "p.go"
  text := "package p\n\nimport (\n\t\"b.c/d\" // kept\n\t\"os\"\n\n\t\"fmt\"\n)\n"

def scatteredTree : Members :=
  node "File" 0 53 [
    ("package", .obj (node "Ident" 8 9 [("name", .str "p")])),
    ("comments", .arr [.obj (node "CommentGroup" 29 36 [
      ("list", .arr [.obj (node "Comment" 29 36 [("text", .str "// kept")])])])]),
    ("decls", .arr [.obj (node "GenDecl" 11 52 [
      ("tok", .str "import"),
      ("specs", .arr [spec 21 28 "\"b.c/d\"", spec 38 42 "\"os\"", spec 45 50 "\"fmt\""])])])]
where
  node (kind : String) (start stop : Int) (parts : Members) : Members :=
    spannedNode kind (scatteredText.spanOf start stop) parts
  spec (start stop : Int) (literal : String) : Json :=
    .obj (node "ImportSpec" start stop [
      ("path", .obj (node "BasicLit" start stop [("value", .str literal)]))])

/-- The standard packages come first, in the order of their paths, and the comment stays with its
import. -/
theorem exists_blocks_scatteredTree :
    ∃ unit decl, readTree scatteredText.path scatteredText.text scatteredTree = .ok unit ∧
      unit.imports = [decl] ∧ (∀ entry ∈ decl.entries, Text.IsLine (unit.importText entry)) ∧
      ∃ body, canonicalBody unit {} decl = .ok (some body) ∧
        body = "\n\t\"fmt\"\n\t\"os\"\n\n\t\"b.c/d\" // kept\n" ∧
        ∃ groups, unit.IsLaidOutAs {} decl.entries groups body := by
  have hbodies : (readTree scatteredText.path scatteredText.text scatteredTree).toOption.any
      (fun unit => unit.imports.map (fun decl =>
        (decide (∀ entry ∈ decl.entries, Text.IsLine (unit.importText entry)),
          (canonicalBody unit {} decl).toOption)) ==
        [(true, some (some "\n\t\"fmt\"\n\t\"os\"\n\n\t\"b.c/d\" // kept\n"))]) = true := by
    decide +kernel
  obtain ⟨unit, hunit, hbodies⟩ := (Option.any_eq_true _ _).mp hbodies
  obtain ⟨decl, rest, hlist, hfacts, hrest⟩ := List.map_eq_cons_iff.mp (beq_iff_eq.mp hbodies)
  obtain rfl := List.map_eq_nil_iff.mp hrest
  simp only [Prod.mk.injEq, decide_eq_true_eq] at hfacts
  obtain ⟨hlines, hbody⟩ := hfacts
  have hbody := toOption_eq_some.mp hbody
  obtain ⟨groups, hlaid, -⟩ := exists_blocks_of_canonicalBody hbody hlines
  exact ⟨unit, decl, toOption_eq_some.mp hunit, hlist, hlines, _, hbody, rfl, groups, hlaid⟩

end GoConventions
