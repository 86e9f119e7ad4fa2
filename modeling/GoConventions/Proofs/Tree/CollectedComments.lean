import GoConventions.Proofs.Order.Sorted
import GoConventions.Proofs.Tree.Comments
import Mathlib.Data.List.Nodup

/-!
# The comment blocks of a file

A comment group may be listed by the file and hang below nodes as well, so it is met several times.
It becomes one block: the groups are told apart by the offsets at which they start, the first one at
each offset is kept, and the blocks stand in the order of these offsets.

So the blocks of a file are determined up to the choice among groups that start at one place: they
are strictly ascending, every group has a block where it starts, and every block is that of a group
(`collectsComments_of_collectComments`).

## Main definitions

* `Members.HasGroup`: a comment group occurs in a tree, and holds a comment.
* `SourceText.CollectsComments`: some blocks are those of the groups of a tree.

## Main results

* `collectsComments_of_collectComments`: the comments of a tree are collected so.
-/

namespace GoConventions

open Std (TransCmp)

/-- A comment group occurs in a tree: it is listed by the file or hangs below a node of the walk.
Groups without comments do not count. -/
structure Members.HasGroup (tree group : Members) : Prop where
  occurs : (∃ items, tree.get "comments" = .arr items ∧ .obj group ∈ items) ∨
    ∃ node ∈ (Json.obj tree).nodes,
      Members.get node "doc" = .obj group ∨ Members.get node "comment" = .obj group
  filled : (group.get "list").isVacant = false

namespace SourceText

variable (src : SourceText)

/-- A comment group starts at an offset. -/
def StartsAt (group : Members) (offset : Int) : Prop :=
  ∃ start, src.position group "pos" = .ok start ∧ start.offset = offset

/-- Some blocks are those of the comment groups of a tree: strictly ascending, with one block where
a group starts, and none that is not the block of a group. -/
structure CollectsComments (tree : Members) (comments : List CommentBlock) : Prop where
  ascending : comments.Pairwise fun block later =>
    block.span.start.offset < later.span.start.offset
  block_of_group : ∀ group, tree.HasGroup group → ∃ offset, src.StartsAt group offset ∧
    ∃! block, block ∈ comments ∧ block.span.start.offset = offset
  group_of_block : ∀ block ∈ comments, ∃ group, tree.HasGroup group ∧
    commentBlock src group = .ok block ∧ src.StartsAt group block.span.start.offset

end SourceText

variable {src : SourceText} {tree : Members}

/-! ## The groups of a tree -/

theorem mem_attachedGroups {node group : Members} : group ∈ attachedGroups node ↔
    node.get "doc" = .obj group ∨ node.get "comment" = .obj group := by
  simp only [attachedGroups, List.mem_filterMap, List.mem_cons, List.not_mem_nil, or_false,
    members?_eq_some, exists_eq_or_imp, exists_eq_left]

theorem mem_nodesIn_iff {value : Json} {nodes : List Members} (h : nodesIn value = .ok nodes)
    {node : Members} : node ∈ nodes ↔ ∃ items, value = .arr items ∧ .obj node ∈ items := by
  obtain ⟨items, hitems, rfl⟩ := nodesIn_eq_ok h
  simp only [List.mem_filterMap, members?_eq_some, exists_eq_right]
  constructor
  · intro hnode
    rcases elements_eq_ok hitems with rfl | rfl
    · exact ⟨items, rfl, hnode⟩
    · cases hnode
  · rintro ⟨others, rfl, hnode⟩
    rwa [← Except.ok.inj hitems]

/-- The groups that are looked at are those that occur. -/
theorem mem_groups_iff {listed : List Members}
    (hlisted : nodesIn (tree.get "comments") = .ok listed) {group : Members} :
    (group ∈ (listed ++ embeddedGroups (.obj tree)).filter fun group =>
      !(group.get "list").isVacant) ↔ tree.HasGroup group := by
  rw [List.mem_filter, List.mem_append, mem_nodesIn_iff hlisted, embeddedGroups_eq_flatMap,
    List.mem_flatMap, Bool.not_eq_true']
  simp only [mem_attachedGroups]
  exact ⟨fun ⟨hoccurs, hfilled⟩ => ⟨hoccurs, hfilled⟩, fun h => ⟨h.occurs, h.filled⟩⟩

/-! ## One group for each offset -/

section Grouping

variable {groups : List Members} {known all : List (Int × Members)}

theorem known_subset_of_groupsByOffset (h : groupsByOffset src known groups = .ok all) :
    known ⊆ all := by
  induction groups generalizing known with
  | nil =>
    obtain rfl := Except.ok.inj h
    exact List.Subset.refl _
  | cons group groups ih =>
    obtain ⟨start, -, hrest⟩ := bind_eq_ok.mp h
    split at hrest
    · exact ih hrest
    · exact List.Subset.trans (List.subset_append_left _ _) (ih hrest)

/-- No two groups start at the same offset. -/
theorem pairwise_of_groupsByOffset (hknown : known.Pairwise (·.1 ≠ ·.1))
    (h : groupsByOffset src known groups = .ok all) : all.Pairwise (·.1 ≠ ·.1) := by
  induction groups generalizing known with
  | nil =>
    obtain rfl := Except.ok.inj h
    exact hknown
  | cons group groups ih =>
    obtain ⟨start, -, hrest⟩ := bind_eq_ok.mp h
    split at hrest
    case isTrue => exact ih hknown hrest
    case isFalse hnew =>
      refine ih (List.pairwise_append.mpr ⟨hknown, List.pairwise_singleton _ _, ?_⟩) hrest
      intro entry hentry new hmem heq
      obtain rfl := List.mem_singleton.mp hmem
      exact hnew (List.any_eq_true.mpr ⟨entry, hentry, beq_iff_eq.mpr heq⟩)

/-- Every group is kept with the offset at which it starts. -/
theorem startsAt_of_groupsByOffset (hknown : ∀ entry ∈ known, src.StartsAt entry.2 entry.1)
    (h : groupsByOffset src known groups = .ok all) :
    ∀ entry ∈ all, src.StartsAt entry.2 entry.1 := by
  induction groups generalizing known with
  | nil =>
    obtain rfl := Except.ok.inj h
    exact hknown
  | cons group groups ih =>
    obtain ⟨start, hstart, hrest⟩ := bind_eq_ok.mp h
    split at hrest
    · exact ih hknown hrest
    · refine ih (fun entry hentry => ?_) hrest
      rcases List.mem_append.mp hentry with hentry | hnew
      · exact hknown entry hentry
      · rw [List.mem_singleton.mp hnew]
        exact ⟨start, hstart, rfl⟩

/-- Where a group starts, a group is kept. -/
theorem exists_of_groupsByOffset (h : groupsByOffset src known groups = .ok all) :
    ∀ group ∈ groups, ∃ entry ∈ all, src.StartsAt group entry.1 := by
  induction groups generalizing known with
  | nil => exact fun group hgroup => absurd hgroup List.not_mem_nil
  | cons first groups ih =>
    obtain ⟨start, hstart, hrest⟩ := bind_eq_ok.mp h
    intro group hgroup
    split at hrest
    case isTrue hany =>
      rcases List.mem_cons.mp hgroup with rfl | hgroup
      · -- A group that is left out starts where one does that is kept.
        obtain ⟨entry, hentry, heq⟩ := List.any_eq_true.mp hany
        exact ⟨entry, known_subset_of_groupsByOffset hrest hentry,
          start, hstart, (beq_iff_eq.mp heq).symm⟩
      · exact ih hrest group hgroup
    case isFalse =>
      rcases List.mem_cons.mp hgroup with rfl | hgroup
      · refine ⟨(start.offset, group), ?_, start, hstart, rfl⟩
        exact known_subset_of_groupsByOffset hrest
          (List.mem_append_right _ (List.mem_singleton_self _))
      · exact ih hrest group hgroup

end Grouping

/-! ## The blocks -/

theorem startsAt_of_commentBlock {group : Members} {block : CommentBlock}
    (h : commentBlock src group = .ok block) : src.StartsAt group block.span.start.offset := by
  obtain ⟨entries, -, h⟩ := bind_eq_ok.mp h
  obtain ⟨span, hspan, h⟩ := bind_eq_ok.mp h
  obtain rfl := Except.ok.inj h
  exact ⟨span.start, (SourceText.span_eq_ok.mp hspan).1, rfl⟩

theorem SourceText.StartsAt.unique {group : Members} {offset other : Int}
    (h : src.StartsAt group offset) (hother : src.StartsAt group other) : offset = other := by
  obtain ⟨start, hstart, rfl⟩ := h
  obtain ⟨again, hagain, rfl⟩ := hother
  rw [hstart] at hagain
  rw [Except.ok.inj hagain]

/-- Groups with different offsets that are sorted by them are strictly ascending. -/
theorem pairwise_lt_sortBy {known : List (Int × Members)} (h : known.Pairwise (·.1 ≠ ·.1)) :
    (sortBy (compareOn (·.1)) known).Pairwise (·.1 < ·.1) := by
  have : TransCmp (compareOn fun entry : Int × Members => entry.1) := inferInstance
  refine (sortBy_pairwise_precedes h).imp fun hprecedes => ?_
  rcases hprecedes with hlt | ⟨heq, hne⟩
  · exact Int.compare_eq_lt.mp hlt
  · exact absurd (Std.compare_eq_iff_eq.mp heq) hne

/-- **Comments are collected exactly**: in the order of their offsets, one block where a group
starts, and nothing else. -/
theorem collectsComments_of_collectComments {comments : List CommentBlock}
    (h : collectComments src tree = .ok comments) : src.CollectsComments tree comments := by
  obtain ⟨listed, hlisted, h⟩ := bind_eq_ok.mp h
  obtain ⟨known, hknown, h⟩ := bind_eq_ok.mp h
  have hnodup := pairwise_of_groupsByOffset List.Pairwise.nil hknown
  have hstarts := startsAt_of_groupsByOffset (fun entry hentry => absurd hentry List.not_mem_nil)
    hknown
  -- A block starts where its group does.
  have hoffsets : comments.map (·.span.start.offset) =
      (sortBy (compareOn (·.1)) known).map (·.1) := by
    have hblocks := (List.forall₂_and_left _ _).mpr
      ⟨fun entry hentry => hstarts entry ((mem_sortBy _).mp hentry), mapM_eq_ok_iff.mp h⟩
    rw [eq_comm, ← List.forall₂_eq_eq_eq, List.forall₂_map_left_iff, List.forall₂_map_right_iff]
    exact hblocks.imp fun _ _ hblock => hblock.1.unique (startsAt_of_commentBlock hblock.2)
  have hsorted : (comments.map (·.span.start.offset)).Pairwise (· < ·) :=
    hoffsets ▸ List.pairwise_map.mpr (pairwise_lt_sortBy hnodup)
  refine ⟨List.pairwise_map.mp hsorted, fun group hgroup => ?_, fun block hblock => ?_⟩
  · obtain ⟨entry, hentry, hstart⟩ :=
      exists_of_groupsByOffset hknown group ((mem_groups_iff hlisted).mpr hgroup)
    have hmem : entry.1 ∈ comments.map (·.span.start.offset) :=
      hoffsets ▸ List.mem_map_of_mem ((mem_sortBy _).mpr hentry)
    obtain ⟨block, hblock, hoffset⟩ := List.mem_map.mp hmem
    refine ⟨entry.1, hstart, block, ⟨hblock, hoffset⟩, fun other ⟨hother, hsame⟩ => ?_⟩
    exact List.inj_on_of_nodup_map (hsorted.imp Int.ne_of_lt) hother hblock
      (hsame.trans hoffset.symm)
  · obtain ⟨entry, hentry, hresult⟩ := of_mem_mapM h hblock
    have hgroup := mem_of_groupsByOffset hknown entry ((mem_sortBy _).mp hentry)
    exact ⟨entry.2, (mem_groups_iff hlisted).mp (hgroup.resolve_left List.not_mem_nil), hresult,
      startsAt_of_commentBlock hresult⟩

end GoConventions
