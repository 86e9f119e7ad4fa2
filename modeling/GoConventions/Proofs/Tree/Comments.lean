import GoConventions.Proofs.Source.Spans
import GoConventions.Tree.Comments

/-!
# The comments of a tree

Every comment block of a file is the block of a comment group that stands somewhere in the tree, so
the tree states its span (`statesSpan_of_mem_comments`).
-/

namespace GoConventions

variable {src : SourceText} {tree : Members}

theorem mem_everyNode_of_mem_attachedGroups {node group : Members}
    (h : group ∈ attachedGroups node) : group ∈ (Json.obj node).everyNode := by
  obtain ⟨key, -, hgroup⟩ := List.mem_filterMap.mp h
  apply everyNode_get_subset node key
  rw [members?_eq_some.mp hgroup]
  exact List.mem_cons_self

mutual

/-- The groups that hang below the nodes of a value are those attached to one of them. -/
theorem embeddedGroups_eq_flatMap (value : Json) :
    embeddedGroups value = value.nodes.flatMap attachedGroups := by
  cases value with
  | obj node =>
    rw [embeddedGroups, embeddedGroupsOfParts_eq_flatMap node, nodes_obj, List.flatMap_cons]
    rfl
  | arr items => exact embeddedGroupsOfItems_eq_flatMap items
  | _ => rfl

theorem embeddedGroupsOfItems_eq_flatMap (items : List Json) :
    embeddedGroupsOfItems items =
      (nodesBesideOfItems annotationKeys items).flatMap attachedGroups := by
  cases items with
  | nil => rfl
  | cons item items =>
    rw [embeddedGroupsOfItems, embeddedGroups_eq_flatMap item,
      embeddedGroupsOfItems_eq_flatMap items, nodesBesideOfItems, List.flatMap_append]
    rfl

theorem embeddedGroupsOfParts_eq_flatMap (members : Members) :
    embeddedGroupsOfParts members =
      (nodesBesideOfMembers annotationKeys members).flatMap attachedGroups := by
  match members with
  | [] => rfl
  | (key, value) :: members =>
    rw [embeddedGroupsOfParts, embeddedGroups_eq_flatMap value,
      embeddedGroupsOfParts_eq_flatMap members, nodesBesideOfMembers, List.flatMap_append]
    split <;> rfl

end

/-- The groups that hang below the nodes of a value are nodes of it. -/
theorem embeddedGroups_subset (value : Json) : embeddedGroups value ⊆ value.everyNode := by
  intro group hgroup
  rw [embeddedGroups_eq_flatMap] at hgroup
  obtain ⟨node, hnode, hattached⟩ := List.mem_flatMap.mp hgroup
  exact nodesBeside_trans (nodes_subset_everyNode value hnode)
    (mem_everyNode_of_mem_attachedGroups hattached)

theorem mem_of_groupsByOffset {groups : List Members} {known all : List (Int × Members)}
    (h : groupsByOffset src known groups = .ok all) :
    ∀ entry ∈ all, entry ∈ known ∨ entry.2 ∈ groups := by
  induction groups generalizing known with
  | nil =>
    obtain rfl := Except.ok.inj h
    exact fun entry hentry => Or.inl hentry
  | cons group groups ih =>
    obtain ⟨start, -, hrest⟩ := bind_eq_ok.mp h
    intro entry hentry
    split at hrest
    · exact (ih hrest entry hentry).imp id (List.mem_cons_of_mem _)
    · rcases ih hrest entry hentry with hknown | hgroup
      · rcases List.mem_append.mp hknown with hknown | hnew
        · exact Or.inl hknown
        · rw [List.mem_singleton.mp hnew]
          exact Or.inr List.mem_cons_self
      · exact Or.inr (List.mem_cons_of_mem _ hgroup)

/-- **The tree states the spans of the comments.** -/
theorem statesSpan_of_mem_comments {comments : List CommentBlock}
    (h : collectComments src tree = .ok comments) :
    ∀ block ∈ comments, src.StatesSpan (.obj tree) block.span := by
  obtain ⟨listed, hlisted, h⟩ := bind_eq_ok.mp h
  obtain ⟨known, hknown, h⟩ := bind_eq_ok.mp h
  intro block hblock
  obtain ⟨⟨offset, group⟩, hentry, hresult⟩ := of_mem_mapM h hblock
  obtain ⟨entries, -, hresult⟩ := bind_eq_ok.mp hresult
  obtain ⟨span, hspan, hresult⟩ := bind_eq_ok.mp hresult
  obtain rfl := Except.ok.inj hresult
  refine SourceText.statesSpan_of_span ?_ hspan
  -- The group has been listed by the file, or hangs below a node.
  rcases mem_of_groupsByOffset hknown _ ((mem_sortBy _).mp hentry) with hnone | hgroup
  · cases hnone
  · rcases List.mem_append.mp (List.mem_of_mem_filter hgroup) with hfile | hbelow
    · obtain ⟨items, hitems, rfl⟩ := nodesIn_eq_ok hlisted
      obtain ⟨item, hitem, hmembers⟩ := List.mem_filterMap.mp hfile
      apply everyNode_get_subset tree "comments"
      rcases elements_eq_ok hitems with harr | rfl
      · rw [harr]
        refine mem_nodesBesideOfItems.mpr ⟨item, hitem, ?_⟩
        rw [members?_eq_some.mp hmembers]
        exact List.mem_cons_self
      · cases hitem
    · exact embeddedGroups_subset _ hbelow

end GoConventions
