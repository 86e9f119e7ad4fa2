import GoConventions.Tree.Node
import Mathlib.Data.List.Perm.Subperm

/-!
# The nodes of a tree

The nodes of a value are listed in the order of a walk, each as often as it stands there.  A reader
never visits more than this list: the parts that it looks up under different keys share no node
(`flatMap_get_subperm`), and a list of nodes that it picks out of a value is part of that value's
list (`flatMap_nodesIn_sublist`).  So what is done once at every visit is done at most once for
every node of a tree.

Two lists are of use.  `Json.nodes` leaves out what hangs below the annotations of a node, above all
its comments, and `Json.everyNode` leaves out nothing.

## Main definitions

* `Json.nodesBeside`: the nodes of a value, apart from those below members of certain keys.
* `Json.nodes`, `Members.inner`, `Json.everyNode`: the nodes of a walk, those below a node, and all
  nodes.

## Main results

* `flatMap_get_subperm`: members under different keys share no node.
* `nodes_trans`: a node below a node of a value is a node of the value.
-/

namespace GoConventions

section Listing

variable (skipped : List String)

mutual

/-- The nodes of a value in the order of a walk, without those below members of the given keys. -/
def Json.nodesBeside : Json → List Members
  | .obj node => node :: nodesBesideOfMembers node
  | .arr items => nodesBesideOfItems items
  | _ => []

def nodesBesideOfItems : List Json → List Members
  | [] => []
  | item :: items => item.nodesBeside ++ nodesBesideOfItems items

def nodesBesideOfMembers : List (String × Json) → List Members
  | [] => []
  | (key, value) :: members =>
    (if skipped.contains key then [] else value.nodesBeside) ++ nodesBesideOfMembers members

end

end Listing

/-- The nodes of a value, itself included, without its annotations. -/
def Json.nodes (value : Json) : List Members :=
  value.nodesBeside annotationKeys

/-- The nodes below a node, without its annotations. -/
def Members.inner (node : Members) : List Members :=
  nodesBesideOfMembers annotationKeys node

/-- All nodes of a value, its comments and whatever else hangs below it included. -/
def Json.everyNode (value : Json) : List Members :=
  value.nodesBeside []

theorem nodes_obj (node : Members) : (Json.obj node).nodes = node :: node.inner := rfl

theorem inner_sublist_nodes (node : Members) : node.inner.Sublist (Json.obj node).nodes :=
  List.sublist_cons_self _ _

theorem nodes_arr (items : List Json) : (Json.arr items).nodes = items.flatMap Json.nodes := by
  rw [Json.nodes, Json.nodesBeside]
  induction items with
  | nil => rfl
  | cons item items ih => rw [nodesBesideOfItems, List.flatMap_cons, ih, Json.nodes]

theorem inner_cons (key : String) (value : Json) (members : Members) :
    Members.inner ((key, value) :: members) =
      (if annotationKeys.contains key then [] else value.nodes) ++ Members.inner members := rfl

/-- The nodes below a node are those of its parts. -/
theorem inner_eq_flatMap_parts (node : Members) :
    node.inner = node.parts.flatMap fun part => part.2.nodes := by
  induction node with
  | nil => rfl
  | cons member members ih =>
    obtain ⟨key, value⟩ := member
    rw [inner_cons, ih, Members.parts, Members.parts, List.filter_cons]
    by_cases hkey : annotationKeys.contains key = true
    · rw [if_pos hkey, if_neg (by simpa using hkey), List.nil_append]
    · rw [if_neg hkey, if_pos (by simpa using hkey), List.flatMap_cons]

/-! ## Looking up members -/

theorem get_cons (key other : String) (value : Json) (members : Members) :
    Members.get ((key, value) :: members) other =
      if other = key then value else Members.get members other := by
  rw [Members.get, List.lookup_cons]
  by_cases h : other = key
  · rw [if_pos h, beq_iff_eq.mpr h]
    rfl
  · rw [if_neg h, beq_eq_false_iff_ne.mpr h]
    rfl

/-- What is looked up is null or a member. -/
theorem get_eq_null_or_mem (node : Members) (key : String) :
    node.get key = .null ∨ (key, node.get key) ∈ node := by
  induction node with
  | nil => exact Or.inl rfl
  | cons member members ih =>
    obtain ⟨other, value⟩ := member
    rw [get_cons]
    by_cases hkey : key = other
    · rw [if_pos hkey, hkey]
      exact Or.inr List.mem_cons_self
    · rw [if_neg hkey]
      exact ih.imp id (List.mem_cons_of_mem _)

section Keys

variable {key : String} {keys : List String}

/-- A member is met under its key, and the other keys look into the remaining members. -/
theorem flatMap_get_cons_of_mem (hnodup : keys.Nodup) (hkey : key ∈ keys) (value : Json)
    (members : Members) :
    (keys.flatMap fun other => (Members.get ((key, value) :: members) other).nodes).Perm
      (value.nodes ++ (keys.erase key).flatMap fun other => (members.get other).nodes) := by
  have hothers : ((keys.erase key).flatMap fun other =>
      (Members.get ((key, value) :: members) other).nodes) =
        (keys.erase key).flatMap fun other => (members.get other).nodes := by
    refine List.flatMap_congr fun other hother => ?_
    rw [get_cons, if_neg (hnodup.mem_erase_iff.mp hother).1]
  have hperm := (List.perm_cons_erase hkey).flatMap_right fun other =>
    (Members.get ((key, value) :: members) other).nodes
  rwa [List.flatMap_cons, hothers, get_cons, if_pos rfl] at hperm

/-- A member under no key is passed over. -/
theorem flatMap_get_cons_of_notMem (hkey : key ∉ keys) (value : Json) (members : Members) :
    (keys.flatMap fun other => (Members.get ((key, value) :: members) other).nodes) =
      keys.flatMap fun other => (members.get other).nodes := by
  refine List.flatMap_congr fun other hother => ?_
  have hne : other ≠ key := fun heq => hkey (heq ▸ hother)
  rw [get_cons, if_neg hne]

end Keys

/-- **Members under different keys share no node.** -/
theorem flatMap_get_subperm {keys : List String} (hnodup : keys.Nodup)
    (hkeys : ∀ key ∈ keys, key ∉ annotationKeys) (node : Members) :
    (keys.flatMap fun key => (node.get key).nodes).Subperm node.inner := by
  induction node generalizing keys with
  | nil =>
    have hnil : (keys.flatMap fun key => (Members.get [] key).nodes) = [] :=
      List.flatMap_eq_nil_iff.mpr fun _ _ => rfl
    rw [hnil]
    exact List.nil_subperm
  | cons member members ih =>
    obtain ⟨key, value⟩ := member
    rw [inner_cons]
    by_cases hkey : key ∈ keys
    · rw [if_neg (by simpa using hkeys key hkey)]
      have hperm := flatMap_get_cons_of_mem hnodup hkey value members
      refine hperm.subperm.trans (List.subperm_append_left _ |>.mpr ?_)
      exact ih (hnodup.erase key) fun other hother => hkeys other (List.mem_of_mem_erase hother)
    · rw [flatMap_get_cons_of_notMem hkey]
      exact (ih hnodup hkeys).trans (List.sublist_append_right _ _).subperm

theorem nodes_get_subperm {key : String} (hkey : key ∉ annotationKeys) (node : Members) :
    (node.get key).nodes.Subperm node.inner := by
  have hsubperm : ([key].flatMap fun key => (node.get key).nodes).Subperm node.inner :=
    flatMap_get_subperm (List.pairwise_singleton _ key) (by simpa using hkey) node
  rwa [List.flatMap_singleton] at hsubperm

/-- The nodes of the members under some keys, one after the other. -/
def Members.nodesUnder (node : Members) : List String → List Members
  | [] => []
  | [key] => (node.get key).nodes
  | key :: keys => (node.get key).nodes ++ node.nodesUnder keys

theorem nodesUnder_eq_flatMap (node : Members) (keys : List String) :
    node.nodesUnder keys = keys.flatMap fun key => (node.get key).nodes := by
  induction keys with
  | nil => rfl
  | cons key keys ih =>
    rw [List.flatMap_cons, ← ih]
    cases keys with
    | nil => exact (List.append_nil _).symm
    | cons _ _ => rfl

/-- The nodes under different keys that are no annotations lie side by side below a node. -/
theorem nodesUnder_subperm (node : Members) (keys : List String)
    (hkeys : (annotationKeys ++ keys).Nodup) : (node.nodesUnder keys).Subperm node.inner := by
  obtain ⟨-, hnodup, hother⟩ := List.nodup_append.mp hkeys
  rw [nodesUnder_eq_flatMap]
  exact flatMap_get_subperm hnodup (fun key hkey hmem => hother key hmem key hkey rfl) node

theorem height_get_lt (node : Members) (key : String) :
    (node.get key).height < (Json.obj node).height := by
  rw [Members.get]
  cases hlookup : node.lookup key with
  | none => exact Nat.succ_pos _
  | some value => exact Json.height_lt_of_lookup hlookup

/-! ## Values as nodes and as lists -/

theorem elements_eq_ok {value : Json} {items : List Json} (h : elements value = .ok items) :
    value = .arr items ∨ items = [] := by
  unfold elements at h
  split at h
  case h_1 => exact Or.inl (by rw [Except.ok.inj h])
  case h_2 => exact Or.inr (Except.ok.inj h).symm
  case h_3 => exact Or.inr (Except.ok.inj h).symm
  case h_4 =>
    split at h
    · exact Or.inr (Except.ok.inj h).symm
    · simp at h

theorem flatMap_elements_sublist {value : Json} {items : List Json}
    (h : elements value = .ok items) : (items.flatMap Json.nodes).Sublist value.nodes := by
  rcases elements_eq_ok h with rfl | rfl
  · rw [nodes_arr]
  · exact List.nil_sublist _

theorem height_lt_of_mem_elements {value item : Json} {items : List Json}
    (h : elements value = .ok items) (hitem : item ∈ items) : item.height < value.height := by
  rcases elements_eq_ok h with rfl | rfl
  · exact Json.height_lt_of_mem hitem
  · simp at hitem

theorem nodesIn_eq_ok {value : Json} {nodes : List Members} (h : nodesIn value = .ok nodes) :
    ∃ items, elements value = .ok items ∧ nodes = items.filterMap Json.members? := by
  unfold nodesIn at h
  cases helements : elements value with
  | error fault => simp [helements, Except.map] at h
  | ok items =>
    rw [helements] at h
    exact ⟨items, rfl, (Except.ok.inj h).symm⟩

theorem members?_eq_some {value : Json} {node : Members} :
    value.members? = some node ↔ value = .obj node := by
  cases value <;> simp [Json.members?]

/-- A value that holds no node is none. -/
theorem members?_eq_none {value : Json} (h : value.nodes = []) : value.members? = none := by
  cases value with
  | obj node => exact absurd h (List.cons_ne_nil _ _)
  | _ => rfl

/-- The nodes picked out of a value are part of its list. -/
theorem flatMap_nodesIn_sublist {value : Json} {nodes : List Members}
    (h : nodesIn value = .ok nodes) :
    (nodes.flatMap fun node => (Json.obj node).nodes).Sublist value.nodes := by
  obtain ⟨items, hitems, rfl⟩ := nodesIn_eq_ok h
  refine List.Sublist.trans ?_ (flatMap_elements_sublist hitems)
  clear h hitems
  induction items with
  | nil => exact List.Sublist.refl _
  | cons item items ih =>
    rw [List.flatMap_cons]
    cases hmembers : item.members? with
    | none =>
      rw [List.filterMap_cons_none hmembers]
      exact ih.trans (List.sublist_append_right _ _)
    | some node =>
      rw [List.filterMap_cons_some hmembers, List.flatMap_cons, members?_eq_some.mp hmembers]
      exact ih.append_left _

/-- What lies below a node that is listed in a part of another one lies below this. -/
theorem nodes_subset_inner {outer node : Members} {nodes : List Members} {key : String}
    (hkey : key ∉ annotationKeys) (hnodes : nodesIn (outer.get key) = .ok nodes)
    (hnode : node ∈ nodes) : (Json.obj node).nodes ⊆ outer.inner := fun _ hbelow =>
  (nodes_get_subperm hkey outer).subset <| (flatMap_nodesIn_sublist hnodes).subset <|
    List.mem_flatMap.mpr ⟨node, hnode, hbelow⟩

theorem height_lt_of_mem_nodesIn {value : Json} {nodes : List Members} {node : Members}
    (h : nodesIn value = .ok nodes) (hnode : node ∈ nodes) :
    (Json.obj node).height < value.height := by
  obtain ⟨items, hitems, rfl⟩ := nodesIn_eq_ok h
  obtain ⟨item, hitem, hmembers⟩ := List.mem_filterMap.mp hnode
  rw [members?_eq_some.mp hmembers] at hitem
  exact height_lt_of_mem_elements hitems hitem

/-- What is listed under a key of a node is less high than the node. -/
theorem height_lt_of_mem_nodesIn_get {node below : Members} {key : String}
    {listed : List Members} (h : nodesIn (node.get key) = .ok listed) (hbelow : below ∈ listed) :
    (Json.obj below).height < (Json.obj node).height :=
  Nat.lt_trans (height_lt_of_mem_nodesIn h hbelow) (height_get_lt node key)

theorem nodeOrEmpty_eq_ok {value : Json} {node : Members} (h : nodeOrEmpty value = .ok node) :
    value = .obj node ∨ node = [] := by
  unfold nodeOrEmpty at h
  split at h
  case h_1 => exact Or.inl (by rw [Except.ok.inj h])
  case h_2 =>
    split at h
    · exact Or.inr (Except.ok.inj h).symm
    · simp at h

theorem eq_members_of_nodeOrEmpty {value : Json} {node : Members}
    (h : nodeOrEmpty value = .ok node) : node = value.members?.getD [] := by
  cases value with
  | obj members => exact (Except.ok.inj h).symm
  | _ => exact (nodeOrEmpty_eq_ok h).resolve_left nofun

theorem eq_nil_of_nodeOrEmpty {value : Json} {node : Members}
    (h : nodeOrEmpty value = .ok node) (hnone : value.nodes = []) : node = [] := by
  rw [eq_members_of_nodeOrEmpty h, members?_eq_none hnone]
  rfl

theorem inner_nodeOrEmpty_sublist {value : Json} {node : Members}
    (h : nodeOrEmpty value = .ok node) : node.inner.Sublist value.nodes := by
  rcases nodeOrEmpty_eq_ok h with rfl | rfl
  · exact inner_sublist_nodes node
  · exact List.nil_sublist _

theorem height_get_nodeOrEmpty_le {value : Json} {node : Members} (key : String)
    (h : nodeOrEmpty value = .ok node) : (node.get key).height ≤ value.height := by
  rcases nodeOrEmpty_eq_ok h with rfl | rfl
  · exact Nat.le_of_lt (height_get_lt node key)
  · exact Nat.zero_le _

/-! ## Nodes of nodes -/

section Nested

variable {skipped : List String}

theorem mem_nodesBesideOfMembers {node : Members} {below : Members} :
    below ∈ nodesBesideOfMembers skipped node ↔
      ∃ member ∈ node, member.1 ∉ skipped ∧ below ∈ member.2.nodesBeside skipped := by
  induction node with
  | nil => simp [nodesBesideOfMembers]
  | cons member members ih =>
    obtain ⟨key, value⟩ := member
    rw [nodesBesideOfMembers, List.mem_append, ih]
    by_cases hkey : key ∈ skipped <;> simp [hkey]

theorem mem_nodesBesideOfItems {items : List Json} {below : Members} :
    below ∈ nodesBesideOfItems skipped items ↔
      ∃ item ∈ items, below ∈ item.nodesBeside skipped := by
  induction items with
  | nil => simp [nodesBesideOfItems]
  | cons item items ih => rw [nodesBesideOfItems, List.mem_append, ih]; simp

/-- A property of values that passes from a value to its items and members holds of its nodes. -/
theorem forall_mem_nodesBeside {P : Members → Prop} {Q : Json → Prop}
    (hobj : ∀ node, Q (.obj node) → P node)
    (hmember : ∀ node key value, Q (.obj node) → (key, value) ∈ node → key ∉ skipped → Q value)
    (hitem : ∀ items item, Q (.arr items) → item ∈ items → Q item) {value : Json} (h : Q value) :
    ∀ node ∈ value.nodesBeside skipped, P node := by
  induction hheight : value.height using Nat.strongRecOn generalizing value with
  | ind height ih =>
    cases value with
    | obj members =>
      intro node hnode
      rcases List.mem_cons.mp hnode with rfl | hnode
      · exact hobj node h
      · obtain ⟨⟨key, value⟩, hmem, hkey, hnode⟩ := mem_nodesBesideOfMembers.mp hnode
        have hlt : value.height < height := by
          rw [← hheight, Json.height]
          exact Nat.lt_succ_of_le (Json.height_le_heightOfMembers hmem)
        exact ih _ hlt (hmember members key value h hmem hkey) rfl node hnode
    | arr items =>
      intro node hnode
      obtain ⟨item, hmem, hnode⟩ := mem_nodesBesideOfItems.mp hnode
      exact ih _ (hheight ▸ Json.height_lt_of_mem hmem) (hitem items item h hmem) rfl node hnode
    | _ => intro node hnode; simp [Json.nodesBeside] at hnode

/-- What lies below a node of a value lies in the value. -/
theorem nodesBeside_trans {value : Json} {node : Members} (h : node ∈ value.nodesBeside skipped) :
    (Json.obj node).nodesBeside skipped ⊆ value.nodesBeside skipped := by
  refine forall_mem_nodesBeside
    (Q := fun part => part.nodesBeside skipped ⊆ value.nodesBeside skipped)
    (P := fun node => (Json.obj node).nodesBeside skipped ⊆ value.nodesBeside skipped)
    (fun _ hsubset => hsubset) ?_ ?_ (List.Subset.refl _) node h
  · intro node key part hsubset hmember hkey below hbelow
    refine hsubset (List.mem_cons_of_mem _ ?_)
    exact mem_nodesBesideOfMembers.mpr ⟨(key, part), hmember, hkey, hbelow⟩
  · exact fun items item hsubset hitem below hbelow =>
      hsubset (mem_nodesBesideOfItems.mpr ⟨item, hitem, hbelow⟩)

end Nested

/-- A node below a node of a value is a node of the value. -/
theorem nodes_trans {value : Json} {node : Members} (h : node ∈ value.nodes) :
    node.inner ⊆ value.nodes :=
  List.Subset.trans (inner_sublist_nodes node).subset (nodesBeside_trans h)

/-- Leaving out the annotations leaves out nodes, and adds none. -/
theorem nodes_subset_everyNode (value : Json) : value.nodes ⊆ value.everyNode := by
  refine fun node hnode => forall_mem_nodesBeside (P := (· ∈ value.everyNode))
    (Q := fun part => part.everyNode ⊆ value.everyNode) ?_ ?_ ?_ (List.Subset.refl _) node hnode
  · exact fun node hsubset => hsubset List.mem_cons_self
  · intro node key part hsubset hmember _ below hbelow
    refine hsubset (List.mem_cons_of_mem _ ?_)
    exact mem_nodesBesideOfMembers.mpr ⟨(key, part), hmember, List.not_mem_nil, hbelow⟩
  · exact fun items item hsubset hitem below hbelow =>
      hsubset (mem_nodesBesideOfItems.mpr ⟨item, hitem, hbelow⟩)

theorem everyNode_get_subset (node : Members) (key : String) :
    (node.get key).everyNode ⊆ (Json.obj node).everyNode := by
  rcases get_eq_null_or_mem node key with hnull | hmem
  · rw [hnull]
    exact List.nil_subset _
  · intro below hbelow
    exact List.mem_cons_of_mem _
      (mem_nodesBesideOfMembers.mpr ⟨(key, node.get key), hmem, List.not_mem_nil, hbelow⟩)

/-- A node of a file of one line, for small trees. -/
def lineNode (kind : String) (start stop : Int) (parts : Members) : Members :=
  [("kind", .str kind),
    ("pos", .obj [("line", .int 1), ("column", .int (start + 1)), ("offset", .int start)]),
    ("end", .obj [("line", .int 1), ("column", .int (stop + 1)), ("offset", .int stop)])] ++ parts

end GoConventions
