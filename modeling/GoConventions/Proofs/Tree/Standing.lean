import GoConventions.Proofs.Tree.TranscribedFile
import Mathlib.Data.Set.Lattice

/-!
# Where calls stand

What becomes of the results of a call is said by the place where the call stands: it is the whole of
an expression statement or of a go statement, it is bound to targets by an assignment or by a
declaration of variables, or it is part of something else.  A call is bound to all targets if it is
the only value, and to the target at its place if there are as many values as targets.

The standing of a value is handed down from the node above it, and depends on nothing but that
node and its own standing.  So the calls of a value and their standings are given by one rule for
each way down (`StandsIn`), and those of a documented node by its parts.

## Main definitions

* `Standing`: what the place of a value says about it.
* `StandsIn`, `Json.standings`: the calls of a value, with their standings.

## Main results

* `standings_node`, `standings_call`: the calls of a documented node are those of its parts.
* `exists_standing`: every call of a documented value stands somewhere.
-/

namespace GoConventions

/-! ## Standings -/

/-- What the place of a value says about it. -/
inductive Standing where
  /-- The whole of an expression statement or of a go statement. -/
  | whole
  /-- The operand of a selection in such a statement. -/
  | operand
  /-- A value that an assignment with the token binds to targets. -/
  | assigned (token : Json) (targets : List Members)
  /-- A value that a declaration of variables binds to names. -/
  | declared (names : List Members)
  /-- A declaration of the file or of a statement. -/
  | declaration
  /-- A specification in a declaration of variables. -/
  | specified
  | other

/-- The standing that a node hands down to its parts. -/
def Members.handsDown (node : Members) (standing : Standing) : Standing :=
  if node.hasKind "ExprStmt" || node.hasKind "GoStmt" then .whole
  else if node.hasKind "DeclStmt" then .declaration
  else
    match standing with
    | .whole | .operand => if node.hasKind "SelectorExpr" then .operand else .other
    | .declaration =>
      if node.hasKind "GenDecl" && (node.get "tok").isText "var" then .specified else .other
    | _ => .other

/-- Values with what they are bound to: a single value to all targets, and otherwise each to the one
at its place, if there are as many. -/
def boundValues (bound : List Members → Standing) (targets values : List Members) :
    List (Members × Standing) :=
  match values with
  | [value] => [(value, bound targets)]
  | values =>
    if values.length = targets.length then
      (targets.zip values).map fun (target, value) => (value, bound [target])
    else values.map (·, .other)

/-- The key under which a node has values that it binds, and these values with what they are bound
to. -/
def Members.binding? (node : Members) (standing : Standing) :
    Option (String × List (Members × Standing)) :=
  if node.hasKind "AssignStmt" then
    some ("rhs", boundValues (.assigned (node.get "tok")) (node.nodesAt "lhs") (node.nodesAt "rhs"))
  else
    match standing with
    | .specified =>
      if node.hasKind "ValueSpec" then
        some ("values", boundValues .declared (node.nodesAt "names") (node.nodesAt "values"))
      else none
    | _ => none

/-- A call stands somewhere in a value that has a standing itself. -/
inductive StandsIn (call : Members) (standing : Standing) : Standing → Json → Prop where
  | here (hcall : call.hasKind "CallExpr" = true) : StandsIn call standing standing (.obj call)
  | item {inherited : Standing} {items : List Json} {item : Json} (hitem : item ∈ items)
      (h : StandsIn call standing inherited item) : StandsIn call standing inherited (.arr items)
  /-- A part of a node that it does not bind. -/
  | part {inherited : Standing} {node : Members} {part : String × Json} (hpart : part ∈ node.parts)
      (hfree : ∀ binding ∈ node.binding? inherited, binding.1 ≠ part.1)
      (h : StandsIn call standing (node.handsDown inherited) part.2) :
      StandsIn call standing inherited (.obj node)
  | bound {inherited : Standing} {node : Members} {binding : String × List (Members × Standing)}
      {value : Members × Standing} (hbinding : node.binding? inherited = some binding)
      (hvalue : value ∈ binding.2) (h : StandsIn call standing value.2 (.obj value.1)) :
      StandsIn call standing inherited (.obj node)

/-- The calls of a value with their standings. -/
def Json.standings (value : Json) (inherited : Standing) : Set (Members × Standing) :=
  {entry | StandsIn entry.1 entry.2 inherited value}

/-- The calls of bound values with their standings. -/
def boundStandings (values : List (Members × Standing)) : Set (Members × Standing) :=
  ⋃ value ∈ values, (Json.obj value.1).standings value.2

/-- The calls of the members under some keys, with their standings. -/
def Members.standingsUnder (node : Members) (inherited : Standing) :
    List String → Set (Members × Standing)
  | [] => ∅
  | [key] => (node.get key).standings inherited
  | key :: keys => (node.get key).standings inherited ∪ node.standingsUnder inherited keys

variable {node : Members} {value : Json} {standing : Standing} {entry : Members × Standing}

theorem mem_standingsUnder {keys : List String} :
    entry ∈ node.standingsUnder standing keys ↔
      ∃ key ∈ keys, entry ∈ (node.get key).standings standing := by
  induction keys with
  | nil => simp [Members.standingsUnder]
  | cons key keys ih =>
    cases keys with
    | nil => simp [Members.standingsUnder]
    | cons other keys =>
      rw [List.exists_mem_cons_iff, ← ih]
      exact Iff.rfl

theorem mem_boundStandings {values : List (Members × Standing)} :
    entry ∈ boundStandings values ↔
      ∃ value ∈ values, entry ∈ (Json.obj value.1).standings value.2 := by
  simp [boundStandings]

theorem boundStandings_singleton (value : Members) (standing : Standing) :
    boundStandings [(value, standing)] = (Json.obj value).standings standing := by
  simp [boundStandings]

theorem boundStandings_map {α : Type} (f : α → Members × Standing) (xs : List α) :
    boundStandings (xs.map f) = ⋃ x ∈ xs, (Json.obj (f x).1).standings (f x).2 := by
  ext entry
  simp [boundStandings]

/-! ## Values in general -/

theorem standings_arr (items : List Json) :
    (Json.arr items).standings standing = ⋃ item ∈ items, item.standings standing := by
  ext entry
  simp only [Set.mem_iUnion, exists_prop]
  constructor
  · intro h
    cases h with
    | item hitem h => exact ⟨_, hitem, h⟩
  · rintro ⟨item, hitem, h⟩
    exact .item hitem h

/-- The calls of a node: itself, those of the parts that it does not bind, and those of the values
that it binds. -/
theorem mem_standings_obj : entry ∈ (Json.obj node).standings standing ↔
    (node.hasKind "CallExpr" = true ∧ entry = (node, standing)) ∨
    (∃ part ∈ node.parts, (∀ binding ∈ node.binding? standing, binding.1 ≠ part.1) ∧
      entry ∈ part.2.standings (node.handsDown standing)) ∨
    ∃ binding ∈ node.binding? standing, entry ∈ boundStandings binding.2 := by
  obtain ⟨call, found⟩ := entry
  simp only [mem_boundStandings]
  constructor
  · intro h
    cases h with
    | here hcall => exact Or.inl ⟨hcall, rfl⟩
    | part hpart hfree h => exact Or.inr (Or.inl ⟨_, hpart, hfree, h⟩)
    | bound hbinding hvalue h => exact Or.inr (Or.inr ⟨_, hbinding, _, hvalue, h⟩)
  · rintro (⟨hcall, hentry⟩ | ⟨part, hpart, hfree, h⟩ | ⟨binding, hbinding, value, hvalue, h⟩)
    · obtain ⟨rfl, rfl⟩ := Prod.mk.inj hentry
      exact .here hcall
    · exact .part hpart hfree h
    · exact .bound hbinding hvalue h

/-- Each value is bound to the target at its place, if there are as many. -/
theorem boundValues_of_length_eq (bound : List Members → Standing) {targets values : List Members}
    (h : values.length = targets.length) : boundValues bound targets values =
      (targets.zip values).map fun (target, value) => (value, bound [target]) := by
  unfold boundValues
  split
  · obtain ⟨target, rfl⟩ := List.length_eq_one_iff.mp h.symm
    rfl
  · exact if_pos h

theorem boundValues_of_length_ne (bound : List Members → Standing) {targets values : List Members}
    (hsingle : ∀ value, values ≠ [value]) (h : values.length ≠ targets.length) :
    boundValues bound targets values = values.map (·, .other) := by
  unfold boundValues
  split
  · exact absurd rfl (hsingle _)
  · exact if_neg h

/-- What is bound is the values, in their order. -/
theorem map_fst_boundValues (bound : List Members → Standing) (targets values : List Members) :
    (boundValues bound targets values).map Prod.fst = values := by
  unfold boundValues
  split
  · rfl
  · split
    case isTrue hlength =>
      rw [List.map_map]
      exact List.map_snd_zip (Nat.le_of_eq hlength)
    case isFalse =>
      rw [List.map_map]
      exact List.map_id _

theorem of_mem_boundValues {bound : List Members → Standing} {targets values : List Members}
    {entry : Members × Standing} (h : entry ∈ boundValues bound targets values) :
    entry.1 ∈ values := by
  rw [← map_fst_boundValues bound targets values]
  exact List.mem_map_of_mem h

/-- Bound values are listed in a part of the node. -/
theorem exists_of_binding? {binding : String × List (Members × Standing)}
    (h : node.binding? standing = some binding) :
    binding.1 ∉ annotationKeys ∧ ∀ value ∈ binding.2, value.1 ∈ node.nodesAt binding.1 := by
  unfold Members.binding? at h
  split at h
  · obtain rfl := Option.some.inj h
    exact ⟨by simp [annotationKeys], fun value hvalue => of_mem_boundValues hvalue⟩
  · split at h
    · split at h
      · obtain rfl := Option.some.inj h
        exact ⟨by simp [annotationKeys], fun value hvalue => of_mem_boundValues hvalue⟩
      · cases h
    · cases h

/-- What stands in a value is a call among its nodes. -/
theorem StandsIn.mem_nodes {call : Members} {inherited : Standing}
    (h : StandsIn call standing inherited value) :
    call ∈ value.nodes ∧ call.hasKind "CallExpr" = true := by
  induction h with
  | here hcall => exact ⟨List.mem_cons_self, hcall⟩
  | item hitem _ ih =>
    rw [nodes_arr]
    exact ⟨List.mem_flatMap.mpr ⟨_, hitem, ih.1⟩, ih.2⟩
  | part hpart _ _ ih =>
    rw [nodes_obj, inner_eq_flatMap_parts]
    exact ⟨List.mem_cons_of_mem _ (List.mem_flatMap.mpr ⟨_, hpart, ih.1⟩), ih.2⟩
  | bound hbinding hvalue _ ih =>
    obtain ⟨hkey, hlisted⟩ := exists_of_binding? hbinding
    have hmem := hlisted _ hvalue
    refine ⟨List.mem_cons_of_mem _ ?_, ih.2⟩
    exact nodes_subset_inner hkey (nodesIn_of_mem_nodesAt hmem) hmem ih.1

theorem standings_eq_empty_of_nodes (h : value.nodes = []) : value.standings standing = ∅ := by
  refine Set.eq_empty_of_forall_notMem fun entry hentry => ?_
  have hmem := (StandsIn.mem_nodes hentry).1
  rw [h] at hmem
  cases hmem

theorem standings_eq_empty_of_isSilent (h : value.isSilent = true) :
    value.standings standing = ∅ := by
  refine Set.eq_empty_of_forall_notMem fun entry hentry => ?_
  obtain ⟨hmem, hcall⟩ := StandsIn.mem_nodes hentry
  have hsilent := List.all_eq_true.mp h _ hmem
  simp [hcall] at hsilent

/-! ## Documented nodes -/

/-- What stands in a part that a node does not bind stands in the node. -/
theorem mem_standings_of_get (key : String) (hkey : key ∉ annotationKeys)
    (hfree : ∀ binding ∈ node.binding? standing, binding.1 ≠ key)
    (h : entry ∈ (node.get key).standings (node.handsDown standing)) :
    entry ∈ (Json.obj node).standings standing := by
  -- A key that is not there reads as null, in which there is no call.
  rcases get_eq_null_or_mem node key with hnull | hmem
  · rw [hnull, standings_eq_empty_of_nodes rfl] at h
    exact h.elim
  · exact .part (List.mem_filter.mpr ⟨hmem, by simpa using hkey⟩) hfree h

/-- The parts of a node that hold calls stand under the keys that speak. -/
theorem exists_part_iff (p : String → Prop) {keys : List String} (h : (Json.obj node).Documented)
    (hspeaks : node.speaksUnder keys = true) (hkeys : ∀ key ∈ keys, key ∉ annotationKeys)
    (standing : Standing) (entry : Members × Standing) :
    (∃ part ∈ node.parts, p part.1 ∧ entry ∈ part.2.standings standing) ↔
      ∃ key ∈ keys, p key ∧ entry ∈ (node.get key).standings standing := by
  constructor
  · rintro ⟨part, hpart, hp, hentry⟩
    have hget : node.get part.1 = part.2 :=
      get_eq_of_mem (keys_nodup_of_isDocumented h.node) (List.mem_of_mem_filter hpart)
    rcases speaksUnder_iff.mp hspeaks part hpart with hkey | hsilent
    · exact ⟨part.1, hkey, hp, hget ▸ hentry⟩
    · rw [standings_eq_empty_of_isSilent hsilent] at hentry
      exact hentry.elim
  · rintro ⟨key, hkey, hp, hentry⟩
    rcases get_eq_null_or_mem node key with hnull | hmem
    · rw [hnull, standings_eq_empty_of_nodes rfl] at hentry
      exact hentry.elim
    · exact ⟨(key, node.get key), List.mem_filter.mpr ⟨hmem, by simpa using hkeys key hkey⟩,
        hp, hentry⟩

section Node

variable {kind : String}

theorem binding?_eq_none (hassign : node.hasKind "AssignStmt" = false)
    (hspec : node.hasKind "ValueSpec" = false) : node.binding? standing = none := by
  unfold Members.binding?
  rw [hassign, hspec]
  cases standing <;> rfl

/-- **The calls of a documented node are those of its parts**, if it is no call itself and binds
nothing. -/
theorem standings_of_speaksUnder (keys : List String) (h : (Json.obj node).Documented)
    (hspeaks : node.speaksUnder keys = true) (hkeys : ∀ key ∈ keys, key ∉ annotationKeys)
    (hcall : node.hasKind "CallExpr" = false) (hfree : node.binding? standing = none) :
    (Json.obj node).standings standing = node.standingsUnder (node.handsDown standing) keys := by
  ext entry
  rw [mem_standings_obj, mem_standingsUnder, hcall, hfree]
  simpa using exists_part_iff (fun _ => True) h hspeaks hkeys (node.handsDown standing) entry

theorem standings_node (keys : List String) (h : (Json.obj node).Documented)
    (hkind : node.hasKind kind = true)
    (hclosed : (NodeForm.ofKind kind (node.get "tok")).closed = true)
    (hparts : (NodeForm.ofKind kind (node.get "tok")).parts.all (keys.contains ·.1) = true)
    (hkeys : ∀ key ∈ keys, key ∉ annotationKeys)
    (hplain : kind ∉ ["CallExpr", "AssignStmt", "ValueSpec"]) :
    (Json.obj node).standings standing = node.standingsUnder (node.handsDown standing) keys := by
  have hother : ∀ name ∈ ["CallExpr", "AssignStmt", "ValueSpec"], node.hasKind name = false :=
    fun name hname => hasKind_unique hkind fun heq => hplain (heq ▸ hname)
  exact standings_of_speaksUnder keys h (speaksUnder_of_hasKind keys h hkind hclosed hparts) hkeys
    (hother _ (by simp)) (binding?_eq_none (hother _ (by simp)) (hother _ (by simp)))

theorem handsDown_eq_other
    (h : ∀ name ∈ ["ExprStmt", "GoStmt", "DeclStmt", "SelectorExpr", "GenDecl"],
      node.hasKind name = false) : node.handsDown standing = .other := by
  have hexpr := h "ExprStmt" (by simp)
  have hgo := h "GoStmt" (by simp)
  have hdecl := h "DeclStmt" (by simp)
  have hselector := h "SelectorExpr" (by simp)
  have hgeneral := h "GenDecl" (by simp)
  unfold Members.handsDown
  cases standing <;> simp [hexpr, hgo, hdecl, hselector, hgeneral]

theorem handsDown_of_hasKind (hkind : node.hasKind kind = true)
    (hplain : kind ∉ ["ExprStmt", "GoStmt", "DeclStmt", "SelectorExpr", "GenDecl"]) :
    node.handsDown standing = .other :=
  handsDown_eq_other fun _ hname => hasKind_unique hkind fun heq => hplain (heq ▸ hname)

/-- **The calls of a call** are itself and those of its parts. -/
theorem standings_call (h : (Json.obj node).Documented)
    (hkind : node.hasKind "CallExpr" = true) :
    (Json.obj node).standings standing =
      node.standingsUnder .other ["fun", "args"] ∪ {(node, standing)} := by
  have hfree : node.binding? standing = none :=
    binding?_eq_none (hasKind_unique hkind (by simp)) (hasKind_unique hkind (by simp))
  ext entry
  have hparts := exists_part_iff (fun _ => True) h
    (speaksUnder_of_hasKind ["fun", "args"] h hkind rfl rfl) (by decide) .other entry
  simp only [true_and] at hparts
  rw [mem_standings_obj, hkind, hfree, handsDown_of_hasKind hkind (by simp), Set.mem_union,
    Set.mem_singleton_iff, mem_standingsUnder, ← hparts]
  simp [or_comm]

/-- **The calls of a node that binds values** are those of these values and those of its other
parts. -/
theorem standings_binding (keys : List String) {key : String}
    {values : List (Members × Standing)} (h : (Json.obj node).Documented)
    (hspeaks : node.speaksUnder (keys ++ [key]) = true)
    (hkeys : ∀ other ∈ keys ++ [key], other ∉ annotationKeys) (hkey : key ∉ keys)
    (hcall : node.hasKind "CallExpr" = false)
    (hbinding : node.binding? standing = some (key, values)) :
    (Json.obj node).standings standing =
      node.standingsUnder (node.handsDown standing) keys ∪ boundStandings values := by
  ext entry
  rw [mem_standings_obj, hcall, hbinding, Set.mem_union, mem_standingsUnder]
  -- The parts that are not bound are those under the other keys.
  have hfree : (∃ part ∈ node.parts, (∀ binding ∈ some (key, values), binding.1 ≠ part.1) ∧
      entry ∈ part.2.standings (node.handsDown standing)) ↔
        ∃ other ∈ keys, entry ∈ (node.get other).standings (node.handsDown standing) := by
    have hothers := exists_part_iff (key ≠ ·) h hspeaks hkeys (node.handsDown standing) entry
    simp only [Option.mem_some, forall_eq'] at hothers ⊢
    rw [hothers]
    constructor
    · rintro ⟨other, hother, hne, hentry⟩
      rcases List.mem_append.mp hother with hother | hother
      · exact ⟨other, hother, hentry⟩
      · exact absurd (List.mem_singleton.mp hother).symm hne
    · rintro ⟨other, hother, hentry⟩
      exact ⟨other, List.mem_append_left _ hother, fun heq => hkey (heq ▸ hother), hentry⟩
  rw [hfree]
  simp

theorem standings_assignment (h : (Json.obj node).Documented)
    (hkind : node.hasKind "AssignStmt" = true) :
    (Json.obj node).standings standing = (node.get "lhs").standings .other ∪ boundStandings
      (boundValues (.assigned (node.get "tok")) (node.nodesAt "lhs") (node.nodesAt "rhs")) := by
  rw [standings_binding ["lhs"] h
    (speaksUnder_of_hasKind ["lhs", "rhs"] h hkind rfl rfl) (by decide) (by simp)
    (hasKind_unique hkind (by simp)) (if_pos hkind), handsDown_of_hasKind hkind (by simp)]
  rfl

theorem standings_specified (h : (Json.obj node).Documented)
    (hkind : node.hasKind "ValueSpec" = true) :
    (Json.obj node).standings .specified = node.standingsUnder .other ["type", "names"] ∪
      boundStandings (boundValues .declared (node.nodesAt "names") (node.nodesAt "values")) := by
  have hbinding : node.binding? .specified =
      some ("values", boundValues .declared (node.nodesAt "names") (node.nodesAt "values")) := by
    rw [Members.binding?, hasKind_unique hkind (by simp), if_neg Bool.false_ne_true]
    exact if_pos hkind
  rw [standings_binding ["type", "names"] h
    (speaksUnder_of_hasKind ["type", "names", "values"] h hkind rfl rfl) (by decide) (by simp)
    (hasKind_unique hkind (by simp)) hbinding, handsDown_of_hasKind hkind (by simp)]

/-- Only a call makes a difference between a value that is assigned and any other. -/
theorem standings_assigned (hcall : node.hasKind "CallExpr" = false) (token : Json)
    (targets : List Members) :
    (Json.obj node).standings (.assigned token targets) = (Json.obj node).standings .other := by
  ext entry
  rw [mem_standings_obj, mem_standings_obj, hcall]
  simp only [Bool.false_eq_true, false_and, false_or]
  exact Iff.rfl

/-- There are no calls in an identifier. -/
theorem standings_identifier (h : (Json.obj node).Documented)
    (hident : node.hasKind "Ident" = true) : (Json.obj node).standings standing = ∅ :=
  standings_node [] h hident rfl rfl (by simp) (by simp)

end Node

/-- What the values of a bound list stand in. -/
theorem forall_boundValues {P : Standing → Prop} {bound : List Members → Standing}
    (hbound : ∀ targets, P (bound targets)) (hother : P .other) (targets values : List Members) :
    ∀ value ∈ boundValues bound targets values, P value.2 := by
  intro value hvalue
  unfold boundValues at hvalue
  split at hvalue
  · rw [List.mem_singleton.mp hvalue]
    exact hbound _
  · split at hvalue
    · obtain ⟨pair, -, rfl⟩ := List.mem_map.mp hvalue
      exact hbound _
    · obtain ⟨value, -, rfl⟩ := List.mem_map.mp hvalue
      exact hother

/-! ## Documented lists -/

/-- **Picking the nodes out of a documented list loses no call.** -/
theorem iUnion_nodesIn_standings {kinds : Option (List String)} {listed : List Members}
    (hform : (PartForm.nodes kinds).admits value = true) (hlisted : nodesIn value = .ok listed) :
    ⋃ node ∈ listed, (Json.obj node).standings standing = value.standings standing := by
  obtain ⟨items, hitems, rfl⟩ := nodesIn_eq_ok hlisted
  obtain ⟨hnodes, hall⟩ := admits_nodes hform hitems
  rcases elements_eq_ok hitems with rfl | rfl
  · rw [standings_arr]
    ext entry
    simp only [Set.mem_iUnion, exists_prop, List.mem_filterMap, members?_eq_some]
    constructor
    · rintro ⟨node, ⟨_, hitem, rfl⟩, hentry⟩
      exact ⟨.obj node, hitem, hentry⟩
    · rintro ⟨item, hitem, hentry⟩
      rcases admits_node (hall item hitem) with hnone | ⟨node, rfl, -⟩
      · rw [standings_eq_empty_of_nodes hnone] at hentry
        exact hentry.elim
      · exact ⟨node, ⟨_, hitem, rfl⟩, hentry⟩
  · rw [standings_eq_empty_of_nodes (hnodes.trans List.flatMap_nil)]
    simp

/-- There are no calls in a list of identifiers. -/
theorem standings_identifiers (hdoc : value.Documented)
    (hform : (PartForm.nodes (some ["Ident"])).admits value = true) :
    value.standings standing = ∅ := by
  cases value with
  | arr items =>
    rw [standings_arr]
    simp only [Set.iUnion_eq_empty]
    intro item hitem
    rcases admits_only (List.all_eq_true.mp hform item hitem) with hnone | ⟨node, rfl, hident⟩
    · exact standings_eq_empty_of_nodes hnone
    · exact standings_identifier (hdoc.item hitem) hident
  | obj node =>
    have hnone : (Json.obj node).nodes.isEmpty = true := hform
    exact standings_eq_empty_of_nodes (List.isEmpty_iff.mp hnone)
  | _ => exact standings_eq_empty_of_nodes rfl

/-! ## Every call stands somewhere -/

theorem exists_mem_boundValues {bound : List Members → Standing} {targets values : List Members}
    (h : node ∈ values) : ∃ standing, (node, standing) ∈ boundValues bound targets values := by
  rw [← map_fst_boundValues bound targets values] at h
  obtain ⟨entry, hentry, rfl⟩ := List.mem_map.mp h
  exact ⟨entry.2, hentry⟩

/-- What is bound by a documented node is the nodes of a list, all of them. -/
theorem of_binding?_documented {binding : String × List (Members × Standing)}
    (h : (Json.obj node).Documented) (hbinding : node.binding? standing = some binding) :
    (PartForm.nodes none).admits (node.get binding.1) = true ∧
      ∀ value ∈ node.nodesAt binding.1, ∃ found, (value, found) ∈ binding.2 := by
  unfold Members.binding? at hbinding
  split at hbinding
  case isTrue hkind =>
    obtain rfl := Option.some.inj hbinding
    exact ⟨h.admits hkind rfl, fun value => exists_mem_boundValues⟩
  case isFalse =>
    split at hbinding
    · split at hbinding
      case isTrue hkind =>
        obtain rfl := Option.some.inj hbinding
        exact ⟨h.admits hkind rfl, fun value => exists_mem_boundValues⟩
      case isFalse => cases hbinding
    · cases hbinding

theorem exists_mem_nodesAt {kinds : Option (List String)} {key : String} {below : Members}
    (hform : (PartForm.nodes kinds).admits (node.get key) = true)
    (hbelow : below ∈ (node.get key).nodes) :
    ∃ value ∈ node.nodesAt key, below ∈ (Json.obj value).nodes := by
  cases hvalue : node.get key with
  | arr items =>
    have hlisted : nodesIn (node.get key) = .ok (items.filterMap Json.members?) := by
      rw [hvalue]
      rfl
    rw [nodesAt_of_nodesIn hlisted]
    rw [← (flatMap_nodesIn_eq hform hlisted).1] at hbelow
    exact List.mem_flatMap.mp hbelow
  | obj members =>
    rw [hvalue] at hform
    have hnone : (Json.obj members).nodes.isEmpty = true := hform
    exact absurd (List.isEmpty_iff.mp hnone) (List.cons_ne_nil _ _)
  | _ =>
    rw [hvalue] at hbelow
    cases hbelow

/-- **Every call of a documented value stands somewhere in it.** -/
theorem exists_standing {call : Members} (hdoc : value.Documented) (hmem : call ∈ value.nodes)
    (hcall : call.hasKind "CallExpr" = true) (inherited : Standing) :
    ∃ standing, (call, standing) ∈ value.standings inherited := by
  -- The induction is on heights, since a bound value is not a part of the node that binds it.
  induction hheight : value.height using Nat.strongRecOn generalizing value inherited with
  | ind height ih =>
    subst hheight
    cases value with
    | arr items =>
      rw [nodes_arr] at hmem
      obtain ⟨item, hitem, hmem⟩ := List.mem_flatMap.mp hmem
      obtain ⟨standing, h⟩ :=
        ih _ (Json.height_lt_of_mem hitem) (hdoc.item hitem) hmem inherited rfl
      exact ⟨standing, .item hitem h⟩
    | obj node =>
      rw [nodes_obj, inner_eq_flatMap_parts] at hmem
      rcases List.mem_cons.mp hmem with rfl | hmem
      · exact ⟨inherited, .here hcall⟩
      obtain ⟨part, hpart, hmem⟩ := List.mem_flatMap.mp hmem
      by_cases hfree : ∀ binding ∈ Members.binding? node inherited, binding.1 ≠ part.1
      · obtain ⟨standing, h⟩ := ih part.2.height
          (Nat.lt_succ_of_le (Json.height_le_heightOfMembers (List.mem_of_mem_filter hpart)))
          (hdoc.part hpart) hmem (Members.handsDown node inherited) rfl
        exact ⟨standing, .part hpart hfree h⟩
      · -- The call is below one of the values that are bound.
        push Not at hfree
        obtain ⟨binding, hbinding, hkey⟩ := hfree
        obtain ⟨hform, hcovers⟩ := of_binding?_documented hdoc hbinding
        have hget : Members.get node binding.1 = part.2 := by
          rw [hkey]
          exact get_eq_of_mem (keys_nodup_of_isDocumented hdoc.node)
            (List.mem_of_mem_filter hpart)
        obtain ⟨value, hvalue, hbelow⟩ := exists_mem_nodesAt hform (hget ▸ hmem)
        have hlisted := nodesIn_of_mem_nodesAt hvalue
        obtain ⟨found, hfound⟩ := hcovers value hvalue
        obtain ⟨standing, h⟩ := ih _ (height_lt_of_mem_nodesIn_get hlisted hvalue)
          ((hdoc.get _ (exists_of_binding? hbinding).1).of_nodesIn hlisted hvalue) hbelow found rfl
        exact ⟨standing, .bound hbinding hfound h⟩
    | _ => cases hmem

end GoConventions
