import GoConventions.Proofs.Tree.Forms

/-!
# Identifiers and calls among nodes

What a tree mentions: its identifiers, those of them that are selected from an operand, and its
calls.  Two lists of nodes are as good as each other for a reader when they have the same mentions,
each as often, in whatever order (`SameMentions`).  So the parts that are picked out of a documented
node stand for all that lies below it (`sameMentions_nodesUnder`).

## Main definitions

* `Mention`, `Members.mention?`: what a node mentions.
* `SameMentions`: lists of nodes with the same mentions.

## Main results

* `sameMentions_flatMap_get`: the parts under the keys that speak have all mentions of a node.
-/

namespace GoConventions

/-- What a node is recorded for. -/
inductive Mention where
  | identifier
  /-- The identifier that is selected from an operand. -/
  | selected
  | call
  deriving DecidableEq, Repr

/-- The node that is mentioned by a node: an identifier or a call mentions itself, and a selection
the identifier that it selects. -/
def Members.mention? : Mention → Members → Option Members
  | .identifier, node => if node.hasKind "Ident" then some node else none
  | .selected, node =>
    if node.hasKind "SelectorExpr" then
      (node.get "sel").members?.filter fun selected => Members.hasKind selected "Ident"
    else none
  | .call, node => if node.hasKind "CallExpr" then some node else none

/-- The nodes that a list of nodes mentions. -/
def mentionsIn (mention : Mention) (nodes : List Members) : List Members :=
  nodes.filterMap (Members.mention? mention)

theorem mentionsIn_append (mention : Mention) (nodes more : List Members) :
    mentionsIn mention (nodes ++ more) = mentionsIn mention nodes ++ mentionsIn mention more :=
  List.filterMap_append

theorem mentionsIn_cons (mention : Mention) (node : Members) (nodes : List Members) :
    mentionsIn mention (node :: nodes) =
      (node.mention? mention).toList ++ mentionsIn mention nodes := by
  rw [mentionsIn, List.filterMap_cons]
  cases node.mention? mention <;> rfl

/-- Lists of nodes with the same mentions, each as often. -/
def SameMentions (nodes more : List Members) : Prop :=
  ∀ mention, (mentionsIn mention nodes).Perm (mentionsIn mention more)

namespace SameMentions

variable {nodes more others : List Members}

theorem refl (nodes : List Members) : SameMentions nodes nodes :=
  fun _ => List.Perm.refl _

theorem of_eq (h : nodes = more) : SameMentions nodes more :=
  h ▸ refl nodes

theorem symm (h : SameMentions nodes more) : SameMentions more nodes :=
  fun mention => (h mention).symm

theorem trans (hfirst : SameMentions nodes more) (hsecond : SameMentions more others) :
    SameMentions nodes others :=
  fun mention => (hfirst mention).trans (hsecond mention)

theorem of_perm (h : nodes.Perm more) : SameMentions nodes more :=
  fun _ => h.filterMap _

theorem append {rest : List Members} (h : SameMentions nodes more)
    (hrest : SameMentions others rest) : SameMentions (nodes ++ others) (more ++ rest) := by
  intro mention
  rw [mentionsIn_append, mentionsIn_append]
  exact (h mention).append (hrest mention)

theorem cons (node : Members) (h : SameMentions nodes more) :
    SameMentions (node :: nodes) (node :: more) :=
  append (refl [node]) h

/-- Elements with the same mentions make lists with the same mentions. -/
theorem flatMap {α : Type} {xs : List α} {f g : α → List Members}
    (h : ∀ x ∈ xs, SameMentions (f x) (g x)) : SameMentions (xs.flatMap f) (xs.flatMap g) := by
  induction xs with
  | nil => exact refl []
  | cons x xs ih =>
    rw [List.flatMap_cons, List.flatMap_cons]
    exact (h x (by simp)).append (ih fun y hy => h y (by simp [hy]))

end SameMentions

/-! ## Nodes that mention nothing -/

/-- A node that is neither an identifier nor a selection nor a call mentions nothing. -/
theorem mention?_eq_none {node : Members} (hident : node.hasKind "Ident" = false)
    (hselector : node.hasKind "SelectorExpr" = false) (hcall : node.hasKind "CallExpr" = false)
    (mention : Mention) : node.mention? mention = none := by
  cases mention with
  | identifier => rw [Members.mention?, hident]; rfl
  | selected => rw [Members.mention?, hselector]; rfl
  | call => rw [Members.mention?, hcall]; rfl

/-- **A silent value mentions nothing**: what a selection selects lies below it. -/
theorem mentionsIn_of_isSilent {value : Json} (h : value.isSilent = true) (mention : Mention) :
    mentionsIn mention value.nodes = [] := by
  have hsilent : ∀ node ∈ value.nodes,
      node.hasKind "Ident" = false ∧ node.hasKind "CallExpr" = false := by
    simpa [Json.isSilent] using h
  refine List.filterMap_eq_nil_iff.mpr fun node hnode => ?_
  obtain ⟨hident, hcall⟩ := hsilent node hnode
  cases mention with
  | identifier => rw [Members.mention?, hident]; rfl
  | call => rw [Members.mention?, hcall]; rfl
  | selected =>
    rw [Members.mention?]
    split
    case isFalse => rfl
    case isTrue =>
      refine Option.filter_eq_none_iff.mpr fun selected hselected => ?_
      have hsel := members?_eq_some.mp hselected
      have hmem : selected ∈ (node.get "sel").nodes := by
        rw [hsel]
        exact List.mem_cons_self
      have hbelow := nodes_trans hnode ((nodes_get_subperm (by decide) node).subset hmem)
      simp [(hsilent selected hbelow).1]

theorem sameMentions_nil_of_isSilent {value : Json} (h : value.isSilent = true) :
    SameMentions [] value.nodes := by
  intro mention
  rw [mentionsIn_of_isSilent h]
  rfl

/-! ## The parts of a documented node -/

theorem get_eq_of_mem {node : Members} (hnodup : (node.map (·.1)).Nodup) {key : String}
    {value : Json} (hmem : (key, value) ∈ node) : node.get key = value := by
  induction node with
  | nil => cases hmem
  | cons member members ih =>
    obtain ⟨other, first⟩ := member
    obtain ⟨hfresh, hrest⟩ := List.nodup_cons.mp hnodup
    rw [get_cons]
    rcases List.mem_cons.mp hmem with heq | hlater
    · obtain ⟨rfl, rfl⟩ := Prod.mk.inj heq
      rw [if_pos rfl]
    · have hne : key ≠ other := by
        rintro rfl
        exact hfresh (List.mem_map.mpr ⟨_, hlater, rfl⟩)
      rw [if_neg hne]
      exact ih hrest hlater

/-- **The parts under the keys that speak have all mentions of a node.** -/
theorem sameMentions_flatMap_get {keys : List String} (hnodup : keys.Nodup)
    (hkeys : ∀ key ∈ keys, key ∉ annotationKeys) {node : Members}
    (hnode : (node.map (·.1)).Nodup) (hspeaks : node.speaksUnder keys = true) :
    SameMentions (keys.flatMap fun key => (node.get key).nodes) node.inner := by
  induction node generalizing keys with
  | nil => exact SameMentions.of_eq (List.flatMap_eq_nil_iff.mpr fun _ _ => rfl)
  | cons member members ih =>
    obtain ⟨key, value⟩ := member
    obtain ⟨hfresh, hrest⟩ := List.nodup_cons.mp hnode
    have hspeaksOf := speaksUnder_iff.mp hspeaks
    have hlater : ∀ part ∈ Members.parts members, part.1 ≠ key ∧
        (part.1 ∈ keys ∨ part.2.isSilent = true) := by
      intro part hpart
      obtain ⟨hmem, hannotation⟩ := List.mem_filter.mp hpart
      refine ⟨fun heq => hfresh (List.mem_map.mpr ⟨part, hmem, heq⟩), hspeaksOf part ?_⟩
      exact List.mem_filter.mpr ⟨List.mem_cons_of_mem _ hmem, hannotation⟩
    rw [inner_cons]
    by_cases hkey : key ∈ keys
    · -- Keys do not repeat, so no other key and no later member has to do with this one.
      rw [if_neg (by simpa using hkeys key hkey)]
      have hperm := flatMap_get_cons_of_mem hnodup hkey value members
      refine (SameMentions.of_perm hperm).trans ((SameMentions.refl _).append ?_)
      refine ih (hnodup.erase key) (fun other hother => hkeys other (List.mem_of_mem_erase hother))
        hrest (speaksUnder_iff.mpr fun part hpart => ?_)
      exact (hlater part hpart).2.imp (hnodup.mem_erase_iff.mpr ⟨(hlater part hpart).1, ·⟩) id
    · -- Nothing looks at the member, so it has to be silent unless it is an annotation.
      rw [flatMap_get_cons_of_notMem hkey, ← List.nil_append (keys.flatMap _)]
      refine SameMentions.append ?_
        (ih hnodup hkeys hrest (speaksUnder_iff.mpr fun part hpart => (hlater part hpart).2))
      split
      case isTrue => exact SameMentions.refl []
      case isFalse hannotation =>
        refine sameMentions_nil_of_isSilent ((hspeaksOf (key, value) ?_).resolve_left hkey)
        exact List.mem_filter.mpr ⟨List.mem_cons_self, by simpa using hannotation⟩

section Parts

variable {node : Members} {kind : String}

/-- What stands under a key of a documented node. -/
theorem Json.Documented.admits {key : String} {form : PartForm} (h : (Json.obj node).Documented)
    (hkind : node.hasKind kind = true)
    (hpart : (NodeForm.ofKind kind (node.get "tok")).parts.lookup key = some form) :
    form.admits (node.get key) = true := by
  obtain ⟨before, after, hparts, -⟩ := List.lookup_eq_some_iff.mp hpart
  refine admits_of_isDocumented h.node ?_
  rw [form_of_hasKind hkind, hparts]
  exact List.mem_append_right before List.mem_cons_self

theorem sameMentions_of_speaksUnder {keys : List String} (h : (Json.obj node).Documented)
    (hspeaks : node.speaksUnder keys = true) (hkeys : (annotationKeys ++ keys).Nodup) :
    SameMentions (node.nodesUnder keys) node.inner := by
  obtain ⟨-, hnodup, hother⟩ := List.nodup_append.mp hkeys
  rw [nodesUnder_eq_flatMap]
  exact sameMentions_flatMap_get hnodup (fun key hkey hmem => hother key hmem key hkey rfl)
    (keys_nodup_of_isDocumented h.node) hspeaks

/-- No parts but the documented ones speak, when the form of a node is closed. -/
theorem speaksUnder_of_hasKind (keys : List String) (h : (Json.obj node).Documented)
    (hkind : node.hasKind kind = true)
    (hclosed : (NodeForm.ofKind kind (node.get "tok")).closed = true)
    (hparts : (NodeForm.ofKind kind (node.get "tok")).parts.all (keys.contains ·.1) = true) :
    node.speaksUnder keys = true := by
  rw [← form_of_hasKind hkind] at hclosed hparts
  refine speaksUnder_mono (speaksUnder_of_isDocumented h.node hclosed) fun key hkey => ?_
  obtain ⟨part, hpart, rfl⟩ := List.mem_map.mp hkey
  exact List.contains_iff_mem.mp (List.all_eq_true.mp hparts part hpart)

/-- **The documented parts have all mentions of a node**, when its form is closed. -/
theorem sameMentions_nodesUnder (keys : List String) (h : (Json.obj node).Documented)
    (hkind : node.hasKind kind = true)
    (hclosed : (NodeForm.ofKind kind (node.get "tok")).closed = true)
    (hparts : (NodeForm.ofKind kind (node.get "tok")).parts.all (keys.contains ·.1) = true)
    (hkeys : (annotationKeys ++ keys).Nodup) : SameMentions (node.nodesUnder keys) node.inner :=
  sameMentions_of_speaksUnder h (speaksUnder_of_hasKind keys h hkind hclosed hparts) hkeys

end Parts

end GoConventions
