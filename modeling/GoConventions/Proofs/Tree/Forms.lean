import GoConventions.Proofs.Tree.Nodes

/-!
# The documented forms of nodes

A reader picks the parts of most nodes by their keys, and passes over what it does not expect.  So
nothing is lost only if every node has the form that is documented for its kind: parts under the
known keys, of the known kinds, and no identifier or call anywhere else.  Kinds without a form of
their own are walked part by part, and may have any parts.  Where the keys of a kind are left open,
its form has those of the syntax tree of the language.

Types, and the types of functions, may have type parameters beside their documented parts, under any
key.

## Main definitions

* `PartForm`, `NodeForm`, `Members.form`: the form of the nodes of a kind.
* `Members.isDocumented`, `Json.Documented`: a node, and all nodes of a value, have their forms.
* `Json.isSilent`: a value holds no identifier and no call.

## Main results

* `flatMap_nodesIn_eq`: picking the nodes out of a documented list loses none.
-/

namespace GoConventions

/-- No node of a value is an identifier or a call. -/
def Json.isSilent (value : Json) : Bool :=
  value.nodes.all fun node => !node.hasKind "Ident" && !node.hasKind "CallExpr"

/-- All parts of a node under other keys are silent. -/
def Members.speaksUnder (node : Members) (keys : List String) : Bool :=
  node.parts.all fun part => keys.contains part.1 || part.2.isSilent

/-- Whether a value is a node, and of one of the kinds if any are given. -/
def Json.isNodeOf (kinds : Option (List String)) : Json → Bool
  | .obj node => kinds.all fun names => names.any (Members.hasKind node)
  | _ => false

/-- What may stand under a key of a node.  Wherever a node is expected there may be none. -/
inductive PartForm where
  | anything
  /-- A node, of one of the kinds if any are given. -/
  | node (kinds : Option (List String))
  /-- A list of nodes, of one of the kinds if any are given. -/
  | nodes (kinds : Option (List String))
  /-- The type of a function that has no type parameters. -/
  | signature
  deriving DecidableEq, Repr

def PartForm.admits : PartForm → Json → Bool
  | .anything, _ => true
  | .node kinds, value => value.nodes.isEmpty || value.isNodeOf kinds
  | .nodes kinds, .arr items =>
    items.all fun item => item.nodes.isEmpty || item.isNodeOf kinds
  | .nodes _, value => value.nodes.isEmpty
  | .signature, .obj type =>
    Members.hasKind type "FuncType" && Members.speaksUnder type ["params", "results"]
  | .signature, value => value.nodes.isEmpty

/-- The parts that the nodes of a kind have. -/
structure NodeForm where
  parts : List (String × PartForm)
  /-- Whether all other parts are silent. -/
  closed : Bool

/-- The form of the nodes of a kind.  A declaration has the specifications that its token says. -/
def NodeForm.ofKind (kind : String) (token : Json) : NodeForm :=
  match kind with
  | "Ident" => ⟨[], true⟩
  | "SelectorExpr" => ⟨[("x", .anything), ("sel", .node (some ["Ident"]))], true⟩
  | "CallExpr" => ⟨[("fun", .anything), ("args", .nodes none)], true⟩
  | "FuncLit" => ⟨[("type", .signature), ("body", .node (some ["BlockStmt"]))], true⟩
  | "FuncType" =>
    ⟨[("params", .node (some ["FieldList"])), ("results", .node (some ["FieldList"]))], false⟩
  | "FieldList" => ⟨[("list", .nodes (some ["Field"]))], true⟩
  | "Field" => ⟨[("names", .nodes (some ["Ident"])), ("type", .anything)], true⟩
  | "BlockStmt" => ⟨[("list", .nodes none)], true⟩
  | "IfStmt" =>
    ⟨[("init", .anything), ("cond", .anything), ("body", .node (some ["BlockStmt"])),
      ("else", .node (some ["IfStmt", "BlockStmt"]))], true⟩
  | "RangeStmt" => ⟨[("body", .node (some ["BlockStmt"]))], false⟩
  | "ForStmt" => ⟨[("body", .node (some ["BlockStmt"]))], false⟩
  | "SwitchStmt" => ⟨[("body", .node (some ["BlockStmt"]))], false⟩
  | "TypeSwitchStmt" => ⟨[("body", .node (some ["BlockStmt"]))], false⟩
  | "SelectStmt" => ⟨[("body", .node (some ["BlockStmt"]))], false⟩
  | "CaseClause" => ⟨[("list", .anything), ("body", .anything)], true⟩
  | "CommClause" => ⟨[("comm", .anything), ("body", .anything)], true⟩
  | "AssignStmt" => ⟨[("lhs", .nodes none), ("rhs", .nodes none)], true⟩
  | "DeclStmt" => ⟨[("decl", .node (some ["GenDecl"]))], true⟩
  | "GenDecl" => ⟨[("specs", .nodes (some [specification]))], true⟩
  | "ValueSpec" =>
    ⟨[("names", .nodes (some ["Ident"])), ("type", .anything), ("values", .nodes none)], true⟩
  | "TypeSpec" => ⟨[("name", .node (some ["Ident"])), ("type", .anything)], false⟩
  | "FuncDecl" =>
    ⟨[("name", .node (some ["Ident"])), ("recv", .node (some ["FieldList"])),
      ("type", .node (some ["FuncType"])), ("body", .node (some ["BlockStmt"]))], true⟩
  | _ => ⟨[], false⟩
where
  specification : String :=
    if token.isText "import" then "ImportSpec"
    else if token.isText "type" then "TypeSpec" else "ValueSpec"

/-- The form of a node. -/
def Members.form (node : Members) : NodeForm :=
  match node.get "kind" with
  | .str kind => .ofKind kind (node.get "tok")
  | _ => ⟨[], false⟩

/-- Whether a node has a kind.  Objects that hold no identifier and no call need none. -/
def Members.isKinded (node : Members) : Bool :=
  match node.get "kind" with
  | .null => (Json.obj node).isSilent
  | _ => true

/-- Whether a node has the form of its kind, and its members have different keys. -/
def Members.isDocumented (node : Members) : Bool :=
  decide (node.map (·.1)).Nodup && node.isKinded &&
    (node.form.parts.all fun part => part.2.admits (node.get part.1)) &&
    (!node.form.closed || node.speaksUnder (node.form.parts.map (·.1)))

/-- All nodes of a value have their forms. -/
def Json.Documented (value : Json) : Prop :=
  ∀ node ∈ value.nodes, node.isDocumented = true

instance (value : Json) : Decidable value.Documented :=
  inferInstanceAs (Decidable (∀ node ∈ value.nodes, node.isDocumented = true))

/-! ## What a documented node says -/

section Node

variable {node : Members}

theorem keys_nodup_of_isDocumented (h : node.isDocumented = true) : (node.map (·.1)).Nodup := by
  simp only [Members.isDocumented, Bool.and_eq_true, decide_eq_true_eq] at h
  exact h.1.1.1

theorem isKinded_of_isDocumented (h : node.isDocumented = true) : node.isKinded = true := by
  simp only [Members.isDocumented, Bool.and_eq_true] at h
  exact h.1.1.2

theorem admits_of_isDocumented {key : String} {form : PartForm} (h : node.isDocumented = true)
    (hpart : (key, form) ∈ node.form.parts) : form.admits (node.get key) = true := by
  simp only [Members.isDocumented, Bool.and_eq_true, List.all_eq_true] at h
  exact h.1.2 (key, form) hpart

theorem speaksUnder_of_isDocumented (h : node.isDocumented = true)
    (hclosed : node.form.closed = true) :
    node.speaksUnder (node.form.parts.map (·.1)) = true := by
  simp only [Members.isDocumented, Bool.and_eq_true, hclosed, Bool.not_true, Bool.false_or] at h
  exact h.2

/-- A kind determines the form. -/
theorem form_of_hasKind {kind : String} (h : node.hasKind kind = true) :
    node.form = .ofKind kind (node.get "tok") := by
  unfold Members.hasKind Json.isText at h
  unfold Members.form
  cases hkind : node.get "kind" with
  | str name =>
    rw [hkind] at h
    obtain rfl := beq_iff_eq.mp h
    rfl
  | _ =>
    rw [hkind] at h
    cases h

theorem speaksUnder_iff {keys : List String} : node.speaksUnder keys = true ↔
    ∀ part ∈ node.parts, part.1 ∈ keys ∨ part.2.isSilent = true := by
  simp [Members.speaksUnder]

theorem speaksUnder_mono {keys more : List String} (h : node.speaksUnder keys = true)
    (hsubset : keys ⊆ more) : node.speaksUnder more = true :=
  speaksUnder_iff.mpr fun part hpart => (speaksUnder_iff.mp h part hpart).imp (hsubset ·) id

end Node

/-! ## Parts -/

theorem eq_obj_of_isNodeOf {kinds : Option (List String)} {value : Json}
    (h : value.isNodeOf kinds = true) :
    ∃ node, value = .obj node ∧
      ∀ names ∈ kinds, ∃ name ∈ names, Members.hasKind node name = true := by
  cases value with
  | obj node =>
    refine ⟨node, rfl, fun names hnames => ?_⟩
    simpa [Json.isNodeOf, Option.mem_def.mp hnames] using h
  | _ => cases h

/-- A value that is a node or holds none. -/
theorem admits_node {kinds : Option (List String)} {value : Json}
    (h : (PartForm.node kinds).admits value = true) :
    value.nodes = [] ∨ ∃ node, value = .obj node ∧
      ∀ names ∈ kinds, ∃ name ∈ names, Members.hasKind node name = true := by
  rw [PartForm.admits, Bool.or_eq_true, List.isEmpty_iff] at h
  exact h.imp id eq_obj_of_isNodeOf

/-- A value that is a node of one kind or holds none. -/
theorem admits_only {kind : String} {value : Json}
    (h : (PartForm.node (some [kind])).admits value = true) :
    value.nodes = [] ∨ ∃ node, value = .obj node ∧ Members.hasKind node kind = true := by
  refine (admits_node h).imp id fun ⟨node, hvalue, hkinds⟩ => ⟨node, hvalue, ?_⟩
  obtain ⟨name, hname, hkind⟩ := hkinds _ rfl
  rwa [List.mem_singleton.mp hname] at hkind

theorem admits_nodes {kinds : Option (List String)} {value : Json} {items : List Json}
    (h : (PartForm.nodes kinds).admits value = true) (hitems : elements value = .ok items) :
    value.nodes = items.flatMap Json.nodes ∧
      ∀ item ∈ items, (PartForm.node kinds).admits item = true := by
  rcases elements_eq_ok hitems with rfl | rfl
  · exact ⟨nodes_arr items, List.all_eq_true.mp h⟩
  · cases value with
    | arr others =>
      obtain rfl : others = [] := Except.ok.inj hitems
      exact ⟨rfl, by simp⟩
    | _ => exact ⟨List.isEmpty_iff.mp h, by simp⟩

/-- **Picking the nodes out of a documented list loses none.** -/
theorem flatMap_nodesIn_eq {kinds : Option (List String)} {value : Json} {listed : List Members}
    (h : (PartForm.nodes kinds).admits value = true) (hlisted : nodesIn value = .ok listed) :
    (listed.flatMap fun node => (Json.obj node).nodes) = value.nodes ∧
      ∀ node ∈ listed, ∀ names ∈ kinds, ∃ name ∈ names, node.hasKind name = true := by
  obtain ⟨items, hitems, rfl⟩ := nodesIn_eq_ok hlisted
  obtain ⟨hnodes, hall⟩ := admits_nodes h hitems
  rw [hnodes]
  clear hnodes h hlisted hitems
  induction items with
  | nil => exact ⟨rfl, by simp⟩
  | cons item items ih =>
    obtain ⟨hrest, hkinds⟩ := ih fun other hother => hall other (by simp [hother])
    rcases admits_node (hall item (by simp)) with hnone | ⟨node, rfl, hnode⟩
    · rw [List.filterMap_cons_none (members?_eq_none hnone), List.flatMap_cons, hnone,
        List.nil_append]
      exact ⟨hrest, hkinds⟩
    · have hmembers : (Json.obj node).members? = some node := rfl
      rw [List.filterMap_cons_some hmembers, List.flatMap_cons, List.flatMap_cons, hrest]
      exact ⟨rfl, List.forall_mem_cons.mpr ⟨hnode, hkinds⟩⟩

/-- The nodes of a documented list of one kind. -/
theorem hasKind_of_mem_nodesIn {kind : String} {value : Json} {listed : List Members}
    {node : Members} (h : (PartForm.nodes (some [kind])).admits value = true)
    (hlisted : nodesIn value = .ok listed) (hnode : node ∈ listed) : node.hasKind kind = true := by
  obtain ⟨name, hname, hkind⟩ := (flatMap_nodesIn_eq h hlisted).2 node hnode _ rfl
  rwa [List.mem_singleton.mp hname] at hkind

theorem admits_signature {value : Json} (h : PartForm.signature.admits value = true) :
    value.nodes = [] ∨ ∃ type, value = .obj type ∧ Members.hasKind type "FuncType" = true ∧
      Members.speaksUnder type ["params", "results"] = true := by
  cases value with
  | obj type => exact Or.inr ⟨type, rfl, Bool.and_eq_true_iff.mp h⟩
  | arr items => exact Or.inl (List.isEmpty_iff.mp h)
  | _ => exact Or.inl rfl

/-! ## Nodes below documented values -/

namespace Json.Documented

theorem node {members : Members} (h : (Json.obj members).Documented) :
    members.isDocumented = true :=
  h members List.mem_cons_self

theorem subset {value other : Json} (h : value.Documented) (hsubset : other.nodes ⊆ value.nodes) :
    other.Documented :=
  fun node hnode => h node (hsubset hnode)

theorem get {node : Members} (h : (Json.obj node).Documented) (key : String)
    (hkey : key ∉ annotationKeys) : (node.get key).Documented :=
  h.subset fun _ hbelow =>
    List.mem_cons_of_mem _ ((nodes_get_subperm hkey node).subset hbelow)

theorem item {items : List Json} {item : Json} (h : (Json.arr items).Documented)
    (hitem : item ∈ items) : item.Documented :=
  h.subset fun below hbelow => by
    rw [nodes_arr]
    exact List.mem_flatMap.mpr ⟨item, hitem, hbelow⟩

theorem part {node : Members} {part : String × Json} (h : (Json.obj node).Documented)
    (hpart : part ∈ node.parts) : part.2.Documented :=
  h.subset fun below hbelow => by
    rw [nodes_obj, inner_eq_flatMap_parts]
    exact List.mem_cons_of_mem _ (List.mem_flatMap.mpr ⟨part, hpart, hbelow⟩)

theorem of_nodesIn {value : Json} {listed : List Members} {node : Members} (h : value.Documented)
    (hlisted : nodesIn value = .ok listed) (hnode : node ∈ listed) :
    (Json.obj node).Documented :=
  h.subset fun _ hbelow => (flatMap_nodesIn_sublist hlisted).subset
    (List.mem_flatMap.mpr ⟨node, hnode, hbelow⟩)

end Json.Documented

end GoConventions
