import GoConventions.Proofs.Tree.TranscribedFile

/-!
# Where values are specified

Which specifications of values a reader comes to is told by the tree alone, whatever the tree looks
like.  From a node the walk goes on with certain values (`Members.walked`), which depend on the kind
of the node; a declaration statement of variables or constants is read specification by
specification, and so is such a declaration of the file.

## Main definitions

* `Json.Below`: a value stands below a node.
* `Members.walked`: the values with which a walk goes on from a node.
* `SpecifiedIn`, `Members.Specifies`: the specifications that are read in a value and in a file.

## Main results

* `below_of_mem_walkedAs`: a walk goes on with values below the node.
* `specifiedIn_obj`: the specifications in a node are its own and those in the values with which
  the walk goes on.
-/

namespace GoConventions

/-! ## Values below a node -/

/-- A value stands below a node: it is less high, and its nodes are among those below the node. -/
structure Json.Below (part : Json) (node : Members) : Prop where
  height_lt : part.height < (Json.obj node).height
  nodes_subset : part.nodes ⊆ node.inner

/-- The member of a node as a node; one that is no node has no members. -/
def Members.memberAt (node : Members) (key : String) : Members :=
  (node.get key).members?.getD []

section Below

variable {node inner : Members} {part : Json} {key : String}

theorem Json.Below.nodes_subset_nodes (h : part.Below node) :
    part.nodes ⊆ (Json.obj node).nodes :=
  List.Subset.trans h.nodes_subset (inner_sublist_nodes node).subset

theorem Json.Below.trans (hpart : part.Below inner) (hinner : (Json.obj inner).Below node) :
    part.Below node :=
  ⟨Nat.lt_trans hpart.height_lt hinner.height_lt,
    List.Subset.trans hpart.nodes_subset_nodes hinner.nodes_subset⟩

theorem below_get (hkey : key ∉ annotationKeys) : (node.get key).Below node :=
  ⟨height_get_lt node key, (nodes_get_subperm hkey node).subset⟩

theorem below_of_mem_nodesAt (hkey : key ∉ annotationKeys) (h : inner ∈ node.nodesAt key) :
    (Json.obj inner).Below node :=
  ⟨height_lt_of_mem_nodesIn_get (nodesIn_of_mem_nodesAt h) h,
    nodes_subset_inner hkey (nodesIn_of_mem_nodesAt h) h⟩

theorem below_of_mem_parts {part : String × Json} (h : part ∈ node.parts) :
    part.2.Below node := by
  refine ⟨Nat.lt_succ_of_le (Json.height_le_heightOfMembers (List.mem_of_mem_filter h)), ?_⟩
  rw [inner_eq_flatMap_parts]
  exact fun _ hbelow => List.mem_flatMap.mpr ⟨part, h, hbelow⟩

/-- What stands below a member stands below the node. -/
theorem below_of_below_memberAt (hkey : key ∉ annotationKeys)
    (h : part.Below (node.memberAt key)) : part.Below node := by
  unfold Members.memberAt at h
  cases hvalue : (node.get key).members? with
  | some member =>
    rw [hvalue] at h
    have hmember : (Json.obj member).Below node := members?_eq_some.mp hvalue ▸ below_get hkey
    exact Json.Below.trans h hmember
  | none =>
    -- Nothing stands below a node without members.
    rw [hvalue] at h
    exact ⟨Nat.lt_of_lt_of_le h.height_lt (Nat.succ_le_succ (Nat.zero_le _)),
      fun _ hbelow => nomatch h.nodes_subset hbelow⟩

end Below

/-! ## Where a walk goes on -/

/-- The items of a list under a key. -/
def Members.itemsAt (node : Members) (key : String) : List Json :=
  (elements (node.get key)).toOption.getD []

/-- The statements of a body. -/
def Json.statements : Json → List Json
  | .obj block => Members.itemsAt block "list"
  | _ => []

/-- The types of the fields of a field list. -/
def Json.fieldTypes (fieldList : Json) : List Json :=
  ((fieldsOf fieldList).toOption.getD []).map fun field => field.get "type"

/-- The types of the parameters and results of a signature. -/
def Members.signatureTypes (signature : Members) : List Json :=
  (signature.get "params").fieldTypes ++ (signature.get "results").fieldTypes

/-- The type and the values of a specification of values. -/
def Members.valueParts (spec : Members) : List Json :=
  spec.get "type" :: (spec.nodesAt "values").map .obj

/-- The specifications of a declaration of variables or constants. -/
def Members.valueSpecs (decl : Members) : List Members :=
  if (decl.get "tok").isText "var" || (decl.get "tok").isText "const" then decl.nodesAt "specs"
  else []

/-- With what a walk goes on in a declaration among statements. -/
def Members.declarationParts (decl : Members) : List Json :=
  if (decl.get "tok").isText "var" || (decl.get "tok").isText "const" then
    (decl.nodesAt "specs").flatMap Members.valueParts
  else (decl.nodesAt "specs").map .obj

/-- With what a walk goes on in the alternative of a conditional. -/
def Json.alternativeParts (value : Json) : List Json :=
  if value.hasKind "IfStmt" then [value]
  else if value.hasKind "BlockStmt" then value.statements
  else []

/-- With what a walk goes on in a part of a statement that opens a scope: its body is gone through
at once. -/
def scopedParts (part : String × Json) : List Json :=
  match part with
  | ("body", .obj body) => (Json.obj body).statements
  | (_, value) => [value]

/-- With what a walk goes on from a node of a kind. -/
def Members.walkedAs (node : Members) : NodeKind → List Json
  | .identifier => []
  | .selector => [node.get "x"]
  | .call => node.get "fun" :: (node.nodesAt "args").map .obj
  | .block => (Json.obj node).statements
  | .functionLiteral => (node.memberAt "type").signatureTypes ++ (node.get "body").statements
  | .conditional =>
    [node.get "init", node.get "cond"] ++ (node.get "body").statements ++
      (node.get "else").alternativeParts
  | .rangeLoop => node.parts.flatMap scopedParts
  | .scoped => node.parts.flatMap scopedParts
  | .clause => [node.get "list", node.get "comm", node.get "body"]
  | .assignment => (node.nodesAt "lhs").map .obj ++ (node.nodesAt "rhs").map .obj
  | .declaration => (node.memberAt "decl").declarationParts
  | .plain _ => node.parts.map Prod.snd
  | .other => node.parts.map Prod.snd

/-- The values with which a walk goes on from a node; an object without a kind is no node. -/
def Members.walked (node : Members) : List Json :=
  match node.get "kind" with
  | .null => []
  | kind =>
    match NodeKind.of kind with
    | .ok kind => node.walkedAs kind
    | .error _ => []

/-- A specification of values is read in a value. -/
inductive SpecifiedIn (spec : Members) : Json → Prop
  | item {items : List Json} {item : Json} (hitem : item ∈ items) (h : SpecifiedIn spec item) :
    SpecifiedIn spec (.arr items)
  | part {node : Members} {part : Json} (hpart : part ∈ node.walked) (h : SpecifiedIn spec part) :
    SpecifiedIn spec (.obj node)
  | declared {node : Members} (hkind : node.hasKind "DeclStmt" = true)
    (hspec : spec ∈ (node.memberAt "decl").valueSpecs) : SpecifiedIn spec (.obj node)

/-- A specification of values is read in one of some values. -/
def SpecifiedAmong (spec : Members) (parts : List Json) : Prop :=
  ∃ part ∈ parts, SpecifiedIn spec part

/-- The specifications of values of a declaration of the file. -/
def Members.fileSpecs (decl : Members) : List Members :=
  if decl.hasKind "GenDecl" then decl.valueSpecs else []

/-- With what a walk goes on in a declaration of types, constants or variables of the file. -/
def Members.generalParts (decl : Members) : List Json :=
  if (decl.get "tok").isText "type" then (decl.nodesAt "specs").map fun spec => spec.get "type"
  else (decl.nodesAt "specs").flatMap Members.valueParts

/-- With what a walk goes on in a declaration of the file. -/
def Members.fileParts (decl : Members) : List Json :=
  if decl.hasKind "GenDecl" then
    if (decl.get "tok").isText "import" then [] else decl.generalParts
  else if decl.hasKind "FuncDecl" then
    (decl.memberAt "type").signatureTypes ++ (decl.get "body").statements
  else [.obj decl]

/-- **A file specifies values** in its declarations of variables and constants, and in declaration
statements wherever a walk of its code comes to them. -/
def Members.Specifies (tree spec : Members) : Prop :=
  ∃ decl ∈ tree.nodesAt "decls", spec ∈ decl.fileSpecs ∨ SpecifiedAmong spec decl.fileParts

/-! ## What a walk goes on with stands below -/

section Walked

variable {node : Members} {part : Json}

theorem below_of_mem_itemsAt {key : String} (hkey : key ∉ annotationKeys)
    (h : part ∈ node.itemsAt key) : part.Below node := by
  unfold Members.itemsAt at h
  cases hitems : elements (node.get key) with
  | error fault => simp [hitems, Except.toOption] at h
  | ok items =>
    rw [hitems] at h
    refine ⟨Nat.lt_trans (height_lt_of_mem_elements hitems h) (height_get_lt node key), ?_⟩
    intro below hbelow
    apply (below_get hkey).nodes_subset
    exact (flatMap_elements_sublist hitems).subset (List.mem_flatMap.mpr ⟨part, h, hbelow⟩)

theorem below_of_mem_statements (h : part ∈ (Json.obj node).statements) : part.Below node :=
  below_of_mem_itemsAt (by decide) h

theorem below_of_mem_statements_get {key : String} (hkey : key ∉ annotationKeys)
    (h : part ∈ (node.get key).statements) : part.Below node := by
  have hvalue : (node.get key).Below node := below_get hkey
  cases hbody : node.get key with
  | obj block =>
    rw [hbody] at h hvalue
    exact (below_of_mem_statements h).trans hvalue
  | _ => rw [hbody] at h; cases h

theorem below_of_mem_fieldTypes {key : String} (hkey : key ∉ annotationKeys)
    (h : part ∈ (node.get key).fieldTypes) : part.Below node := by
  obtain ⟨field, hfield, rfl⟩ := List.mem_map.mp h
  have hlist : (node.get key).Below node := below_get hkey
  cases hfields : node.get key with
  | obj fields =>
    rw [hfields] at hfield hlist
    exact ((below_get (by decide)).trans (below_of_mem_nodesAt (by decide) hfield)).trans hlist
  | _ => rw [hfields] at hfield; cases hfield

theorem below_of_mem_signatureTypes (h : part ∈ node.signatureTypes) : part.Below node := by
  rcases List.mem_append.mp h with h | h
  · exact below_of_mem_fieldTypes (by decide) h
  · exact below_of_mem_fieldTypes (by decide) h

theorem below_of_mem_map_nodesAt {key : String} (hkey : key ∉ annotationKeys)
    (h : part ∈ (node.nodesAt key).map Json.obj) : part.Below node := by
  obtain ⟨below, hbelow, rfl⟩ := List.mem_map.mp h
  exact below_of_mem_nodesAt hkey hbelow

theorem below_of_mem_valueParts (h : part ∈ node.valueParts) : part.Below node := by
  rcases List.mem_cons.mp h with rfl | h
  · exact below_get (by decide)
  · exact below_of_mem_map_nodesAt (by decide) h

theorem below_of_mem_declarationParts (h : part ∈ node.declarationParts) : part.Below node := by
  unfold Members.declarationParts at h
  split at h
  · obtain ⟨spec, hspec, h⟩ := List.mem_flatMap.mp h
    exact (below_of_mem_valueParts h).trans (below_of_mem_nodesAt (by decide) hspec)
  · exact below_of_mem_map_nodesAt (by decide) h

theorem below_of_mem_alternativeParts {key : String} (hkey : key ∉ annotationKeys)
    (h : part ∈ (node.get key).alternativeParts) : part.Below node := by
  unfold Json.alternativeParts at h
  split at h
  · exact List.mem_singleton.mp h ▸ below_get hkey
  · split at h
    · exact below_of_mem_statements_get hkey h
    · cases h

theorem below_of_mem_scopedParts (h : part ∈ node.parts.flatMap scopedParts) :
    part.Below node := by
  obtain ⟨member, hmember, h⟩ := List.mem_flatMap.mp h
  have hbelow := below_of_mem_parts hmember
  unfold scopedParts at h
  split at h
  · exact (below_of_mem_statements h).trans hbelow
  · exact List.mem_singleton.mp h ▸ hbelow

/-- **A walk goes on with values below the node.** -/
theorem below_of_mem_walkedAs {kind : NodeKind} (h : part ∈ node.walkedAs kind) :
    part.Below node := by
  have hparts (h : part ∈ node.parts.map Prod.snd) : part.Below node := by
    obtain ⟨member, hmember, rfl⟩ := List.mem_map.mp h
    exact below_of_mem_parts hmember
  cases kind with
  | identifier => cases h
  | selector => exact List.mem_singleton.mp h ▸ below_get (by decide)
  | call =>
    rcases List.mem_cons.mp h with rfl | h
    · exact below_get (by decide)
    · exact below_of_mem_map_nodesAt (by decide) h
  | block => exact below_of_mem_statements h
  | functionLiteral =>
    rcases List.mem_append.mp h with h | h
    · exact below_of_below_memberAt (by decide) (below_of_mem_signatureTypes h)
    · exact below_of_mem_statements_get (by decide) h
  | conditional =>
    rcases List.mem_append.mp h with h | h
    · rcases List.mem_append.mp h with h | h
      · rcases List.mem_pair.mp h with rfl | rfl <;> exact below_get (by decide)
      · exact below_of_mem_statements_get (by decide) h
    · exact below_of_mem_alternativeParts (by decide) h
  | rangeLoop => exact below_of_mem_scopedParts h
  | «scoped» => exact below_of_mem_scopedParts h
  | clause =>
    simp only [Members.walkedAs, List.mem_cons, List.not_mem_nil, or_false] at h
    rcases h with rfl | rfl | rfl <;> exact below_get (by decide)
  | assignment =>
    rcases List.mem_append.mp h with h | h
    · exact below_of_mem_map_nodesAt (by decide) h
    · exact below_of_mem_map_nodesAt (by decide) h
  | declaration => exact below_of_below_memberAt (by decide) (below_of_mem_declarationParts h)
  | plain context => exact hparts h
  | other => exact hparts h

end Walked

/-! ## Specifications in a node -/

theorem specifiedAmong_append {spec : Members} {parts more : List Json} :
    SpecifiedAmong spec (parts ++ more) ↔ SpecifiedAmong spec parts ∨ SpecifiedAmong spec more := by
  unfold SpecifiedAmong
  simp only [List.mem_append, or_and_right, exists_or]

theorem specifiedAmong_cons {spec : Members} {part : Json} {parts : List Json} :
    SpecifiedAmong spec (part :: parts) ↔ SpecifiedIn spec part ∨ SpecifiedAmong spec parts := by
  unfold SpecifiedAmong
  simp only [List.mem_cons, exists_eq_or_imp]

theorem not_specifiedAmong_nil {spec : Members} : ¬ SpecifiedAmong spec [] :=
  fun ⟨_, hmem, _⟩ => nomatch hmem

theorem specifiedAmong_flatMap {α : Type} {spec : Members} {xs : List α} {f : α → List Json} :
    SpecifiedAmong spec (xs.flatMap f) ↔ ∃ x ∈ xs, SpecifiedAmong spec (f x) := by
  unfold SpecifiedAmong
  simp only [List.mem_flatMap]
  exact ⟨fun ⟨part, ⟨x, hx, hpart⟩, h⟩ => ⟨x, hx, part, hpart, h⟩,
    fun ⟨x, hx, part, hpart, h⟩ => ⟨part, ⟨x, hx, hpart⟩, h⟩⟩

theorem specifiedAmong_map {α : Type} {spec : Members} {xs : List α} {f : α → Json} :
    SpecifiedAmong spec (xs.map f) ↔ ∃ x ∈ xs, SpecifiedIn spec (f x) := by
  unfold SpecifiedAmong
  simp only [List.mem_map, exists_exists_and_eq_and]

/-- **The specifications in a node** are its own, if it is a declaration, and those in the values
with which the walk goes on. -/
theorem specifiedIn_obj {spec node : Members} {kind : NodeKind}
    (hkind : NodeKind.of (node.get "kind") = .ok kind) (h : SpecifiedIn spec (.obj node)) :
    SpecifiedAmong spec (node.walkedAs kind) ∨
      kind = .declaration ∧ spec ∈ (node.memberAt "decl").valueSpecs := by
  cases h with
  | part hpart h =>
    left
    unfold Members.walked at hpart
    split at hpart
    · cases hpart
    · rw [hkind] at hpart
      exact ⟨_, hpart, h⟩
  | declared hdecl hspec => exact Or.inr ⟨eq_ofName_of_hasKind hkind hdecl, hspec⟩

end GoConventions
