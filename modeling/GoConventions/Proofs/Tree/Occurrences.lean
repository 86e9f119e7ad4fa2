import GoConventions.Proofs.Order.Sorted
import GoConventions.Proofs.Tree.TranscribedFile

/-!
# The occurrences of names

The identifiers of a model are those of certain nodes, each recorded once with its name and its span
and marked as selected when it is the selected part of a selection.  For a documented tree these
nodes are the ones that are read (`Members.readNodes`).

Below some declarations there are more identifiers than are read: a receiver is read for its names
and the name of its type only, so that the type parameters it names are passed over, and so are the
type parameters that a function or a type declares.  The identifiers of a model are complete exactly
when no declaration overlooks any (`Members.overlooks`).

## Main definitions

* `SourceUnit.RecordsIdentifiers`: the identifiers of a model are those of some nodes.
* `Members.overlooks`: not all identifiers below a declaration are read.

## Main results

* `recordsIdentifiers_of_readTree`: what the identifiers of a model are, and when they are complete.
-/

namespace GoConventions

/-- The identifiers of a model are those that the nodes mention, each recorded once with the name
and the span of its node, and the selected ones are marked. -/
def SourceUnit.RecordsIdentifiers (unit : SourceUnit) (nodes : List Members) : Prop :=
  ∃ entries : List (Members × Identifier), entries.map (·.2) = unit.identifiers ∧
    (∀ entry ∈ entries, entry.2.name = entry.1.name ∧ unit.span entry.1 = .ok entry.2.span) ∧
    (entries.map (·.1)).Perm (mentionsIn .identifier nodes) ∧
    ((entries.filter (·.2.selector)).map (·.1)).Perm (mentionsIn .selected nodes)

/-- The nodes below a declaration of types, constants, variables or a function. -/
def Members.declaredNodes (decl : Members) : List Members :=
  if decl.hasKind "GenDecl" && (decl.get "tok").isText "import" then []
  else (Json.obj decl).nodes

/-- The nodes below the declarations of a file. -/
def Members.fileDeclaredNodes (tree : Members) : List Members :=
  (tree.nodesAt "decls").flatMap Members.declaredNodes

/-- Whether there are more identifiers, or more selections, below a declaration than are read. -/
def Members.overlooks (decl : Members) : Bool :=
  [Mention.identifier, .selected].any fun mention =>
    (mentionsIn mention decl.readNodes).length < (mentionsIn mention decl.declaredNodes).length

/-! ## What is read lies below the declaration -/

section Nodes

theorem flatMap_nodesAt_sublist (node : Members) (key : String) :
    ((node.nodesAt key).flatMap fun below => (Json.obj below).nodes).Sublist
      (node.get key).nodes := by
  unfold Members.nodesAt
  cases hlisted : nodesIn (node.get key) with
  | error fault => exact List.nil_sublist _
  | ok listed => exact flatMap_nodesIn_sublist hlisted

/-- Every node of a list stands at the head of the nodes below it. -/
theorem sublist_flatMap_nodes (listed : List Members) :
    listed.Sublist (listed.flatMap fun node => (Json.obj node).nodes) := by
  induction listed with
  | nil => exact List.Sublist.refl _
  | cons node listed ih => exact (ih.trans (List.sublist_append_right _ _)).cons_cons node

theorem subperm_nodesAt (node : Members) (key : String) :
    (node.nodesAt key).Subperm (node.get key).nodes :=
  ((sublist_flatMap_nodes _).trans (flatMap_nodesAt_sublist node key)).subperm

theorem subperm_nodesUnder_members (value : Json) (keys : List String)
    (hkeys : (annotationKeys ++ keys).Nodup) :
    ((value.members?.getD []).nodesUnder keys).Subperm value.nodes := by
  cases value with
  | obj node =>
    exact (nodesUnder_subperm node keys hkeys).trans (inner_sublist_nodes node).subperm
  | _ =>
    have hnil : Members.nodesUnder [] keys = [] := by
      rw [nodesUnder_eq_flatMap]
      exact List.flatMap_eq_nil_iff.mpr fun _ _ => rfl
    show (Members.nodesUnder [] keys).Subperm _
    rw [hnil]
    exact List.nil_subperm

theorem subperm_flatMap {α β : Type} {xs : List α} {f g : α → List β}
    (h : ∀ x ∈ xs, (f x).Subperm (g x)) : (xs.flatMap f).Subperm (xs.flatMap g) := by
  induction xs with
  | nil => exact List.Subperm.refl _
  | cons x xs ih =>
    rw [List.flatMap_cons, List.flatMap_cons]
    exact (h x (by simp)).append (ih fun y hy => h y (by simp [hy]))

theorem subperm_receiverNodes (decl : Members) :
    decl.receiverNodes.Subperm (decl.get "recv").nodes := by
  unfold Members.receiverNodes
  split
  case isFalse => exact List.nil_subperm
  case isTrue =>
    split
    case h_2 => exact List.nil_subperm
    case h_1 field rest hfields =>
      have hfield : (Json.obj field).nodes.Subperm (decl.get "recv").nodes :=
        (List.sublist_append_left _ _).subperm.trans (of_fieldsOf hfields).1
      refine List.Subperm.trans ?_ ((nodes_field_subperm field).trans hfield)
      refine List.Subperm.append ?_ (subperm_nodesAt field "names")
      have hbase := subperm_receiverBase field
      cases htype : field.get "type" with
      | obj type =>
        rw [htype] at hbase
        refine List.Subperm.trans ?_ hbase
        cases field.receiverBase with
        | obj node =>
          exact List.filter_sublist.subperm.trans
            (List.singleton_sublist.mpr List.mem_cons_self).subperm
        | _ => exact List.nil_subperm
      | _ =>
        -- No type, and so no name of a type.
        have hnone : field.receiverBase = .obj [] := by
          rw [Members.receiverBase, htype]
          rfl
        rw [hnone]
        exact List.nil_subperm

/-- **What is read of a declaration lies below it.** -/
theorem subperm_readNodes (decl : Members) : decl.readNodes.Subperm decl.declaredNodes := by
  have hspecs : (decl.get "specs").nodes.Subperm (Json.obj decl).nodes :=
    (nodes_get_subperm (by decide) decl).trans (inner_sublist_nodes decl).subperm
  rw [Members.readNodes, Members.declaredNodes]
  by_cases hgeneral : decl.hasKind "GenDecl" = true
  · rw [receiverNodes_of_general hgeneral, List.append_nil, Members.codeNodes, if_pos hgeneral,
      hgeneral, Bool.true_and]
    split
    case isTrue => exact List.Subperm.refl _
    case isFalse =>
      split
      case isFalse => exact hspecs
      case isTrue =>
        -- Of the specification of a type its name and its type are read.
        refine List.Subperm.trans (subperm_flatMap fun spec _ => ?_)
          ((flatMap_nodesAt_sublist decl "specs").subperm.trans hspecs)
        exact (nodesUnder_subperm spec ["name", "type"] (by decide)).trans
          (inner_sublist_nodes spec).subperm
  · rw [Bool.eq_false_iff.mpr hgeneral, Bool.false_and, if_neg Bool.false_ne_true,
      Members.codeNodes, if_neg hgeneral]
    by_cases hfunction : decl.hasKind "FuncDecl" = true
    · rw [if_pos hfunction]
      have hparts : (decl.nodesUnder ["name", "type", "body", "recv"]).Subperm
          (Json.obj decl).nodes :=
        (nodesUnder_subperm decl _ (by decide)).trans (inner_sublist_nodes decl).subperm
      refine List.Subperm.trans ?_ hparts
      rw [List.append_assoc, List.append_assoc]
      refine List.Subperm.append (List.Subperm.refl _) (List.Subperm.append ?_
        (List.Subperm.append (List.Subperm.refl _) (subperm_receiverNodes decl)))
      exact subperm_nodesUnder_members _ _ (by decide)
    · rw [Members.receiverNodes, if_neg hfunction, if_neg hfunction, List.append_nil]

end Nodes

/-! ## Counting -/

theorem subperm_mentionsIn {nodes more : List Members} (h : nodes.Subperm more)
    (mention : Mention) : (mentionsIn mention nodes).Subperm (mentionsIn mention more) := by
  obtain ⟨others, hperm, hsub⟩ := h
  exact ⟨_, hperm.filterMap _, hsub.filterMap _⟩

theorem mentionsIn_flatMap (mention : Mention) (decls : List Members)
    (f : Members → List Members) :
    mentionsIn mention (decls.flatMap f) = decls.flatMap fun decl => mentionsIn mention (f decl) :=
  List.filterMap_flatMap

/-- Parts of lists that are as long together as the lists are all of them. -/
theorem length_eq_of_flatMap {α β : Type} {xs : List α} {f g : α → List β}
    (h : ∀ x ∈ xs, (f x).Subperm (g x))
    (hlength : (xs.flatMap f).length = (xs.flatMap g).length) :
    ∀ x ∈ xs, (f x).length = (g x).length := by
  induction xs with
  | nil => simp
  | cons x xs ih =>
    have hfirst := (h x (by simp)).length_le
    have hrest := (subperm_flatMap fun y hy => h y (List.mem_cons_of_mem x hy)).length_le
    rw [List.flatMap_cons, List.flatMap_cons, List.length_append, List.length_append] at hlength
    exact List.forall_mem_cons.mpr ⟨by omega, ih (fun y hy => h y (by simp [hy])) (by omega)⟩

/-- Whether a declaration overlooks anything is a matter of counting. -/
theorem perm_of_overlooks {decl : Members} (h : decl.overlooks = false) {mention : Mention}
    (hmention : mention ≠ .call) :
    (mentionsIn mention decl.readNodes).Perm (mentionsIn mention decl.declaredNodes) := by
  have hle : ¬ (mentionsIn mention decl.readNodes).length <
      (mentionsIn mention decl.declaredNodes).length := by
    simp only [Members.overlooks, List.any_cons, List.any_nil, Bool.or_false, Bool.or_eq_false_iff,
      decide_eq_false_iff_not] at h
    cases mention with
    | identifier => exact h.1
    | selected => exact h.2
    | call => exact absurd rfl hmention
  exact (subperm_mentionsIn (subperm_readNodes decl) mention).perm_of_length_le (by omega)

/-! ## Recorded identifiers -/

/-- The identifiers of a history with the nodes that they come from. -/
def TreeHistory.entries (history : TreeHistory) : List (Members × Identifier) :=
  history.filterMap fun
    | .identifier node found => some (node, found)
    | _ => none

theorem TreeHistory.map_snd_entries (history : TreeHistory) :
    history.entries.map (·.2) = (Draft.ofHistory history).identifiers := by
  rw [TreeHistory.entries, List.map_filterMap, identifiers_ofHistory]
  exact List.filterMap_congr fun event _ => by cases event <;> rfl

theorem TreeHistory.map_fst_entries (history : TreeHistory) :
    history.entries.map (·.1) = history.mentions .identifier := by
  rw [TreeHistory.entries, List.map_filterMap, TreeHistory.mentions]
  exact List.filterMap_congr fun event _ => by cases event <;> rfl

theorem TreeHistory.map_fst_filter_entries (history : TreeHistory) :
    (history.entries.filter (·.2.selector)).map (·.1) = history.mentions .selected := by
  rw [TreeHistory.entries, List.filter_filterMap, List.map_filterMap, TreeHistory.mentions]
  refine List.filterMap_congr fun event _ => ?_
  cases event with
  | identifier node found =>
    obtain ⟨name, span, selector⟩ := found
    cases selector <;> rfl
  | _ => rfl

section Models

variable {path text : String} {tree : Members} {unit : SourceUnit}

theorem recordsIdentifiers_fileReadNodes (h : readTree path text tree = .ok unit)
    (hdoc : (Json.obj tree).Documented) : unit.RecordsIdentifiers tree.fileReadNodes := by
  obtain ⟨history, htranscribed, -, hidentifiers, -⟩ := exists_transcript_of_readTree h hdoc
  have hsorted := sortBy_perm (compareOn fun entry : Members × Identifier =>
    entry.2.span.start.offset) history.entries
  refine ⟨sortBy (compareOn (·.2.span.start.offset)) history.entries, ?_, fun entry hentry => ?_,
    ?_, ?_⟩
  · rw [hidentifiers, ← TreeHistory.map_snd_entries, sortBy_map]
    rfl
  · obtain ⟨event, hevent, hfound⟩ := List.mem_filterMap.mp ((mem_sortBy _).mp hentry)
    have hfaithful := htranscribed.faithful event hevent
    cases event with
    | identifier node found =>
      obtain rfl := Option.some.inj hfound
      exact hfaithful
    | _ => cases hfound
  · refine (hsorted.map _).trans ?_
    rw [TreeHistory.map_fst_entries]
    exact htranscribed.mentions .identifier
  · refine ((hsorted.filter _).map _).trans ?_
    rw [TreeHistory.map_fst_filter_entries]
    exact htranscribed.mentions .selected

/-- There are as many identifiers, and as many selected ones, as the nodes mention. -/
theorem length_of_recordsIdentifiers {nodes : List Members} (h : unit.RecordsIdentifiers nodes) :
    (mentionsIn .identifier nodes).length = unit.identifiers.length ∧
      (mentionsIn .selected nodes).length = (unit.identifiers.filter (·.selector)).length := by
  obtain ⟨entries, hentries, -, hidentifier, hselected⟩ := h
  have hfilter : (entries.filter (·.2.selector)).map (·.2) =
      unit.identifiers.filter (·.selector) := by
    rw [← hentries, List.filter_map]
    rfl
  rw [← hidentifier.length_eq, ← hselected.length_eq, ← hfilter, ← hentries]
  simp only [List.length_map, and_self]

/-- Lists that mention the same identifiers are recorded alike. -/
theorem SourceUnit.RecordsIdentifiers.of_perm {nodes more : List Members}
    (h : unit.RecordsIdentifiers nodes)
    (hperm : ∀ mention, mention ≠ Mention.call →
      (mentionsIn mention nodes).Perm (mentionsIn mention more)) :
    unit.RecordsIdentifiers more := by
  obtain ⟨entries, hentries, hfaithful, hidentifier, hselected⟩ := h
  exact ⟨entries, hentries, hfaithful, hidentifier.trans (hperm _ (by simp)),
    hselected.trans (hperm _ (by simp))⟩

/-- **The identifiers of a model**: they are in the order of the source, they are those that are
read, each recorded once, and they are all that stand below the declarations exactly when no
declaration overlooks any. -/
theorem recordsIdentifiers_of_readTree (h : readTree path text tree = .ok unit)
    (hdoc : (Json.obj tree).Documented) :
    unit.RecordsIdentifiers tree.fileReadNodes ∧
      (unit.identifiers.Pairwise fun a b => a.span.start.offset ≤ b.span.start.offset) ∧
      (unit.RecordsIdentifiers tree.fileDeclaredNodes ↔
        ∀ decl ∈ tree.nodesAt "decls", decl.overlooks = false) := by
  have hread := recordsIdentifiers_fileReadNodes h hdoc
  refine ⟨hread, ?_, fun hdeclared decl hdecl => ?_, fun hcomplete => ?_⟩
  · obtain ⟨_, -, -, hidentifiers, -⟩ := exists_transcript_of_readTree h hdoc
    rw [hidentifiers]
    have hsorted := @sortBy_pairwise_isLE _ (compareOn fun a : Identifier => a.span.start.offset)
      inferInstance
    exact (hsorted _).imp Int.isLE_compare.mp
  · -- As many are read as there are, and no declaration reads more than it has.
    obtain ⟨hreadIdentifier, hreadSelected⟩ := length_of_recordsIdentifiers hread
    obtain ⟨hallIdentifier, hallSelected⟩ := length_of_recordsIdentifiers hdeclared
    have heach : ∀ mention, (mentionsIn mention tree.fileReadNodes).length =
        (mentionsIn mention tree.fileDeclaredNodes).length →
          (mentionsIn mention decl.readNodes).length =
            (mentionsIn mention decl.declaredNodes).length := by
      intro mention hlength
      rw [Members.fileReadNodes, Members.fileDeclaredNodes, mentionsIn_flatMap,
        mentionsIn_flatMap] at hlength
      exact length_eq_of_flatMap (fun other _ =>
        subperm_mentionsIn (subperm_readNodes other) mention) hlength decl hdecl
    have hidentifier := heach .identifier (hreadIdentifier.trans hallIdentifier.symm)
    have hselected := heach .selected (hreadSelected.trans hallSelected.symm)
    simp [Members.overlooks, hidentifier, hselected]
  · -- Without anything overlooked, declaration by declaration the same is mentioned.
    refine hread.of_perm fun mention hmention => ?_
    rw [Members.fileReadNodes, Members.fileDeclaredNodes, mentionsIn_flatMap, mentionsIn_flatMap]
    refine List.Perm.flatMap_left _ fun decl hdecl => ?_
    exact perm_of_overlooks (hcomplete decl hdecl) hmention

end Models

/-! ## A receiver with a type argument -/

def genericReceiverText : String := "package p; func (r *T[K]) m() {}"

def genericReceiverTree : Members :=
  lineNode "File" 0 32 [
    ("package", .obj (lineNode "Ident" 8 9 [("name", .str "p")])),
    ("decls", .arr [.obj (lineNode "FuncDecl" 11 32 [
      ("recv", .obj (lineNode "FieldList" 16 25 [
        ("list", .arr [.obj (lineNode "Field" 17 24 [
          ("names", .arr [.obj (lineNode "Ident" 17 18 [("name", .str "r")])]),
          ("type", .obj (lineNode "StarExpr" 19 24 [
            ("x", .obj (lineNode "IndexExpr" 20 24 [
              ("x", .obj (lineNode "Ident" 20 21 [("name", .str "T")])),
              ("index", .obj (lineNode "Ident" 22 23 [("name", .str "K")]))]))]))])])])),
      ("name", .obj (lineNode "Ident" 26 27 [("name", .str "m")])),
      ("type", .obj (lineNode "FuncType" 11 29 [
        ("params", .obj (lineNode "FieldList" 27 29 [("list", .arr [])]))])),
      ("body", .obj (lineNode "BlockStmt" 30 32 [("list", .arr [])]))])])]

/-- What is read of the receiver are its name and the name of its type. -/
theorem recordsIdentifiers_genericReceiverTree :
    ∃ unit, readTree "p.go" genericReceiverText genericReceiverTree = .ok unit ∧
      unit.identifiers.map (·.name) = ["r", "T", "m"] ∧
      unit.RecordsIdentifiers genericReceiverTree.fileReadNodes ∧
      (unit.identifiers.Pairwise fun a b => a.span.start.offset ≤ b.span.start.offset) ∧
      (unit.RecordsIdentifiers genericReceiverTree.fileDeclaredNodes ↔
        ∀ decl ∈ genericReceiverTree.nodesAt "decls", decl.overlooks = false) := by
  have hnames : ((readTree "p.go" genericReceiverText genericReceiverTree).toOption.map fun unit =>
      unit.identifiers.map (·.name)) = some ["r", "T", "m"] := by decide +kernel
  cases h : readTree "p.go" genericReceiverText genericReceiverTree with
  | error fault =>
    rw [h] at hnames
    cases hnames
  | ok unit =>
    rw [h] at hnames
    exact ⟨unit, rfl, Option.some.inj hnames,
      recordsIdentifiers_of_readTree h (by decide +kernel)⟩

/-- The type argument of a receiver is an identifier that is not recorded. -/
theorem not_forall_recordsIdentifiers :
    ¬ ∀ path text tree unit, readTree path text tree = .ok unit → (Json.obj tree).Documented →
      unit.RecordsIdentifiers tree.fileDeclaredNodes := by
  intro hall
  have hcount : ((readTree "p.go" genericReceiverText genericReceiverTree).toOption.map fun unit =>
      unit.identifiers.length) = some 3 := by decide +kernel
  cases h : readTree "p.go" genericReceiverText genericReceiverTree with
  | error fault =>
    rw [h] at hcount
    cases hcount
  | ok unit =>
    rw [h] at hcount
    have hrecorded := hall _ _ _ unit h (by decide +kernel)
    have hlength := (length_of_recordsIdentifiers hrecorded).1
    have hmentions : (mentionsIn .identifier genericReceiverTree.fileDeclaredNodes).length = 4 := by
      decide +kernel
    have hthree : unit.identifiers.length = 3 := Option.some.inj hcount
    rw [hmentions, hthree] at hlength
    cases hlength

end GoConventions
