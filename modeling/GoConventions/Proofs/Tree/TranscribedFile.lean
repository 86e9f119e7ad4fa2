import GoConventions.Proofs.Tree.File
import GoConventions.Proofs.Tree.TranscribedWalk

/-!
# What a file records

A documented file is read declaration by declaration, and of each declaration certain nodes
(`Members.readNodes`) are recorded, in full and once.  These are all nodes of the declaration but
those of an import, what a receiver holds beside its names and the name of its type, and the type
parameters of types and functions.

## Main definitions

* `Members.codeNodes`, `Members.receiverNodes`, `Members.readNodes`: the nodes of a declaration that
  are read.

## Main results

* `exists_transcript_of_readTree`: the identifiers and the calls of a model are those of its
  declarations.
-/

namespace GoConventions

/-! ## The nodes that are read -/

/-- The nodes among the elements of a member. -/
def Members.nodesAt (node : Members) (key : String) : List Members :=
  (nodesIn (node.get key)).toOption.getD []

/-- The nodes of a declaration that are walked, a receiver apart. -/
def Members.codeNodes (decl : Members) : List Members :=
  if decl.hasKind "GenDecl" then
    if (decl.get "tok").isText "import" then []
    else if (decl.get "tok").isText "type" then
      (decl.nodesAt "specs").flatMap fun spec => spec.nodesUnder ["name", "type"]
    else (decl.get "specs").nodes
  else if decl.hasKind "FuncDecl" then
    (decl.get "name").nodes ++
      ((decl.get "type").members?.getD []).nodesUnder ["params", "results"] ++
        (decl.get "body").nodes
  else (Json.obj decl).nodes

/-- What is left of the type of a field below a star, type arguments and parentheses. -/
def Members.receiverBase (field : Members) : Json :=
  let type : Members := (field.get "type").members?.getD []
  baseType (if type.hasKind "StarExpr" then type.get "x" else .obj type)

/-- The identifiers of a receiver: the name of its type, and its own names. -/
def Members.receiverNodes (decl : Members) : List Members :=
  if decl.hasKind "FuncDecl" then
    match fieldsOf (decl.get "recv") with
    | .ok (field :: _) =>
      field.receiverBase.members?.toList.filter (Members.hasKind · "Ident") ++ field.nodesAt "names"
    | _ => []
  else []

/-- The nodes of a declaration that are read. -/
def Members.readNodes (decl : Members) : List Members :=
  decl.codeNodes ++ decl.receiverNodes

variable {src : CommentedText} {nodes : List Members} {scope : Nat}

theorem nodesAt_of_nodesIn {node : Members} {key : String} {listed : List Members}
    (h : nodesIn (node.get key) = .ok listed) : node.nodesAt key = listed := by
  rw [Members.nodesAt, h]
  rfl

theorem nodesIn_of_mem_nodesAt {node below : Members} {key : String}
    (h : below ∈ node.nodesAt key) : nodesIn (node.get key) = .ok (node.nodesAt key) := by
  unfold Members.nodesAt at h ⊢
  cases hlisted : nodesIn (node.get key) with
  | error fault =>
    rw [hlisted] at h
    cases h
  | ok listed => rfl

theorem receiverNodes_of_general {decl : Members} (h : decl.hasKind "GenDecl" = true) :
    decl.receiverNodes = [] := by
  rw [Members.receiverNodes, hasKind_unique h (by simp), if_neg Bool.false_ne_true]

/-! ## Types, constants and variables -/

theorem transcribes_readTypeSpec {spec : Members} {anchor : Span} {docs : DocComments}
    (hdoc : (Json.obj spec).Documented) (hkind : spec.hasKind "TypeSpec" = true) :
    Transcribes src.toSourceText (readTypeSpec src spec scope anchor docs)
      (spec.nodesUnder ["name", "type"]) := by
  unfold readTypeSpec
  refine (transcribes_name (hdoc.get "name" (by decide))
    (hdoc.admits hkind rfl)).bind fun _ => ?_
  rw [← List.append_nil (spec.nodesUnder ["type"])]
  refine (transcribes_walkTree (hdoc.get "type" (by decide)) _ _).bind fun _ => ?_
  exact Transcribes.lift_bind fun name _ => Transcribes.lift_bind fun nameSpan _ =>
    transcribes_declare _

/-- The specifications of a declaration are of the kind that its token says. -/
theorem hasKind_specification {decl : Members} {specs : List Members}
    (hdoc : (Json.obj decl).Documented) (hkind : decl.hasKind "GenDecl" = true)
    (hspecs : nodesIn (decl.get "specs") = .ok specs) :
    ∀ spec ∈ specs, (Json.obj spec).Documented ∧
      spec.hasKind (NodeForm.ofKind.specification (decl.get "tok")) = true := by
  have hform : (PartForm.nodes (some [NodeForm.ofKind.specification (decl.get "tok")])).admits
      (decl.get "specs") = true := hdoc.admits hkind rfl
  exact fun spec hspec => ⟨(hdoc.get "specs" (by decide)).of_nodesIn hspecs hspec,
    hasKind_of_mem_nodesIn hform hspecs hspec⟩

theorem transcribes_readGeneral {decl : Members} (hdoc : (Json.obj decl).Documented)
    (hkind : decl.hasKind "GenDecl" = true)
    (himport : (decl.get "tok").isText "import" = false) :
    Transcribes src.toSourceText (readGeneral src decl scope) decl.codeNodes := by
  unfold readGeneral
  refine Transcribes.lift_bind fun span _ => Transcribes.lift_bind fun specs hspecs =>
    Transcribes.lift_bind fun grouped _ => ?_
  have hform : (PartForm.nodes (some [NodeForm.ofKind.specification (decl.get "tok")])).admits
      (decl.get "specs") = true := hdoc.admits hkind rfl
  have hspecsKind := hasKind_specification hdoc hkind hspecs
  rw [Members.codeNodes, if_pos hkind, himport]
  by_cases htype : (decl.get "tok").isText "type" = true
  · have hname : NodeForm.ofKind.specification (decl.get "tok") = "TypeSpec" := by
      rw [NodeForm.ofKind.specification, himport, htype]
      rfl
    rw [if_neg Bool.false_ne_true, if_pos htype, nodesAt_of_nodesIn hspecs]
    refine Transcribes.forM fun spec hspec => Transcribes.lift_bind fun specSpan _ => ?_
    obtain ⟨hspecDoc, hspecKind⟩ := hspecsKind spec hspec
    simp only [htype, if_true]
    exact transcribes_readTypeSpec hspecDoc (hname ▸ hspecKind)
  · have hname : NodeForm.ofKind.specification (decl.get "tok") = "ValueSpec" := by
      rw [NodeForm.ofKind.specification, himport, Bool.eq_false_iff.mpr htype]
      rfl
    rw [if_neg Bool.false_ne_true, if_neg htype]
    refine transcribes_forM_nodesIn hform hspecs fun spec hspec =>
      Transcribes.lift_bind fun specSpan _ => ?_
    obtain ⟨hspecDoc, hspecKind⟩ := hspecsKind spec hspec
    rw [hname] at hspecKind
    simp only [htype]
    exact (transcribes_walkValueSpec (fun value _ hvalue => transcribes_walkTree hvalue) hspecDoc
      hspecKind).of_same (sameMentions_inner_of_hasKind hspecKind (by simp))

/-! ## Functions -/

/-- Nothing lies below an identifier that is a node of a documented value. -/
theorem sameMentions_identifiers {names : List Members}
    (hnames : ∀ name ∈ names, name.hasKind "Ident" = true ∧ (Json.obj name).Documented) :
    SameMentions (names.flatMap fun name => (Json.obj name).nodes) names := by
  have hsame := SameMentions.flatMap fun name hname =>
    (sameMentions_identifier (hnames name hname).1 (hnames name hname).2).symm
  simpa using hsame

/-- The type of a field as a node is documented, also when it is left out. -/
theorem documented_members {node : Members} {key : String} (hdoc : (Json.obj node).Documented)
    (hkey : key ∉ annotationKeys) :
    (Json.obj ((node.get key).members?.getD [])).Documented := by
  have hpart := hdoc.get key hkey
  cases hvalue : node.get key with
  | obj part => exact hvalue ▸ hpart
  | _ => exact show (Json.obj []).Documented by decide

theorem subperm_receiverBase (field : Members) : field.receiverBase.nodes.Subperm
    (Json.obj ((field.get "type").members?.getD [])).nodes := by
  refine (nodes_baseTypeWithin_subperm _ _).trans ?_
  split
  · exact (nodes_get_subperm (by decide) _).trans (inner_sublist_nodes _).subperm
  · exact List.Subperm.refl _

theorem receiverBase_documented {field : Members} (hdoc : (Json.obj field).Documented) :
    field.receiverBase.Documented :=
  (documented_members hdoc (show "type" ∉ annotationKeys by decide)).subset
    (subperm_receiverBase field).subset

/-- The name of a receiver's type is recorded, if it is an identifier. -/
theorem transcribes_receiverTypeName {text : SourceText} {type : Members} {base : Json}
    (hdoc : base.Documented) :
    Transcribes text (receiverTypeName text type base)
      (base.members?.toList.filter (Members.hasKind · "Ident")) := by
  unfold receiverTypeName
  cases base with
  | obj node =>
    dsimp only
    by_cases hident : Members.hasKind node "Ident" = true
    · have hlist : (Json.obj node).members?.toList.filter (Members.hasKind · "Ident") = [node] :=
        List.filter_cons_of_pos hident
      rw [if_pos hident, hlist]
      exact ((transcribes_identifier hident hdoc).of_same
        (sameMentions_identifier hident hdoc).symm).map
    · have hlist : (Json.obj node).members?.toList.filter (Members.hasKind · "Ident") = [] :=
        List.filter_cons_of_neg hident
      rw [if_neg hident, hlist]
      exact Transcribes.lift _
  | _ => exact Transcribes.lift _

/-- **The identifiers of a receiver are recorded once**: the name of its type, then its own
names. -/
theorem transcribes_receiver? {decl : Members} (hdoc : (Json.obj decl).Documented)
    (hkind : decl.hasKind "FuncDecl" = true) :
    Transcribes src.toSourceText (receiver? src.toSourceText (decl.get "recv"))
      decl.receiverNodes := by
  have hform : (PartForm.node (some ["FieldList"])).admits (decl.get "recv") = true :=
    hdoc.admits hkind rfl
  unfold receiver?
  refine Transcribes.lift_bind fun fields hfields => ?_
  rw [Members.receiverNodes, if_pos hkind, hfields]
  cases fields with
  | nil => exact Transcribes.pure _
  | cons field rest =>
    obtain ⟨-, hall⟩ := of_fieldsOf_documented hfields (hdoc.get "recv" (by decide)) hform
    obtain ⟨hfieldDoc, hfieldKind, -⟩ := hall field (by simp)
    have hnamesForm : (PartForm.nodes (some ["Ident"])).admits (field.get "names") = true :=
      hfieldDoc.admits hfieldKind rfl
    refine Transcribes.lift_bind fun names hnames => Transcribes.lift_bind fun type htype => ?_
    obtain rfl := eq_members_of_nodeOrEmpty htype
    dsimp only
    rw [nodesAt_of_nodesIn hnames]
    refine (transcribes_receiverTypeName (receiverBase_documented hfieldDoc)).bind
      fun typeName => ?_
    have hnamesDoc : ∀ name ∈ names,
        name.hasKind "Ident" = true ∧ (Json.obj name).Documented := fun name hname =>
      ⟨hasKind_of_mem_nodesIn hnamesForm hnames hname,
        (hfieldDoc.get "names" (by decide)).of_nodesIn hnames hname⟩
    refine Transcribes.of_same ?_ (SameMentions.of_eq (List.append_nil names))
    refine ((Transcribes.forM fun name hname => ?_).of_same
      (sameMentions_identifiers hnamesDoc)).bind fun _ => ?_
    · exact transcribes_identifier (hnamesDoc name hname).1 (hnamesDoc name hname).2
    · exact Transcribes.lift_bind fun span _ => Transcribes.pure _

/-- The name of a function, given as a node or left vacant. -/
theorem transcribes_nameOrEmpty {text : SourceText} {value : Json} {name : Members}
    (hname : nodeOrEmpty value = .ok name) (hdoc : value.Documented)
    (hform : (PartForm.node (some ["Ident"])).admits value = true) :
    Transcribes text (recordIdentifier text (.obj name)) value.nodes := by
  rcases admits_node hform with hnone | ⟨found, rfl, -⟩
  · obtain rfl := eq_nil_of_nodeOrEmpty hname hnone
    rw [hnone]
    exact Transcribes.pure _
  · obtain rfl : found = name := Except.ok.inj hname
    exact transcribes_name hdoc hform

/-- **A function is recorded once**, its receiver included. -/
theorem transcribes_readFunction {decl : Members} (hdoc : (Json.obj decl).Documented)
    (hgeneral : decl.hasKind "GenDecl" = false) (hkind : decl.hasKind "FuncDecl" = true) :
    Transcribes src.toSourceText (readFunction src decl scope) decl.readNodes := by
  have hwalk : ∀ bound, TranscribesBelow src.toSourceText (walkTree src.toSourceText) bound :=
    fun _ value _ hvalue => transcribes_walkTree hvalue
  have hnameForm : (PartForm.node (some ["Ident"])).admits (decl.get "name") = true :=
    hdoc.admits hkind rfl
  have htypeForm : (PartForm.node (some ["FuncType"])).admits (decl.get "type") = true :=
    hdoc.admits hkind rfl
  have htypeKind : ∀ type, decl.get "type" = .obj type →
      Members.hasKind type "FuncType" = true := by
    intro type htype
    rcases admits_only htypeForm with hnone | ⟨found, hfound, hfoundKind⟩
    · exact absurd (htype ▸ hnone) (List.cons_ne_nil _ _)
    · rwa [Json.obj.inj (htype.symm.trans hfound)]
  -- The receiver is read before the signature.
  have horder : SameMentions ((decl.get "name").nodes ++ (decl.receiverNodes ++
      (((decl.get "type").members?.getD []).nodesUnder ["params", "results"] ++
        (decl.get "body").nodes))) decl.readNodes := by
    rw [Members.readNodes, Members.codeNodes, hgeneral, if_neg Bool.false_ne_true, if_pos hkind,
      List.append_assoc, List.append_assoc]
    refine (SameMentions.refl _).append (SameMentions.of_perm ?_)
    rw [← List.append_assoc _ _ decl.receiverNodes]
    exact List.perm_append_comm
  refine Transcribes.of_same ?_ horder
  unfold readFunction
  refine Transcribes.lift_bind fun span _ => Transcribes.lift_bind fun name hname => ?_
  refine Transcribes.bind ?_ fun _ => (transcribes_receiver? hdoc hkind).bind fun receiver => ?_
  · exact transcribes_nameOrEmpty hname (hdoc.get "name" (by decide)) hnameForm
  refine (transcribes_openScope _ _ _ _).bind_of_nil fun body => ?_
  refine Transcribes.lift_bind fun signature hsignature => ?_
  obtain rfl := eq_members_of_nodeOrEmpty hsignature
  refine transcribes_parametersAndResults (hwalk _) hsignature (hdoc.get "type" (by decide))
    htypeKind fun params results => ?_
  refine Transcribes.lift_bind fun nameSpan _ => ?_
  refine (transcribes_declare _).bind_of_nil fun _ => ?_
  exact transcribes_walkBody (hwalk _) (hdoc.get "body" (by decide))
    (hdoc.admits hkind rfl)

/-! ## Files -/

/-- An import declaration records no identifier and no call. -/
theorem transcribes_readImports (decl : Members) :
    Transcribes src.toSourceText (readImports src decl scope) [] := by
  unfold readImports
  refine Transcribes.lift_bind fun span _ => Transcribes.lift_bind fun parenthesized _ =>
    Transcribes.lift_bind fun specs _ => ?_
  refine Transcribes.mapM_lift.bind_of_nil fun entries => ?_
  refine (Transcribes.forM_of_nil fun entry _ => transcribes_declare _).bind_of_nil fun _ => ?_
  exact transcribes_recordImport _

/-- **Of every declaration of a file the nodes that are read are recorded.** -/
theorem transcribes_readDeclaration {decl : Members} (hdoc : (Json.obj decl).Documented) :
    Transcribes src.toSourceText (readDeclaration src scope decl) decl.readNodes := by
  unfold readDeclaration
  by_cases hgeneral : decl.hasKind "GenDecl" = true
  · rw [if_pos hgeneral, Members.readNodes, receiverNodes_of_general hgeneral, List.append_nil]
    by_cases himport : (decl.get "tok").isText "import" = true
    · rw [if_pos himport, Members.codeNodes, if_pos hgeneral, if_pos himport]
      exact transcribes_readImports decl
    · rw [if_neg himport]
      exact transcribes_readGeneral hdoc hgeneral (Bool.eq_false_iff.mpr himport)
  · rw [if_neg hgeneral]
    by_cases hfunction : decl.hasKind "FuncDecl" = true
    · rw [if_pos hfunction]
      exact transcribes_readFunction hdoc (Bool.eq_false_iff.mpr hgeneral) hfunction
    · have hnodes : decl.readNodes = (Json.obj decl).nodes := by
        rw [Members.readNodes, Members.codeNodes, Members.receiverNodes, if_neg hgeneral,
          if_neg hfunction, if_neg hfunction, List.append_nil]
      rw [if_neg hfunction, hnodes]
      exact transcribes_walkTree hdoc _ _

/-- The nodes of a file that are read. -/
def Members.fileReadNodes (tree : Members) : List Members :=
  (tree.nodesAt "decls").flatMap Members.readNodes

theorem transcribes_readFile {tree : Members} (hdoc : (Json.obj tree).Documented) :
    Transcribes src.toSourceText (readFile src tree) tree.fileReadNodes := by
  unfold readFile
  refine (transcribes_openScope _ _ _ _).bind_of_nil fun root => ?_
  refine Transcribes.lift_bind fun clause _ => (transcribes_declare _).bind_of_nil fun _ => ?_
  refine Transcribes.lift_bind fun decls hdecls => ?_
  rw [Members.fileReadNodes, nodesAt_of_nodesIn hdecls]
  exact (Transcribes.forM fun decl hdecl => transcribes_readDeclaration
    ((hdoc.get "decls" (by decide)).of_nodesIn hdecls hdecl)).map

/-- **The identifiers and the calls of a model are those that its declarations mention.** -/
theorem exists_transcript_of_readTree {path text : String} {tree : Members} {unit : SourceUnit}
    (h : readTree path text tree = .ok unit) (hdoc : (Json.obj tree).Documented) :
    ∃ history : TreeHistory, Transcribed unit.toSourceText history tree.fileReadNodes ∧
      (∃ clause, (readFile (unit.withComments unit.comments) tree).run {} =
        .ok (clause, Draft.ofHistory history)) ∧
      unit.identifiers =
        sortBy (compareOn (·.span.start.offset)) (Draft.ofHistory history).identifiers ∧
      unit.calls =
        (Draft.ofHistory history).calls.map (annotated (unit.withComments unit.comments)) := by
  unfold readTree at h
  dsimp only at h
  split at h
  case isTrue => cases h
  case isFalse =>
    obtain ⟨comments, -, h⟩ := bind_eq_ok.mp h
    obtain ⟨⟨clause, draft⟩, hread, h⟩ := bind_eq_ok.mp h
    obtain rfl := Except.ok.inj h
    obtain ⟨history, rfl, hhistory⟩ := transcribes_readFile hdoc [] clause draft hread
    exact ⟨history, hhistory, ⟨clause, hread⟩, rfl, rfl⟩

end GoConventions
