import GoConventions.Proofs.Tree.Transcription

/-!
# What a walk records

A walk of a documented value records every identifier and every call of the value once, and nothing
else (`transcribes_walkTree`).  There is one lemma for each function of the walk, and the levels of
the walk are tied together as the walk itself ties them.

## Main definitions

* `TranscribesValue`, `TranscribesBelow`: a walk records a value, or all documented values below a
  height.

## Main results

* `transcribes_walkCall`: a call is recorded after all calls below it.
* `transcribes_walkTree`: a documented value is recorded, each node of it once.
-/

namespace GoConventions

variable {src : SourceText} {nodes : List Members}

/-! ## Walks that record values -/

/-- A walk records a value. -/
def TranscribesValue (src : SourceText) (walk : TreeWalk) (value : Json) : Prop :=
  ∀ scope context, Transcribes src (walk value scope context) value.nodes

/-- A walk records every documented value that is less high than the bound. -/
def TranscribesBelow (src : SourceText) (walk : TreeWalk) (bound : Nat) : Prop :=
  ∀ value, value.height < bound → value.Documented → TranscribesValue src walk value

section Walk

variable {walk : TreeWalk} {scope : Nat} {context : CallContext}

theorem TranscribesBelow.mono {bound lower : Nat} (hwalk : TranscribesBelow src walk bound)
    (hle : lower ≤ bound) : TranscribesBelow src walk lower :=
  fun value hlt => hwalk value (Nat.lt_of_lt_of_le hlt hle)

theorem TranscribesBelow.get {node : Members}
    (hwalk : TranscribesBelow src walk (Json.obj node).height) (hdoc : (Json.obj node).Documented)
    {key : String} (hkey : key ∉ annotationKeys) : TranscribesValue src walk (node.get key) :=
  hwalk _ (height_get_lt node key) (hdoc.get key hkey)

/-- A node that is listed under a key is recorded. -/
theorem TranscribesBelow.item {node below : Members}
    (hwalk : TranscribesBelow src walk (Json.obj node).height) (hdoc : (Json.obj node).Documented)
    {key : String} (hkey : key ∉ annotationKeys) {listed : List Members}
    (hlisted : nodesIn (node.get key) = .ok listed) (hbelow : below ∈ listed) :
    TranscribesValue src walk (.obj below) :=
  hwalk _ (height_lt_of_mem_nodesIn_get hlisted hbelow)
    ((hdoc.get key hkey).of_nodesIn hlisted hbelow)

/-- The nodes of a documented list are recorded like the list. -/
theorem transcribes_forM_nodesIn {kinds : Option (List String)} {value : Json}
    {listed : List Members} {f : Members → TreeReader Unit}
    (hform : (PartForm.nodes kinds).admits value = true) (hlisted : nodesIn value = .ok listed)
    (hf : ∀ node ∈ listed, Transcribes src (f node) (Json.obj node).nodes) :
    Transcribes src (listed.forM f) value.nodes := by
  rw [← (flatMap_nodesIn_eq hform hlisted).1]
  exact Transcribes.forM hf

theorem transcribes_walkBlock {block : Members}
    (hwalk : TranscribesBelow src walk (Json.obj block).height)
    (hdoc : (Json.obj block).Documented) (hkind : block.hasKind "BlockStmt" = true) :
    Transcribes src (walkBlock src walk block scope) block.inner := by
  have hparts := sameMentions_nodesUnder ["list"] hdoc hkind rfl rfl (by decide)
  refine Transcribes.of_same ?_ hparts
  unfold walkBlock
  refine Transcribes.lift_bind fun _ _ => Transcribes.lift_bind fun items hitems => ?_
  have hform : (PartForm.nodes none).admits (block.get "list") = true :=
    hdoc.admits hkind rfl
  rw [Members.nodesUnder, (admits_nodes hform hitems).1]
  refine Transcribes.forM fun item hitem => hwalk item ?_ ?_ scope .other
  · exact Nat.lt_trans (height_lt_of_mem_elements hitems hitem) (height_get_lt block "list")
  · refine (hdoc.get "list" (by decide)).subset fun below hbelow => ?_
    exact (flatMap_elements_sublist hitems).subset (List.mem_flatMap.mpr ⟨item, hitem, hbelow⟩)

/-- A node of another kind is no mention itself. -/
theorem sameMentions_inner {node : Members}
    (hplain : ∀ name ∈ ["Ident", "SelectorExpr", "CallExpr"], node.hasKind name = false) :
    SameMentions node.inner (Json.obj node).nodes := by
  have hnone := mention?_eq_none (hplain "Ident" (by simp)) (hplain "SelectorExpr" (by simp))
    (hplain "CallExpr" (by simp))
  intro mention
  rw [nodes_obj, mentionsIn_cons, hnone mention]
  exact List.Perm.refl _

theorem sameMentions_inner_of_hasKind {node : Members} {kind : String}
    (hkind : node.hasKind kind = true) (hplain : kind ∉ ["Ident", "SelectorExpr", "CallExpr"]) :
    SameMentions node.inner (Json.obj node).nodes :=
  sameMentions_inner fun _ hname => hasKind_unique hkind fun heq => hplain (heq ▸ hname)

theorem sameMentions_inner_of_nodeKind {node : Members} {kind : NodeKind}
    (hkind : NodeKind.of (node.get "kind") = .ok kind)
    (hplain : kind ∉ [NodeKind.identifier, .selector, .call]) :
    SameMentions node.inner (Json.obj node).nodes := by
  refine sameMentions_inner fun name hname => Bool.eq_false_iff.mpr fun hnamed => hplain ?_
  obtain rfl := eq_ofName_of_hasKind hkind hnamed
  simp only [List.mem_cons, List.not_mem_nil, or_false] at hname
  rcases hname with rfl | rfl | rfl <;> decide

theorem transcribes_walkBody {body : Json} (hwalk : TranscribesBelow src walk body.height)
    (hdoc : body.Documented)
    (hform : (PartForm.node (some ["BlockStmt"])).admits body = true) :
    Transcribes src (walkBody src walk body scope) body.nodes := by
  unfold walkBody
  rcases admits_only hform with hnone | ⟨block, rfl, hkind⟩
  · rw [hnone]
    cases body with
    | obj block => exact absurd hnone (List.cons_ne_nil _ _)
    | _ => exact Transcribes.pure _
  · exact (transcribes_walkBlock hwalk hdoc hkind).of_same
      (sameMentions_inner_of_hasKind hkind (by simp))

theorem transcribes_walkParts {node : Members}
    (hwalk : TranscribesBelow src walk (Json.obj node).height)
    (hdoc : (Json.obj node).Documented) :
    Transcribes src (walkParts walk node scope context) node.inner := by
  unfold walkParts
  rw [inner_eq_flatMap_parts]
  refine Transcribes.forM fun part hpart => hwalk part.2 ?_ (hdoc.part hpart) scope context
  exact Nat.lt_succ_of_le (Json.height_le_heightOfMembers (List.mem_of_mem_filter hpart))

/-- A part that takes the place of the body is a block. -/
theorem transcribes_walkScoped {node : Members}
    (hwalk : TranscribesBelow src walk (Json.obj node).height)
    (hdoc : (Json.obj node).Documented)
    (hform : (PartForm.node (some ["BlockStmt"])).admits (node.get "body") = true) :
    Transcribes src (walkScoped src walk node scope) node.inner := by
  unfold walkScoped
  rw [inner_eq_flatMap_parts]
  refine Transcribes.forM fun part hpart => ?_
  obtain ⟨key, value⟩ := part
  have hmem := List.mem_of_mem_filter hpart
  have hlt : value.height < (Json.obj node).height :=
    Nat.lt_succ_of_le (Json.height_le_heightOfMembers hmem)
  dsimp only
  split
  case h_1 body =>
    rw [get_eq_of_mem (keys_nodup_of_isDocumented hdoc.node) hmem] at hform
    exact transcribes_walkBody (hwalk.mono (Nat.le_of_lt hlt)) (hdoc.part hpart) hform
  case h_2 => exact hwalk value hlt (hdoc.part hpart) scope .other

/-! ## Calls and assignments -/

/-- **A call is recorded after all calls below it.** -/
theorem transcribes_walkCall {node : Members} {targets : List Members}
    (hwalk : TranscribesBelow src walk (Json.obj node).height)
    (hdoc : (Json.obj node).Documented) (hkind : node.hasKind "CallExpr" = true) :
    Transcribes src (walkCall src walk node scope context targets) (Json.obj node).nodes := by
  have hparts := sameMentions_nodesUnder ["fun", "args"] hdoc hkind rfl rfl (by decide)
  have hform : (PartForm.nodes none).admits (node.get "args") = true :=
    hdoc.admits hkind rfl
  unfold walkCall
  refine fun h => Reads.bind (hwalk.get hdoc (by decide) scope .other h) fun _ first hfirst => ?_
  refine Reads.lift_bind fun args hargs => ?_
  have hmapped : Transcribes src (args.mapM (walkArgument src walk scope))
      (node.get "args").nodes := by
    rw [← (flatMap_nodesIn_eq hform hargs).1]
    refine Transcribes.mapM fun arg harg => Transcribes.lift_bind fun argument _ => ?_
    exact (hwalk.item hdoc (by decide) hargs harg scope .other).map
  refine Reads.bind (hmapped _) fun args second hsecond => ?_
  refine Reads.lift_bind fun callee _ => Reads.lift_bind fun span hspan => ?_
  have hlifted : ∀ {α : Type} (f : Members → TreeResult α),
      Transcribes src (targets.mapM fun target => (f target : TreeReader α)) [] :=
    fun f => Transcribes.mapM_lift
  refine Reads.bind (hlifted _ _) fun names third hthird => ?_
  refine Reads.bind (hlifted _ _) fun spans fourth hfourth => ?_
  -- What the parts have added is all that stands before the call.
  have hbefore := hfirst.append (hsecond.append (hthird.append hfourth))
  rw [List.append_nil, List.append_nil] at hbefore
  refine reads_recordCall node ?_
  rw [nodes_obj]
  simpa only [List.append_assoc] using (hbefore.call ⟨hspan, rfl⟩ hkind).of_same (hparts.cons node)

/-- A value that is assigned. -/
theorem transcribes_walkValue {value : Members} {targets : List Members}
    (hwalk : TranscribesBelow src walk ((Json.obj value).height + 1))
    (hdoc : (Json.obj value).Documented) :
    Transcribes src (if value.hasKind "CallExpr" then walkCall src walk value scope context targets
      else walk (.obj value) scope .other) (Json.obj value).nodes := by
  split
  case isTrue hkind => exact transcribes_walkCall (hwalk.mono (Nat.le_succ _)) hdoc hkind
  case isFalse => exact hwalk _ (Nat.lt_succ_self _) hdoc scope .other

theorem transcribes_walkAssigned {targets values : List Members} {bound : Nat}
    (hwalk : TranscribesBelow src walk bound)
    (hbound : ∀ value ∈ values, (Json.obj value).height < bound)
    (hdoc : ∀ value ∈ values, (Json.obj value).Documented) :
    Transcribes src (walkAssigned src walk scope context targets values)
      (values.flatMap fun value => (Json.obj value).nodes) := by
  unfold walkAssigned
  split
  case h_1 value =>
    rw [List.flatMap_singleton]
    exact transcribes_walkValue (hwalk.mono (hbound value (by simp))) (hdoc value (by simp))
  case h_2 =>
    split
    case isTrue hlength =>
      -- Each value is walked with the target at its place.
      have hvalues : (targets.zip values).map Prod.snd = values :=
        List.map_snd_zip (Nat.le_of_eq hlength)
      have hnodes : (values.flatMap fun value => (Json.obj value).nodes) =
          (targets.zip values).flatMap fun pair => (Json.obj pair.2).nodes := by
        conv_lhs => rw [← hvalues, List.flatMap_map]
      rw [hnodes]
      refine Transcribes.forM fun pair hpair => ?_
      have hmem := (List.of_mem_zip hpair).2
      exact transcribes_walkValue (hwalk.mono (hbound _ hmem)) (hdoc _ hmem)
    case isFalse =>
      exact Transcribes.forM fun value hvalue =>
        hwalk _ (hbound value hvalue) (hdoc value hvalue) scope .other

theorem transcribes_walkAssignment {node : Members}
    (hwalk : TranscribesBelow src walk (Json.obj node).height)
    (hdoc : (Json.obj node).Documented) (hkind : node.hasKind "AssignStmt" = true) :
    Transcribes src (walkAssignment src walk node scope) node.inner := by
  have hparts := sameMentions_nodesUnder ["lhs", "rhs"] hdoc hkind rfl rfl (by decide)
  refine Transcribes.of_same ?_ hparts
  unfold walkAssignment
  refine Transcribes.lift_bind fun targets htargets => ?_
  refine Transcribes.lift_bind fun values hvalues => ?_
  -- What an assignment defines comes first, and records nothing.
  have hlhs : (PartForm.nodes none).admits (node.get "lhs") = true :=
    hdoc.admits hkind rfl
  have hrhs : (PartForm.nodes none).admits (node.get "rhs") = true :=
    hdoc.admits hkind rfl
  have hwalked : ∀ context, Transcribes src (do
      targets.forM fun target => walk (.obj target) scope .other
      walkAssigned src walk scope context targets values) (node.nodesUnder ["lhs", "rhs"]) := by
    intro context
    refine (transcribes_forM_nodesIn hlhs htargets fun target htarget => ?_).bind fun _ => ?_
    · exact hwalk.item hdoc (by decide) htargets htarget scope .other
    · rw [Members.nodesUnder, ← (flatMap_nodesIn_eq hrhs hvalues).1]
      exact transcribes_walkAssigned hwalk
        (fun value hvalue => height_lt_of_mem_nodesIn_get hvalues hvalue)
        fun value hvalue => (hdoc.get "rhs" (by decide)).of_nodesIn hvalues hvalue
  by_cases hdefines : (node.get "tok").isText ":=" = true
  · simp only [hdefines, if_true]
    exact (Transcribes.forM_of_nil fun target _ => transcribes_defineVariable scope _).bind_of_nil
      fun _ => hwalked _
  · simp only [hdefines]
    exact hwalked _

/-! ## Declarations among statements -/

theorem transcribes_declareValue {name : Members} {kind : DeclKind} {anchor : Span}
    {docs : DocComments} {calls : List CallSite} {index : Nat} {value : Option Members}
    (hident : name.hasKind "Ident" = true) (hdoc : (Json.obj name).Documented) :
    Transcribes src (declareValue src kind scope anchor docs calls index name value)
      (Json.obj name).nodes := by
  unfold declareValue
  rw [← List.append_nil (Json.obj name).nodes]
  refine (transcribes_identifier hident hdoc).bind fun _ => ?_
  split
  case isFalse => exact Transcribes.pure _
  case isTrue =>
    have hdeclare : ∀ found : Option CallSite, Transcribes src (do
        let nameSpan ← src.span name
        declare { name := name.name, kind, exported := scope == 0 && isExported name.name, scope
                  span := if index = 0 then anchor else ⟨nameSpan.start, anchor.stop⟩
                  nameSpan, doc := docs.doc, detachedDoc := docs.detached
                  groupDoc := docs.group, initCall := found }) [] :=
      fun found => Transcribes.lift_bind fun span _ => transcribes_declare _
    cases value with
    | some value => exact Transcribes.lift_bind fun found _ => hdeclare found
    | none => exact hdeclare none

theorem transcribes_walkValueSpec {spec : Members} {token : Json} {anchor : Span}
    {docs : DocComments} (hwalk : TranscribesBelow src walk (Json.obj spec).height)
    (hdoc : (Json.obj spec).Documented) (hkind : spec.hasKind "ValueSpec" = true) :
    Transcribes src (walkValueSpec src walk spec token scope anchor docs) spec.inner := by
  have hparts := sameMentions_nodesUnder ["type", "values", "names"] hdoc hkind rfl rfl (by decide)
  refine Transcribes.of_same ?_ hparts
  have hnamesForm : (PartForm.nodes (some ["Ident"])).admits (spec.get "names") = true :=
    hdoc.admits hkind rfl
  have hvaluesForm : (PartForm.nodes none).admits (spec.get "values") = true :=
    hdoc.admits hkind rfl
  unfold walkValueSpec
  refine Transcribes.lift_bind fun names hnames => Transcribes.lift_bind fun values hvalues => ?_
  refine (hwalk.get hdoc (by decide) scope .other).bind fun _ => Transcribes.get_bind fun _ => ?_
  refine (transcribes_forM_nodesIn hvaluesForm hvalues fun value hvalue => ?_).bind fun _ =>
    Transcribes.get_bind fun _ => ?_
  · exact hwalk.item hdoc (by decide) hvalues hvalue scope .value
  · -- The names come last, each with its place in the list.
    have hnodes : (names.zipIdx.flatMap fun entry => (Json.obj entry.1).nodes) =
        (spec.get "names").nodes := by
      rw [← (flatMap_nodesIn_eq hnamesForm hnames).1]
      conv_rhs => rw [← List.zipIdx_map_fst 0 names, List.flatMap_map]
    rw [Members.nodesUnder, ← hnodes]
    refine Transcribes.forM fun entry hentry => ?_
    have hname : entry.1 ∈ names := List.fst_mem_of_mem_zipIdx hentry
    exact transcribes_declareValue (hasKind_of_mem_nodesIn hnamesForm hnames hname)
      ((hdoc.get "names" (by decide)).of_nodesIn hnames hname)

theorem specification_eq_valueSpec {token : Json}
    (h : (token.isText "var" || token.isText "const") = true) :
    NodeForm.ofKind.specification token = "ValueSpec" := by
  cases token with
  | str text =>
    simp only [Json.isText, Bool.or_eq_true, beq_iff_eq] at h
    rcases h with rfl | rfl <;> rfl
  | _ => cases h

theorem transcribes_walkDeclaration {node : Members}
    (hwalk : TranscribesBelow src walk (Json.obj node).height)
    (hdoc : (Json.obj node).Documented) (hkind : node.hasKind "DeclStmt" = true) :
    Transcribes src (walkDeclaration src walk node scope) node.inner := by
  have hparts := sameMentions_nodesUnder ["decl"] hdoc hkind rfl rfl (by decide)
  have hform : (PartForm.node (some ["GenDecl"])).admits (node.get "decl") = true :=
    hdoc.admits hkind rfl
  refine Transcribes.of_same ?_ hparts
  unfold walkDeclaration
  refine Transcribes.lift_bind fun decl hdecl => Transcribes.lift_bind fun specs hspecs => ?_
  rw [Members.nodesUnder]
  rcases admits_only hform with hnone | ⟨found, hfound, hgeneral⟩
  · -- No declaration, and no specifications.
    obtain rfl := eq_nil_of_nodeOrEmpty hdecl hnone
    obtain rfl : specs = [] := (Except.ok.inj hspecs).symm
    rw [hnone]
    exact Transcribes.pure _
  obtain rfl : decl = found := by
    rw [hfound] at hdecl
    exact (Except.ok.inj hdecl).symm
  have hdeclDoc : (Json.obj decl).Documented := hfound ▸ hdoc.get "decl" (by decide)
  have hspecsForm : (PartForm.nodes (some [NodeForm.ofKind.specification (decl.get "tok")])).admits
      (decl.get "specs") = true := hdeclDoc.admits hgeneral rfl
  have hdeclParts := sameMentions_nodesUnder ["specs"] hdeclDoc hgeneral rfl rfl
    (by decide)
  rw [hfound]
  refine Transcribes.of_same ?_
    (hdeclParts.trans (sameMentions_inner_of_hasKind hgeneral (by simp)))
  refine transcribes_forM_nodesIn hspecsForm hspecs fun spec hspec => ?_
  have hspecDoc := (hdeclDoc.get "specs" (by decide)).of_nodesIn hspecs hspec
  have hlt : (Json.obj spec).height < (Json.obj node).height :=
    Nat.lt_trans (Nat.lt_of_lt_of_le (height_lt_of_mem_nodesIn hspecs hspec)
      (height_get_nodeOrEmpty_le "specs" hdecl)) (height_get_lt node "decl")
  split
  case isTrue htoken =>
    have hvalue := hasKind_of_mem_nodesIn hspecsForm hspecs hspec
    rw [specification_eq_valueSpec htoken] at hvalue
    exact Transcribes.lift_bind fun span _ =>
      (transcribes_walkValueSpec (hwalk.mono (Nat.le_of_lt hlt)) hspecDoc hvalue).of_same
        (sameMentions_inner_of_hasKind hvalue (by simp))
  case isFalse => exact hwalk _ hlt hspecDoc scope .other

/-! ## Signatures -/

/-- The fields of a documented field list. -/
theorem of_fieldsOf_documented {value : Json} {fields : List Members}
    (hfields : fieldsOf value = .ok fields) (hdoc : value.Documented)
    (hform : (PartForm.node (some ["FieldList"])).admits value = true) :
    SameMentions (fields.flatMap fun field => (Json.obj field).nodes) value.nodes ∧
      ∀ field ∈ fields, (Json.obj field).Documented ∧ field.hasKind "Field" = true ∧
        (Json.obj field).height < value.height := by
  rcases admits_only hform with hnone | ⟨list, rfl, hkind⟩
  · obtain rfl : fields = [] := by
      cases value with
      | obj node => exact absurd hnone (List.cons_ne_nil _ _)
      | _ => exact (Except.ok.inj hfields).symm
    rw [hnone]
    exact ⟨SameMentions.refl [], by simp⟩
  · have hlisted : nodesIn (Members.get list "list") = .ok fields := hfields
    have hlistForm : (PartForm.nodes (some ["Field"])).admits (Members.get list "list") = true :=
      hdoc.admits hkind rfl
    have hparts := sameMentions_nodesUnder ["list"] hdoc hkind rfl rfl (by decide)
    refine ⟨?_, fun field hfield => ⟨?_, ?_, ?_⟩⟩
    · rw [(flatMap_nodesIn_eq hlistForm hlisted).1]
      exact hparts.trans (sameMentions_inner_of_hasKind hkind (by simp))
    · exact (hdoc.get "list" (by decide)).of_nodesIn hlisted hfield
    · exact hasKind_of_mem_nodesIn hlistForm hlisted hfield
    · exact height_lt_of_mem_nodesIn_get hlisted hfield

theorem sameMentions_field {field : Members} (hdoc : (Json.obj field).Documented)
    (hkind : field.hasKind "Field" = true) :
    SameMentions (field.nodesUnder ["type", "names"]) (Json.obj field).nodes :=
  (sameMentions_nodesUnder ["type", "names"] hdoc hkind rfl rfl (by decide)).trans
    (sameMentions_inner_of_hasKind hkind (by simp))

theorem transcribes_declareParameter {name : Members} {typeText : String}
    (hident : name.hasKind "Ident" = true) (hdoc : (Json.obj name).Documented) :
    Transcribes src (declareParameter src typeText scope name) (Json.obj name).nodes := by
  unfold declareParameter
  refine Transcribes.lift_bind fun span _ => ?_
  rw [← List.append_nil (Json.obj name).nodes]
  refine (transcribes_identifier hident hdoc).bind fun _ => ?_
  split
  · exact (transcribes_declare _).map
  · exact Transcribes.pure _

theorem transcribes_parametersOfField {field : Members}
    (hwalk : TranscribesBelow src walk (Json.obj field).height)
    (hdoc : (Json.obj field).Documented) (hkind : field.hasKind "Field" = true) :
    Transcribes src (parametersOfField src walk scope field) (Json.obj field).nodes := by
  have hform : (PartForm.nodes (some ["Ident"])).admits (field.get "names") = true :=
    hdoc.admits hkind rfl
  refine Transcribes.of_same ?_ (sameMentions_field hdoc hkind)
  unfold parametersOfField
  refine Transcribes.lift_bind fun typeText _ => ?_
  refine (hwalk.get hdoc (by decide) scope .other).bind fun _ => ?_
  refine Transcribes.lift_bind fun names hnames => ?_
  rw [Members.nodesUnder, ← (flatMap_nodesIn_eq hform hnames).1]
  split
  case isTrue hempty =>
    rw [List.isEmpty_iff.mp hempty]
    exact Transcribes.lift_bind fun span _ => Transcribes.pure _
  case isFalse =>
    exact Transcribes.mapM fun name hname => transcribes_declareParameter
      (hasKind_of_mem_nodesIn hform hnames hname)
      ((hdoc.get "names" (by decide)).of_nodesIn hnames hname)

theorem transcribes_resultsOfField {field : Members}
    (hwalk : TranscribesBelow src walk (Json.obj field).height)
    (hdoc : (Json.obj field).Documented) (hkind : field.hasKind "Field" = true) :
    Transcribes src (resultsOfField src walk scope field) (Json.obj field).nodes := by
  have hform : (PartForm.nodes (some ["Ident"])).admits (field.get "names") = true :=
    hdoc.admits hkind rfl
  refine Transcribes.of_same ?_ (sameMentions_field hdoc hkind)
  unfold resultsOfField
  refine Transcribes.lift_bind fun typeText _ => ?_
  refine (hwalk.get hdoc (by decide) scope .other).bind fun _ => ?_
  refine Transcribes.lift_bind fun names hnames => ?_
  refine (transcribes_forM_nodesIn hform hnames fun name hname => ?_).map
  exact transcribes_identifier (hasKind_of_mem_nodesIn hform hnames hname)
    ((hdoc.get "names" (by decide)).of_nodesIn hnames hname)

/-- The fields of a field list, one after the other. -/
theorem transcribes_mapM_fieldsOf {α : Type} {fieldList : Json} {fields : List Members}
    {f : Members → TreeReader α} (hfields : fieldsOf fieldList = .ok fields)
    (hwalk : TranscribesBelow src walk fieldList.height) (hdoc : fieldList.Documented)
    (hform : (PartForm.node (some ["FieldList"])).admits fieldList = true)
    (hf : ∀ field : Members, TranscribesBelow src walk (Json.obj field).height →
      (Json.obj field).Documented → field.hasKind "Field" = true →
        Transcribes src (f field) (Json.obj field).nodes) :
    Transcribes src (fields.mapM f) fieldList.nodes := by
  obtain ⟨hsame, hall⟩ := of_fieldsOf_documented hfields hdoc hform
  refine (Transcribes.mapM fun field hfield => ?_).of_same hsame
  obtain ⟨hfieldDoc, hkind, hlt⟩ := hall field hfield
  exact hf field (hwalk.mono (Nat.le_of_lt hlt)) hfieldDoc hkind

theorem transcribes_declareParameters {fieldList : Json}
    (hwalk : TranscribesBelow src walk fieldList.height) (hdoc : fieldList.Documented)
    (hform : (PartForm.node (some ["FieldList"])).admits fieldList = true) :
    Transcribes src (declareParameters src walk fieldList scope) fieldList.nodes :=
  Transcribes.lift_bind fun _ hfields => (transcribes_mapM_fieldsOf hfields hwalk hdoc hform
    fun _ hwalk' hdoc' hkind => transcribes_parametersOfField hwalk' hdoc' hkind).map

theorem transcribes_resultTypes {fieldList : Json}
    (hwalk : TranscribesBelow src walk fieldList.height) (hdoc : fieldList.Documented)
    (hform : (PartForm.node (some ["FieldList"])).admits fieldList = true) :
    Transcribes src (resultTypes src walk fieldList scope) fieldList.nodes :=
  Transcribes.lift_bind fun _ hfields => (transcribes_mapM_fieldsOf hfields hwalk hdoc hform
    fun _ hwalk' hdoc' hkind => transcribes_resultsOfField hwalk' hdoc' hkind).map

/-! ## Scopes -/

/-- The signature of a function literal has no parts but its parameters and results. -/
theorem sameMentions_signature {value : Json} {signature : Members}
    (hsignature : nodeOrEmpty value = .ok signature) (hdoc : value.Documented)
    (hform : PartForm.signature.admits value = true) :
    SameMentions (signature.nodesUnder ["params", "results"]) value.nodes := by
  rcases admits_signature hform with hnone | ⟨type, rfl, hkind, hspeaks⟩
  · obtain rfl := eq_nil_of_nodeOrEmpty hsignature hnone
    rw [hnone]
    exact SameMentions.refl []
  · obtain rfl : type = signature := Except.ok.inj hsignature
    exact (sameMentions_of_speaksUnder hdoc hspeaks (by decide)).trans
      (sameMentions_inner_of_hasKind hkind (by simp))

/-- The parameters and the results of a documented function type are field lists. -/
theorem admits_get_signature {value : Json} {signature : Members} {key : String}
    (hsignature : nodeOrEmpty value = .ok signature) (hdoc : value.Documented)
    (hkind : ∀ type, value = .obj type → Members.hasKind type "FuncType" = true)
    (hkey : key = "params" ∨ key = "results") :
    (PartForm.node (some ["FieldList"])).admits (signature.get key) = true ∧
      (signature.get key).Documented ∧ (signature.get key).height ≤ value.height := by
  refine ⟨?_, ?_, height_get_nodeOrEmpty_le key hsignature⟩
  · rcases nodeOrEmpty_eq_ok hsignature with rfl | rfl
    · refine hdoc.admits (hkind signature rfl) ?_
      rcases hkey with rfl | rfl <;> rfl
    · rfl
  · rcases nodeOrEmpty_eq_ok hsignature with rfl | rfl
    · exact hdoc.get key (by rcases hkey with rfl | rfl <;> decide)
    · intro node hnode
      cases hnode

/-- The parameters and then the results of a function. -/
theorem transcribes_parametersAndResults {β : Type} {value : Json} {signature : Members}
    {next : List Param → List String → TreeReader β}
    (hwalk : TranscribesBelow src walk value.height)
    (hsignature : nodeOrEmpty value = .ok signature) (hdoc : value.Documented)
    (hkind : ∀ type, value = .obj type → Members.hasKind type "FuncType" = true)
    (hnext : ∀ params results, Transcribes src (next params results) nodes) :
    Transcribes src (do
      let params ← declareParameters src walk (signature.get "params") scope
      let results ← resultTypes src walk (signature.get "results") scope
      next params results) (signature.nodesUnder ["params", "results"] ++ nodes) := by
  obtain ⟨hparams, hparamsDoc, hparamsHeight⟩ :=
    admits_get_signature hsignature hdoc hkind (Or.inl rfl)
  obtain ⟨hresults, hresultsDoc, hresultsHeight⟩ :=
    admits_get_signature hsignature hdoc hkind (Or.inr rfl)
  show Transcribes src _
    (((signature.get "params").nodes ++ (signature.get "results").nodes) ++ nodes)
  rw [List.append_assoc]
  refine (transcribes_declareParameters (hwalk.mono hparamsHeight) hparamsDoc hparams).bind
    fun params => ?_
  exact (transcribes_resultTypes (hwalk.mono hresultsHeight) hresultsDoc hresults).bind
    fun results => hnext params results

theorem transcribes_walkFunctionLiteral {node : Members} {span : Span}
    (hwalk : TranscribesBelow src walk (Json.obj node).height)
    (hdoc : (Json.obj node).Documented) (hkind : node.hasKind "FuncLit" = true) :
    Transcribes src (walkFunctionLiteral src walk node span scope) node.inner := by
  have hparts := sameMentions_nodesUnder ["type", "body"] hdoc hkind rfl rfl (by decide)
  have hform : PartForm.signature.admits (node.get "type") = true :=
    hdoc.admits hkind rfl
  have htypeDoc := hdoc.get "type" (by decide)
  unfold walkFunctionLiteral
  refine (transcribes_openScope _ _ _ _).bind_of_nil fun inner => ?_
  refine Transcribes.lift_bind fun signature hsignature => ?_
  have hsame := (sameMentions_signature hsignature htypeDoc hform).append
    (SameMentions.refl (node.get "body").nodes)
  refine Transcribes.of_same ?_ (hsame.trans hparts)
  refine transcribes_parametersAndResults (hwalk.mono (Nat.le_of_lt (height_get_lt node "type")))
    hsignature htypeDoc (fun type htype => ?_) fun _ _ => ?_
  · rw [htype] at hform
    exact (Bool.and_eq_true_iff.mp hform).1
  · exact transcribes_walkBody (hwalk.mono (Nat.le_of_lt (height_get_lt node "body")))
      (hdoc.get "body" (by decide)) (hdoc.admits hkind rfl)

/-- The alternative of a conditional is a conditional or a block. -/
theorem transcribes_walkConditional {node : Members} {span : Span}
    (hwalk : TranscribesBelow src walk (Json.obj node).height)
    (hdoc : (Json.obj node).Documented) (hkind : node.hasKind "IfStmt" = true) :
    Transcribes src (walkConditional src walk node span scope) node.inner := by
  have hparts := sameMentions_nodesUnder ["init", "cond", "body", "else"] hdoc hkind rfl rfl
    (by decide)
  refine Transcribes.of_same ?_ hparts
  unfold walkConditional
  refine (transcribes_openScope _ _ _ _).bind_of_nil fun inner => ?_
  refine (hwalk.get hdoc (by decide) inner .other).bind fun _ => ?_
  refine (hwalk.get hdoc (by decide) inner .other).bind fun _ => ?_
  refine (transcribes_walkBody (hwalk.mono (Nat.le_of_lt (height_get_lt node "body")))
    (hdoc.get "body" (by decide)) (hdoc.admits hkind rfl)).bind
      fun _ => ?_
  have hform : (PartForm.node (some ["IfStmt", "BlockStmt"])).admits (node.get "else") = true :=
    hdoc.admits hkind rfl
  have hbelow := hwalk.get hdoc (show "else" ∉ annotationKeys by decide)
  rw [Members.nodesUnder]
  rcases admits_node hform with hnone | ⟨alternative, helse, hkinds⟩
  · rw [hnone]
    cases helse : node.get "else" with
    | obj alternative => exact absurd (helse ▸ hnone) (List.cons_ne_nil _ _)
    | _ => exact Transcribes.pure _
  · have helseDoc := hdoc.get "else" (by decide)
    have hlt := height_get_lt node "else"
    rw [helse] at hbelow helseDoc hlt ⊢
    dsimp only
    split
    case isTrue => exact hbelow scope .other
    case isFalse hconditional =>
      obtain ⟨name, hname, hblock⟩ := hkinds _ rfl
      rcases List.mem_pair.mp hname with rfl | rfl
      · exact absurd hblock hconditional
      · rw [if_pos hblock]
        refine Transcribes.lift_bind fun siblingSpan _ => ?_
        refine (transcribes_openScope _ _ _ _).bind_of_nil fun sibling => ?_
        exact (transcribes_walkBlock (hwalk.mono (Nat.le_of_lt hlt)) helseDoc hblock).of_same
          (sameMentions_inner_of_hasKind hblock (by simp))

theorem transcribes_walkClause {node : Members} {span : Span}
    (hwalk : TranscribesBelow src walk (Json.obj node).height)
    (hdoc : (Json.obj node).Documented) (hclause : node.isClause = true) :
    Transcribes src (walkClause walk node span scope) node.inner := by
  have hparts : SameMentions (node.nodesUnder ["list", "comm", "body"]) node.inner := by
    rcases Bool.or_eq_true_iff.mp hclause with hkind | hkind
    · exact sameMentions_nodesUnder _ hdoc hkind rfl rfl (by decide)
    · exact sameMentions_nodesUnder _ hdoc hkind rfl rfl (by decide)
  refine Transcribes.of_same ?_ hparts
  unfold walkClause
  refine (transcribes_openScope _ _ _ _).bind_of_nil fun inner => ?_
  refine (hwalk.get hdoc (by decide) inner .other).bind fun _ => ?_
  refine (hwalk.get hdoc (by decide) inner .other).bind fun _ => ?_
  exact hwalk.get hdoc (by decide) inner .other

/-! ## Nodes by their kinds -/

theorem transcribes_rangeLoop {node : Members}
    (hwalk : TranscribesBelow src walk (Json.obj node).height)
    (hdoc : (Json.obj node).Documented)
    (hform : (PartForm.node (some ["BlockStmt"])).admits (node.get "body") = true) :
    Transcribes src (do
      if (node.get "tok").isText ":=" then
        [node.get "key", node.get "value"].forM (defineVariable src scope)
      walkScoped src walk node scope) node.inner := by
  by_cases hdefines : (node.get "tok").isText ":=" = true
  · simp only [hdefines, if_true]
    refine (Transcribes.forM_of_nil fun target _ => ?_).bind_of_nil fun _ => ?_
    · exact transcribes_defineVariable scope target
    · exact transcribes_walkScoped hwalk hdoc hform
  · simp only [hdefines]
    exact transcribes_walkScoped hwalk hdoc hform

/-- **A node of any kind is recorded with all that lies below it.** -/
theorem transcribes_walkNode {node : Members}
    (hwalk : TranscribesBelow src walk (Json.obj node).height)
    (hdoc : (Json.obj node).Documented) :
    Transcribes src (walkNode src walk node scope context) (Json.obj node).nodes := by
  unfold walkNode
  refine Transcribes.lift_bind fun span _ => Transcribes.lift_bind fun kind hkind => ?_
  -- The nodes of most kinds are no mentions themselves.
  have hplain : ∀ {step : TreeReader Unit},
      kind ∉ [NodeKind.identifier, .selector, .call] → Transcribes src step node.inner →
        Transcribes src step (Json.obj node).nodes :=
    fun hne hstep => hstep.of_same (sameMentions_inner_of_nodeKind hkind hne)
  have hopened : ∀ {next : Nat → TreeReader Unit} (deepens : Bool),
      (∀ inner, Transcribes src (next inner) node.inner) →
        Transcribes src (openScope .block span (some scope) deepens >>= next) node.inner :=
    fun deepens hnext => (transcribes_openScope _ _ _ _).bind_of_nil hnext
  cases kind with
  | identifier => exact transcribes_identifier (hasKind_of_names_eq hkind rfl) hdoc
  | selector =>
    have hselector := hasKind_of_names_eq hkind rfl
    have hparts := sameMentions_nodesUnder ["x", "sel"] hdoc hselector rfl rfl (by decide)
    refine Transcribes.of_same ((hwalk.get hdoc (by decide) scope context).bind fun _ =>
      transcribes_selected hdoc hselector) ?_
    exact (SameMentions.of_perm List.perm_middle).trans (hparts.cons node)
  | call => exact transcribes_walkCall hwalk hdoc (hasKind_of_names_eq hkind rfl)
  | block =>
    exact hplain (by simp) (hopened true fun inner =>
      transcribes_walkBlock hwalk hdoc (hasKind_of_names_eq hkind rfl))
  | functionLiteral =>
    exact hplain (by simp)
      (transcribes_walkFunctionLiteral hwalk hdoc (hasKind_of_names_eq hkind rfl))
  | conditional =>
    exact hplain (by simp)
      (transcribes_walkConditional hwalk hdoc (hasKind_of_names_eq hkind rfl))
  | rangeLoop =>
    exact hplain (by simp) (hopened true fun inner => transcribes_rangeLoop hwalk hdoc
      (hdoc.admits (hasKind_of_names_eq hkind rfl) rfl))
  | «scoped» =>
    obtain ⟨name, hname, hnamed⟩ := hasKind_of_nodeKind hkind (by simp)
    have hform : (PartForm.node (some ["BlockStmt"])).admits (node.get "body") = true := by
      simp only [NodeKind.names, List.mem_cons, List.not_mem_nil, or_false] at hname
      rcases hname with rfl | rfl | rfl | rfl <;>
        exact hdoc.admits hnamed rfl
    exact hplain (by simp) (hopened true fun inner => transcribes_walkScoped hwalk hdoc hform)
  | clause =>
    obtain ⟨name, hname, hnamed⟩ := hasKind_of_nodeKind hkind (by simp)
    have hclause : node.isClause = true := by
      rw [Members.isClause, Bool.or_eq_true]
      rcases List.mem_pair.mp hname with rfl | rfl
      · exact Or.inl hnamed
      · exact Or.inr hnamed
    exact hplain (by simp) (transcribes_walkClause hwalk hdoc hclause)
  | assignment =>
    exact hplain (by simp)
      (transcribes_walkAssignment hwalk hdoc (hasKind_of_names_eq hkind rfl))
  | declaration =>
    exact hplain (by simp)
      (transcribes_walkDeclaration hwalk hdoc (hasKind_of_names_eq hkind rfl))
  | plain context => exact hplain (by simp) (transcribes_walkParts hwalk hdoc)
  | other => exact hplain (by simp) (transcribes_walkParts hwalk hdoc)

end Walk

/-! ## The walk -/

theorem transcribesValue_walkStep {walk : TreeWalk} {value : Json}
    (hwalk : TranscribesBelow src walk value.height) (hdoc : value.Documented) :
    TranscribesValue src (walkStep src walk) value := by
  intro scope context
  cases value with
  | arr items =>
    rw [nodes_arr]
    exact Transcribes.forM fun item hitem =>
      hwalk item (Json.height_lt_of_mem hitem) (hdoc.item hitem) scope context
  | obj node =>
    unfold walkStep
    dsimp only
    split
    · -- An object without a kind is no node, and holds nothing to record.
      rename_i hkind
      have hkinded := isKinded_of_isDocumented hdoc.node
      rw [Members.isKinded, hkind] at hkinded
      exact (Transcribes.pure _).of_same (sameMentions_nil_of_isSilent hkinded)
    · exact transcribes_walkNode hwalk hdoc
  | _ => exact Transcribes.pure _

/-- The levels of a walk are enough for every value that is not higher. -/
theorem transcribesValue_walkWithin (levels : Nat) : ∀ value : Json, value.height ≤ levels →
    value.Documented → TranscribesValue src (walkWithin src levels) value := by
  induction levels with
  | zero =>
    intro value hheight _ scope context
    cases value with
    | arr items => cases hheight
    | obj node => cases hheight
    | _ => exact Transcribes.pure _
  | succ levels ih =>
    intro value hheight hdoc
    refine transcribesValue_walkStep (fun part hlt => ih part ?_) hdoc
    exact Nat.le_of_lt_succ (Nat.lt_of_lt_of_le hlt hheight)

/-- **The walk records every identifier and every call of a documented value once.** -/
theorem transcribes_walkTree {value : Json} (hdoc : value.Documented) :
    TranscribesValue src (walkTree src) value :=
  transcribesValue_walkWithin value.height value (Nat.le_refl _) hdoc

end GoConventions
