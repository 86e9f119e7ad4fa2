import GoConventions.Proofs.Tree.Registration

/-!
# Where the calls of a walk stand

A walk registers the calls of a documented value with their standings (`registers_walkTree`).  There
is one lemma for each function of the walk, and the levels of the walk are tied together as the walk
itself ties them.

## Main definitions

* `RegistersValue`, `RegistersBelow`: a walk registers a value, or all documented values below a
  height.

## Main results

* `registers_walkAssigned`, `registers_walkValueSpec`: values that are bound to targets.
* `registers_walkTree`: a documented value is registered with all its calls.
-/

namespace GoConventions

variable {src : SourceText}

/-! ## Walks that register values -/

/-- A walk registers a value in the contexts that show its standing. -/
def RegistersValue (src : SourceText) (walk : TreeWalk) (value : Json) : Prop :=
  ∀ scope context standing, Standing.ShownBy standing context →
    Registers src (walk value scope context) (value.standings standing)

/-- A walk registers every documented value that is less high than the bound. -/
def RegistersBelow (src : SourceText) (walk : TreeWalk) (bound : Nat) : Prop :=
  ∀ value, value.height < bound → value.Documented → RegistersValue src walk value

section Walk

variable {walk : TreeWalk} {scope : Nat} {context : CallContext} {standing : Standing}

theorem RegistersBelow.mono {bound lower : Nat} (hwalk : RegistersBelow src walk bound)
    (hle : lower ≤ bound) : RegistersBelow src walk lower :=
  fun value hlt => hwalk value (Nat.lt_of_lt_of_le hlt hle)

/-- A part in a plain place. -/
theorem RegistersBelow.get {node : Members}
    (hwalk : RegistersBelow src walk (Json.obj node).height) (hdoc : (Json.obj node).Documented)
    {key : String} (hkey : key ∉ annotationKeys) (scope : Nat) :
    Registers src (walk (node.get key) scope .other) ((node.get key).standings .other) :=
  hwalk _ (height_get_lt node key) (hdoc.get key hkey) scope .other .other Standing.shownBy_other

/-- A node that is listed under a key. -/
theorem RegistersBelow.item {node below : Members}
    (hwalk : RegistersBelow src walk (Json.obj node).height) (hdoc : (Json.obj node).Documented)
    {key : String} (hkey : key ∉ annotationKeys) {listed : List Members}
    (hlisted : nodesIn (node.get key) = .ok listed) (hbelow : below ∈ listed) :
    RegistersValue src walk (.obj below) :=
  hwalk _ (height_lt_of_mem_nodesIn_get hlisted hbelow)
    ((hdoc.get key hkey).of_nodesIn hlisted hbelow)

/-- The nodes of a documented list are registered like the list. -/
theorem registers_forM_nodesIn {kinds : Option (List String)} {value : Json}
    {listed : List Members} {f : Members → TreeReader Unit}
    (hform : (PartForm.nodes kinds).admits value = true) (hlisted : nodesIn value = .ok listed)
    (hf : ∀ node ∈ listed, Registers src (f node) ((Json.obj node).standings standing)) :
    Registers src (listed.forM f) (value.standings standing) := by
  rw [← iUnion_nodesIn_standings hform hlisted]
  exact Registers.forM hf

/-- A block hands down nothing, wherever it stands. -/
theorem standings_block {block : Members} (hdoc : (Json.obj block).Documented)
    (hkind : block.hasKind "BlockStmt" = true) :
    (Json.obj block).standings standing = (block.get "list").standings .other := by
  rw [standings_node ["list"] hdoc hkind rfl rfl (by decide) (by simp),
    handsDown_of_hasKind hkind (by simp)]
  rfl

theorem registers_walkBlock {block : Members}
    (hwalk : RegistersBelow src walk (Json.obj block).height)
    (hdoc : (Json.obj block).Documented) (hkind : block.hasKind "BlockStmt" = true) :
    Registers src (walkBlock src walk block scope) ((Json.obj block).standings standing) := by
  rw [standings_block hdoc hkind]
  unfold walkBlock
  refine Registers.lift_bind fun _ _ => Registers.lift_bind fun items hitems => ?_
  have hform : (PartForm.nodes none).admits (block.get "list") = true := hdoc.admits hkind rfl
  have hitemsDoc := hdoc.get "list" (by decide)
  have hlt := height_get_lt block "list"
  rcases elements_eq_ok hitems with hlist | rfl
  · rw [hlist] at hitemsDoc hlt ⊢
    rw [standings_arr]
    exact Registers.forM fun item hitem =>
      hwalk item (Nat.lt_trans (Json.height_lt_of_mem hitem) hlt) (hitemsDoc.item hitem) scope
        .other .other Standing.shownBy_other
  · rw [standings_eq_empty_of_nodes (admits_nodes hform hitems).1]
    exact Registers.pure _

theorem registers_walkBody {body : Json} (hwalk : RegistersBelow src walk body.height)
    (hdoc : body.Documented)
    (hform : (PartForm.node (some ["BlockStmt"])).admits body = true) :
    Registers src (walkBody src walk body scope) (body.standings standing) := by
  unfold walkBody
  rcases admits_only hform with hnone | ⟨block, rfl, hkind⟩
  · rw [standings_eq_empty_of_nodes hnone]
    cases body with
    | obj block => exact absurd hnone (List.cons_ne_nil _ _)
    | _ => exact Registers.pure _
  · exact registers_walkBlock hwalk hdoc hkind

/-- A node that is no call and binds nothing has the calls of its parts. -/
theorem standings_parts {node : Members} (hcall : node.hasKind "CallExpr" = false)
    (hfree : node.binding? standing = none) :
    (Json.obj node).standings standing =
      ⋃ part ∈ node.parts, part.2.standings (node.handsDown standing) := by
  ext entry
  rw [mem_standings_obj, hcall, hfree]
  simp

theorem registers_walkParts {node : Members} {inherited : Standing}
    (hwalk : RegistersBelow src walk (Json.obj node).height)
    (hdoc : (Json.obj node).Documented) (hshown : inherited.ShownBy context) :
    Registers src (walkParts walk node scope context)
      (⋃ part ∈ node.parts, part.2.standings inherited) := by
  unfold walkParts
  refine Registers.forM fun part hpart => hwalk part.2 ?_ (hdoc.part hpart) scope context _ hshown
  exact Nat.lt_succ_of_le (Json.height_le_heightOfMembers (List.mem_of_mem_filter hpart))

/-- A part that takes the place of the body is a block. -/
theorem registers_walkScoped {node : Members}
    (hwalk : RegistersBelow src walk (Json.obj node).height)
    (hdoc : (Json.obj node).Documented)
    (hform : (PartForm.node (some ["BlockStmt"])).admits (node.get "body") = true) :
    Registers src (walkScoped src walk node scope)
      (⋃ part ∈ node.parts, part.2.standings .other) := by
  unfold walkScoped
  refine Registers.forM fun part hpart => ?_
  obtain ⟨key, value⟩ := part
  have hmem := List.mem_of_mem_filter hpart
  have hlt : value.height < (Json.obj node).height :=
    Nat.lt_succ_of_le (Json.height_le_heightOfMembers hmem)
  dsimp only
  split
  case h_1 body =>
    rw [get_eq_of_mem (keys_nodup_of_isDocumented hdoc.node) hmem] at hform
    exact registers_walkBody (hwalk.mono (Nat.le_of_lt hlt)) (hdoc.part hpart) hform
  case h_2 => exact hwalk value hlt (hdoc.part hpart) scope .other .other Standing.shownBy_other

/-! ## Calls and assignments -/

/-- **A call is recorded as its standing says.** -/
theorem registers_walkCall {node : Members} {targets : List Members}
    (hwalk : RegistersBelow src walk (Json.obj node).height)
    (hdoc : (Json.obj node).Documented) (hkind : node.hasKind "CallExpr" = true)
    (hrecorded : standing.RecordedAs context targets) :
    Registers src (walkCall src walk node scope context targets)
      ((Json.obj node).standings standing) := by
  have hform : (PartForm.nodes none).admits (node.get "args") = true := hdoc.admits hkind rfl
  have hentries : node.standingsUnder .other ["fun", "args"] ∪ {(node, standing)} =
      (node.get "fun").standings .other ∪
        ((node.get "args").standings .other ∪ {(node, standing)}) := Set.union_assoc _ _ _
  rw [standings_call hdoc hkind, hentries]
  unfold walkCall
  -- The callee is walked first, then the arguments, and the call itself is recorded last.
  refine (hwalk.get hdoc (by decide) scope).bind fun _ => Registers.lift_bind fun args hargs => ?_
  rw [← iUnion_nodesIn_standings hform hargs]
  refine Registers.bind (Registers.mapM fun arg harg => Registers.lift_bind fun argument _ => ?_)
    fun args => ?_
  · exact (hwalk.item hdoc (by decide) hargs harg scope .other _ Standing.shownBy_other).map
  refine Registers.lift_bind fun callee hcallee => Registers.lift_bind fun span hspan => ?_
  refine Registers.mapM_lift_bind fun names hnames => Registers.mapM_lift_bind fun spans _ => ?_
  exact registers_recordCall ⟨hspan, hcallee, rfl, targets, hrecorded, hnames⟩

/-- A value that is assigned. -/
theorem registers_walkValue {value : Members} {token : Json} {targets : List Members}
    (hwalk : RegistersBelow src walk ((Json.obj value).height + 1))
    (hdoc : (Json.obj value).Documented) (hcontext : context = .define ∨ context = .assign) :
    Registers src (if value.hasKind "CallExpr" then walkCall src walk value scope context targets
      else walk (.obj value) scope .other)
        ((Json.obj value).standings (.assigned token targets)) := by
  split
  case isTrue hkind =>
    exact registers_walkCall (hwalk.mono (Nat.le_succ _)) hdoc hkind ⟨hcontext, rfl⟩
  case isFalse hkind =>
    rw [standings_assigned (Bool.eq_false_iff.mpr hkind)]
    exact hwalk _ (Nat.lt_succ_self _) hdoc scope .other .other Standing.shownBy_other

/-- **What is assigned is recorded with its targets.** -/
theorem registers_walkAssigned {token : Json} {targets values : List Members} {bound : Nat}
    (hwalk : RegistersBelow src walk bound)
    (hbound : ∀ value ∈ values, (Json.obj value).height < bound)
    (hdoc : ∀ value ∈ values, (Json.obj value).Documented)
    (hcontext : context = .define ∨ context = .assign) :
    Registers src (walkAssigned src walk scope context targets values)
      (boundStandings (boundValues (.assigned token) targets values)) := by
  unfold walkAssigned
  split
  case h_1 value =>
    rw [boundValues, boundStandings_singleton]
    exact registers_walkValue (hwalk.mono (hbound value List.mem_cons_self))
      (hdoc value List.mem_cons_self) hcontext
  case h_2 hsingle =>
    split
    case isTrue hlength =>
      -- Each value is walked with the target at its place.
      rw [boundValues_of_length_eq _ hlength, boundStandings_map]
      refine Registers.forM fun pair hpair => ?_
      have hmem := (List.of_mem_zip hpair).2
      exact registers_walkValue (hwalk.mono (hbound _ hmem)) (hdoc _ hmem) hcontext
    case isFalse hlength =>
      rw [boundValues_of_length_ne _ hsingle hlength, boundStandings_map]
      exact Registers.forM fun value hvalue =>
        hwalk _ (hbound value hvalue) (hdoc value hvalue) scope .other .other
          Standing.shownBy_other

theorem registers_walkAssignment {node : Members}
    (hwalk : RegistersBelow src walk (Json.obj node).height)
    (hdoc : (Json.obj node).Documented) (hkind : node.hasKind "AssignStmt" = true) :
    Registers src (walkAssignment src walk node scope) ((Json.obj node).standings standing) := by
  rw [standings_assignment hdoc hkind]
  unfold walkAssignment
  refine Registers.lift_bind fun targets htargets => ?_
  refine Registers.lift_bind fun values hvalues => ?_
  have hlhs : (PartForm.nodes none).admits (node.get "lhs") = true := hdoc.admits hkind rfl
  rw [nodesAt_of_nodesIn htargets, nodesAt_of_nodesIn hvalues]
  -- The token chooses between the two contexts, and the walk is the same in both.
  have hwalked : ∀ context, context = .define ∨ context = .assign → Registers src (do
      targets.forM fun target => walk (.obj target) scope .other
      walkAssigned src walk scope context targets values) ((node.get "lhs").standings .other ∪
        boundStandings (boundValues (.assigned (node.get "tok")) targets values)) := by
    intro context hcontext
    refine (registers_forM_nodesIn hlhs htargets fun target htarget => ?_).bind fun _ => ?_
    · exact hwalk.item hdoc (by decide) htargets htarget scope .other _ Standing.shownBy_other
    · exact registers_walkAssigned hwalk
        (fun value hvalue => height_lt_of_mem_nodesIn_get hvalues hvalue)
        (fun value hvalue => (hdoc.get "rhs" (by decide)).of_nodesIn hvalues hvalue) hcontext
  have hdefined : Registers src
      (targets.forM fun target => defineVariable src scope (.obj target)) ∅ :=
    Registers.forM_of_empty fun target _ =>
      registers_of_transcribes (transcribes_defineVariable scope _) rfl
  by_cases hdefines : (node.get "tok").isText ":=" = true
  · simp only [hdefines, if_true]
    exact hdefined.bind_of_empty fun _ => hwalked _ (Or.inl rfl)
  · simp only [hdefines]
    exact hwalked _ (Or.inr rfl)

/-! ## Declarations among statements -/

/-- The values of a specification, whose context says nothing of their standings. -/
theorem exists_values_of_valueSpec {spec : Members} {values : List Members}
    (hdoc : (Json.obj spec).Documented) (hkind : spec.hasKind "ValueSpec" = true)
    (hvalues : nodesIn (spec.get "values") = .ok values)
    (hstanding : standing = .specified ∨ standing = .other) :
    ∃ bound : List (Members × Standing), bound.map Prod.fst = values ∧
      (∀ value ∈ bound, value.2.ShownBy .value) ∧
      (Json.obj spec).standings standing =
        (spec.get "type").standings .other ∪ boundStandings bound := by
  have hquiet : Standing.other.ShownBy .value := by
    unfold Standing.ShownBy
    decide
  have hdeclared : ∀ targets, (Standing.declared targets).ShownBy .value := fun _ => hquiet
  have hnone : ∀ inherited, (spec.get "names").standings inherited = ∅ := fun inherited =>
    standings_identifiers (hdoc.get "names" (by decide)) (hdoc.admits hkind rfl)
  rcases hstanding with rfl | rfl
  -- A declaration of variables binds its values, and one of constants does not.
  · refine ⟨boundValues .declared (spec.nodesAt "names") values, map_fst_boundValues _ _ _,
      forall_boundValues (P := (Standing.ShownBy · .value)) hdeclared hquiet _ values, ?_⟩
    rw [standings_specified hdoc hkind, nodesAt_of_nodesIn hvalues]
    rw [Members.standingsUnder, Members.standingsUnder, hnone, Set.union_empty]
    simp
  · refine ⟨values.map (·, .other), ?_, ?_, ?_⟩
    · rw [List.map_map]
      exact List.map_id _
    · simpa using fun _ _ => hquiet
    · have hvaluesForm : (PartForm.nodes none).admits (spec.get "values") = true :=
        hdoc.admits hkind rfl
      rw [standings_of_speaksUnder ["type", "names", "values"] hdoc
        (speaksUnder_of_hasKind _ hdoc hkind rfl rfl) (by decide) (hasKind_unique hkind (by simp))
        (Standing.shownBy_other.binding?_eq_none (hasKind_unique hkind (by simp))),
        handsDown_of_hasKind hkind (by simp), boundStandings_map,
        iUnion_nodesIn_standings hvaluesForm hvalues]
      rw [Members.standingsUnder, Members.standingsUnder, Members.standingsUnder, hnone,
        Set.empty_union]
      all_goals simp

/-- Recording a name records no call. -/
theorem registers_of_transcribes_name {α : Type} {step : TreeReader α} {name : Members}
    (hident : name.hasKind "Ident" = true) (hdoc : (Json.obj name).Documented)
    (hstep : Transcribes src step (Json.obj name).nodes) : Registers src step ∅ := by
  refine registers_of_transcribes (hstep.of_same (sameMentions_identifier hident hdoc).symm) ?_
  exact mentionsIn_call_of_identifiers (by simpa using hident)

/-- Declaring a value records no call. -/
theorem registers_declareValue {name : Members} {kind : DeclKind} {anchor : Span}
    {docs : DocComments} {calls : List CallSite} {index : Nat} {value : Option Members}
    (hident : name.hasKind "Ident" = true) (hdoc : (Json.obj name).Documented) :
    Registers src (declareValue src kind scope anchor docs calls index name value) ∅ :=
  registers_of_transcribes_name hident hdoc (transcribes_declareValue hident hdoc)

/-- **The values of a specification are recorded without targets.** -/
theorem registers_walkValueSpec {spec : Members} {token : Json} {anchor : Span}
    {docs : DocComments} (hwalk : RegistersBelow src walk (Json.obj spec).height)
    (hdoc : (Json.obj spec).Documented) (hkind : spec.hasKind "ValueSpec" = true)
    (hstanding : standing = .specified ∨ standing = .other) :
    Registers src (walkValueSpec src walk spec token scope anchor docs)
      ((Json.obj spec).standings standing) := by
  have hnamesForm : (PartForm.nodes (some ["Ident"])).admits (spec.get "names") = true :=
    hdoc.admits hkind rfl
  unfold walkValueSpec
  refine Registers.lift_bind fun names hnames => Registers.lift_bind fun values hvalues => ?_
  obtain ⟨bound, rfl, hshown, hentries⟩ :=
    exists_values_of_valueSpec hdoc hkind hvalues hstanding
  rw [hentries]
  refine (hwalk.get hdoc (by decide) scope).bind fun _ => Registers.get_bind fun _ => ?_
  -- The values are walked before their names are declared.
  rw [← Set.union_empty (boundStandings bound)]
  refine Registers.bind (Registers.forM_map fun value hvalue => ?_) fun _ =>
    Registers.get_bind fun _ => Registers.forM_of_empty fun entry hentry => ?_
  · exact hwalk.item hdoc (by decide) hvalues (List.mem_map_of_mem hvalue) scope .value _
      (hshown value hvalue)
  · have hname : entry.1 ∈ names := List.fst_mem_of_mem_zipIdx hentry
    exact registers_declareValue (hasKind_of_mem_nodesIn hnamesForm hnames hname)
      ((hdoc.get "names" (by decide)).of_nodesIn hnames hname)

/-- A declaration of variables says so to its specifications, if it stands where one is expected. -/
theorem handsDown_declaration {decl : Members} (hkind : decl.hasKind "GenDecl" = true) :
    decl.handsDown .declaration =
      if (decl.get "tok").isText "var" then .specified else .other := by
  unfold Members.handsDown
  rw [hasKind_unique hkind (show "GenDecl" ≠ "ExprStmt" by simp),
    hasKind_unique hkind (show "GenDecl" ≠ "GoStmt" by simp),
    hasKind_unique hkind (show "GenDecl" ≠ "DeclStmt" by simp), hkind]
  rfl

theorem standings_general {decl : Members} (hdoc : (Json.obj decl).Documented)
    (hkind : decl.hasKind "GenDecl" = true) :
    (Json.obj decl).standings .declaration =
      (decl.get "specs").standings
        (if (decl.get "tok").isText "var" then .specified else .other) := by
  rw [standings_node ["specs"] hdoc hkind rfl rfl (by decide) (by simp),
    handsDown_declaration hkind]
  rfl

theorem registers_walkDeclaration {node : Members}
    (hwalk : RegistersBelow src walk (Json.obj node).height)
    (hdoc : (Json.obj node).Documented) (hkind : node.hasKind "DeclStmt" = true) :
    Registers src (walkDeclaration src walk node scope) ((Json.obj node).standings standing) := by
  have hentries : (Json.obj node).standings standing =
      (node.get "decl").standings .declaration := by
    have hdown : node.handsDown standing = .declaration := by
      unfold Members.handsDown
      rw [hasKind_unique hkind (show "DeclStmt" ≠ "ExprStmt" by simp),
        hasKind_unique hkind (show "DeclStmt" ≠ "GoStmt" by simp), hkind]
      rfl
    rw [standings_node ["decl"] hdoc hkind rfl rfl (by decide) (by simp), hdown]
    rfl
  have hform : (PartForm.node (some ["GenDecl"])).admits (node.get "decl") = true :=
    hdoc.admits hkind rfl
  rw [hentries]
  unfold walkDeclaration
  refine Registers.lift_bind fun decl hdecl => Registers.lift_bind fun specs hspecs => ?_
  rcases admits_only hform with hnone | ⟨found, hfound, hgeneral⟩
  · -- No declaration, and no specifications.
    obtain rfl := eq_nil_of_nodeOrEmpty hdecl hnone
    obtain rfl : specs = [] := (Except.ok.inj hspecs).symm
    rw [standings_eq_empty_of_nodes hnone]
    exact Registers.pure _
  obtain rfl : decl = found := by
    rw [hfound] at hdecl
    exact (Except.ok.inj hdecl).symm
  have hdeclDoc : (Json.obj decl).Documented := hfound ▸ hdoc.get "decl" (by decide)
  have hspecsForm : (PartForm.nodes (some [NodeForm.ofKind.specification (decl.get "tok")])).admits
      (decl.get "specs") = true := hdeclDoc.admits hgeneral rfl
  rw [hfound, standings_general hdeclDoc hgeneral]
  refine registers_forM_nodesIn hspecsForm hspecs fun spec hspec => ?_
  have hspecDoc := (hdeclDoc.get "specs" (by decide)).of_nodesIn hspecs hspec
  have hlt : (Json.obj spec).height < (Json.obj node).height :=
    Nat.lt_trans (Nat.lt_of_lt_of_le (height_lt_of_mem_nodesIn hspecs hspec)
      (height_get_nodeOrEmpty_le "specs" hdecl)) (height_get_lt node "decl")
  split
  case isTrue htoken =>
    have hvalue := hasKind_of_mem_nodesIn hspecsForm hspecs hspec
    rw [specification_eq_valueSpec htoken] at hvalue
    refine Registers.lift_bind fun span _ =>
      registers_walkValueSpec (hwalk.mono (Nat.le_of_lt hlt)) hspecDoc hvalue ?_
    exact ite_eq_or_eq _ _ _
  case isFalse htoken =>
    rw [Bool.or_eq_true, not_or] at htoken
    rw [if_neg htoken.1]
    exact hwalk _ hlt hspecDoc scope .other .other Standing.shownBy_other

/-! ## Signatures -/

/-- A field holds no calls but those of its type. -/
theorem standings_field {field : Members} (hdoc : (Json.obj field).Documented)
    (hkind : field.hasKind "Field" = true) :
    (Json.obj field).standings standing = (field.get "type").standings .other := by
  have hnone : (field.get "names").standings .other = ∅ :=
    standings_identifiers (hdoc.get "names" (by decide)) (hdoc.admits hkind rfl)
  rw [standings_node ["type", "names"] hdoc hkind rfl rfl (by decide) (by simp),
    handsDown_of_hasKind hkind (by simp)]
  exact (congrArg _ hnone).trans (Set.union_empty _)

theorem registers_declareParameter {name : Members} {typeText : String}
    (hident : name.hasKind "Ident" = true) (hdoc : (Json.obj name).Documented) :
    Registers src (declareParameter src typeText scope name) ∅ :=
  registers_of_transcribes_name hident hdoc (transcribes_declareParameter hident hdoc)

theorem registers_parametersOfField {field : Members}
    (hwalk : RegistersBelow src walk (Json.obj field).height)
    (hdoc : (Json.obj field).Documented) (hkind : field.hasKind "Field" = true) :
    Registers src (parametersOfField src walk scope field)
      ((Json.obj field).standings .other) := by
  have hform : (PartForm.nodes (some ["Ident"])).admits (field.get "names") = true :=
    hdoc.admits hkind rfl
  rw [standings_field hdoc hkind, ← Set.union_empty ((field.get "type").standings .other)]
  unfold parametersOfField
  refine Registers.lift_bind fun typeText _ => (hwalk.get hdoc (by decide) scope).bind fun _ => ?_
  refine Registers.lift_bind fun names hnames => ?_
  split
  · exact Registers.lift_bind fun span _ => Registers.pure _
  · exact Registers.mapM_of_empty fun name hname => registers_declareParameter
      (hasKind_of_mem_nodesIn hform hnames hname)
      ((hdoc.get "names" (by decide)).of_nodesIn hnames hname)

theorem registers_resultsOfField {field : Members}
    (hwalk : RegistersBelow src walk (Json.obj field).height)
    (hdoc : (Json.obj field).Documented) (hkind : field.hasKind "Field" = true) :
    Registers src (resultsOfField src walk scope field)
      ((Json.obj field).standings .other) := by
  rw [standings_field hdoc hkind, ← Set.union_empty ((field.get "type").standings .other)]
  unfold resultsOfField
  refine Registers.lift_bind fun typeText _ => (hwalk.get hdoc (by decide) scope).bind fun _ => ?_
  refine Registers.lift_bind fun names _ => Registers.map ?_
  exact Registers.forM_of_empty fun name _ => registers_recordIdentifier _ _

/-- The fields of a field list, one after the other. -/
theorem registers_mapM_fieldsOf {α : Type} {fieldList : Json} {fields : List Members}
    {f : Members → TreeReader α} (hfields : fieldsOf fieldList = .ok fields)
    (hwalk : RegistersBelow src walk fieldList.height) (hdoc : fieldList.Documented)
    (hform : (PartForm.node (some ["FieldList"])).admits fieldList = true)
    (hf : ∀ field : Members, RegistersBelow src walk (Json.obj field).height →
      (Json.obj field).Documented → field.hasKind "Field" = true →
        Registers src (f field) ((Json.obj field).standings .other)) :
    Registers src (fields.mapM f) (fieldList.standings standing) := by
  obtain ⟨-, hall⟩ := of_fieldsOf_documented hfields hdoc hform
  have hentries : fieldList.standings standing =
      ⋃ field ∈ fields, (Json.obj field).standings .other := by
    rcases admits_only hform with hnone | ⟨list, rfl, hkind⟩
    · obtain rfl : fields = [] := by
        cases fieldList with
        | obj node => exact absurd hnone (List.cons_ne_nil _ _)
        | _ => exact (Except.ok.inj hfields).symm
      rw [standings_eq_empty_of_nodes hnone]
      simp
    · have hlistForm : (PartForm.nodes (some ["Field"])).admits (Members.get list "list") = true :=
        hdoc.admits hkind rfl
      rw [standings_node ["list"] hdoc hkind rfl rfl (by decide) (by simp),
        handsDown_of_hasKind hkind (by simp)]
      exact (iUnion_nodesIn_standings hlistForm hfields).symm
  rw [hentries]
  refine Registers.mapM fun field hfield => ?_
  obtain ⟨hfieldDoc, hkind, hlt⟩ := hall field hfield
  exact hf field (hwalk.mono (Nat.le_of_lt hlt)) hfieldDoc hkind

theorem registers_declareParameters {fieldList : Json}
    (hwalk : RegistersBelow src walk fieldList.height) (hdoc : fieldList.Documented)
    (hform : (PartForm.node (some ["FieldList"])).admits fieldList = true) :
    Registers src (declareParameters src walk fieldList scope) (fieldList.standings standing) :=
  Registers.lift_bind fun _ hfields => (registers_mapM_fieldsOf hfields hwalk hdoc hform
    fun _ hwalk' hdoc' hkind => registers_parametersOfField hwalk' hdoc' hkind).map

theorem registers_resultTypes {fieldList : Json}
    (hwalk : RegistersBelow src walk fieldList.height) (hdoc : fieldList.Documented)
    (hform : (PartForm.node (some ["FieldList"])).admits fieldList = true) :
    Registers src (resultTypes src walk fieldList scope) (fieldList.standings standing) :=
  Registers.lift_bind fun _ hfields => (registers_mapM_fieldsOf hfields hwalk hdoc hform
    fun _ hwalk' hdoc' hkind => registers_resultsOfField hwalk' hdoc' hkind).map

/-! ## Scopes -/

/-- The parameters and then the results of a function. -/
theorem registers_parametersAndResults {β : Type} {value : Json} {signature : Members}
    {next : List Param → List String → TreeReader β} {entries : Set (Members × Standing)}
    (hwalk : RegistersBelow src walk value.height)
    (hsignature : nodeOrEmpty value = .ok signature) (hdoc : value.Documented)
    (hkind : ∀ type, value = .obj type → Members.hasKind type "FuncType" = true)
    (hnext : ∀ params results, Registers src (next params results) entries) :
    Registers src (do
      let params ← declareParameters src walk (signature.get "params") scope
      let results ← resultTypes src walk (signature.get "results") scope
      next params results) (signature.standingsUnder .other ["params", "results"] ∪ entries) := by
  obtain ⟨hparams, hparamsDoc, hparamsHeight⟩ :=
    admits_get_signature hsignature hdoc hkind (Or.inl rfl)
  obtain ⟨hresults, hresultsDoc, hresultsHeight⟩ :=
    admits_get_signature hsignature hdoc hkind (Or.inr rfl)
  show Registers src _
    (((signature.get "params").standings .other ∪ (signature.get "results").standings .other) ∪
      entries)
  rw [Set.union_assoc]
  refine (registers_declareParameters (hwalk.mono hparamsHeight) hparamsDoc hparams).bind
    fun params => ?_
  exact (registers_resultTypes (hwalk.mono hresultsHeight) hresultsDoc hresults).bind
    fun results => hnext params results

/-- Opening a scope records no call. -/
theorem registers_openScope_bind {β : Type} {kind : ScopeKind} {span : Span} {parent : Option Nat}
    {deepens : Bool} {next : Nat → TreeReader β} {entries : Set (Members × Standing)}
    (hnext : ∀ inner, Registers src (next inner) entries) :
    Registers src (openScope kind span parent deepens >>= next) entries :=
  (registers_of_transcribes (transcribes_openScope _ _ _ _) rfl).bind_of_empty hnext

/-- The signature of a function literal has no calls but those in its parameters and results. -/
theorem standings_signature {value : Json} {signature : Members}
    (hsignature : nodeOrEmpty value = .ok signature) (hdoc : value.Documented)
    (hform : PartForm.signature.admits value = true) :
    value.standings .other = signature.standingsUnder .other ["params", "results"] := by
  rcases admits_signature hform with hnone | ⟨type, rfl, hkind, hspeaks⟩
  · obtain rfl := eq_nil_of_nodeOrEmpty hsignature hnone
    have hempty : (Json.null).standings .other = ∅ := standings_eq_empty_of_nodes rfl
    rw [standings_eq_empty_of_nodes hnone]
    show ∅ = (Json.null).standings .other ∪ (Json.null).standings .other
    rw [hempty, Set.union_empty]
  · obtain rfl : type = signature := Except.ok.inj hsignature
    rw [standings_of_speaksUnder ["params", "results"] hdoc hspeaks (by decide)
      (hasKind_unique hkind (by simp))
      (Standing.shownBy_other.binding?_eq_none (hasKind_unique hkind (by simp))),
      handsDown_of_hasKind hkind (by simp)]

theorem registers_walkFunctionLiteral {node : Members} {span : Span}
    (hwalk : RegistersBelow src walk (Json.obj node).height)
    (hdoc : (Json.obj node).Documented) (hkind : node.hasKind "FuncLit" = true) :
    Registers src (walkFunctionLiteral src walk node span scope)
      ((Json.obj node).standings standing) := by
  have hform : PartForm.signature.admits (node.get "type") = true := hdoc.admits hkind rfl
  have htypeDoc := hdoc.get "type" (by decide)
  rw [standings_node ["type", "body"] hdoc hkind rfl rfl (by decide) (by simp),
    handsDown_of_hasKind hkind (by simp), Members.standingsUnder]
  · unfold walkFunctionLiteral
    refine registers_openScope_bind fun inner => Registers.lift_bind fun signature hsignature => ?_
    rw [standings_signature hsignature htypeDoc hform]
    refine registers_parametersAndResults
      (hwalk.mono (Nat.le_of_lt (height_get_lt node "type"))) hsignature htypeDoc
      (fun type htype => ?_) fun _ _ => ?_
    · rw [htype] at hform
      exact (Bool.and_eq_true_iff.mp hform).1
    · exact registers_walkBody (hwalk.mono (Nat.le_of_lt (height_get_lt node "body")))
        (hdoc.get "body" (by decide)) (hdoc.admits hkind rfl)
  · simp

/-- The alternative of a conditional is a conditional or a block. -/
theorem registers_walkConditional {node : Members} {span : Span}
    (hwalk : RegistersBelow src walk (Json.obj node).height)
    (hdoc : (Json.obj node).Documented) (hkind : node.hasKind "IfStmt" = true) :
    Registers src (walkConditional src walk node span scope)
      ((Json.obj node).standings standing) := by
  rw [standings_node ["init", "cond", "body", "else"] hdoc hkind rfl rfl (by decide) (by simp),
    handsDown_of_hasKind hkind (by simp)]
  unfold walkConditional
  refine registers_openScope_bind fun inner => ?_
  refine (hwalk.get hdoc (by decide) inner).bind fun _ => ?_
  refine (hwalk.get hdoc (by decide) inner).bind fun _ => ?_
  refine (registers_walkBody (hwalk.mono (Nat.le_of_lt (height_get_lt node "body")))
    (hdoc.get "body" (by decide)) (hdoc.admits hkind rfl)).bind fun _ => ?_
  have hform : (PartForm.node (some ["IfStmt", "BlockStmt"])).admits (node.get "else") = true :=
    hdoc.admits hkind rfl
  have hbelow := hwalk.get hdoc (show "else" ∉ annotationKeys by decide) scope
  rw [Members.standingsUnder]
  rcases admits_node hform with hnone | ⟨alternative, helse, hkinds⟩
  · rw [standings_eq_empty_of_nodes hnone]
    cases helse : node.get "else" with
    | obj alternative => exact absurd (helse ▸ hnone) (List.cons_ne_nil _ _)
    | _ => exact Registers.pure _
  · have helseDoc := hdoc.get "else" (by decide)
    have hlt := height_get_lt node "else"
    rw [helse] at hbelow helseDoc hlt ⊢
    dsimp only
    split
    case isTrue => exact hbelow
    case isFalse hconditional =>
      obtain ⟨name, hname, hblock⟩ := hkinds _ rfl
      rcases List.mem_pair.mp hname with rfl | rfl
      · exact absurd hblock hconditional
      · rw [if_pos hblock]
        refine Registers.lift_bind fun siblingSpan _ => registers_openScope_bind fun sibling => ?_
        exact registers_walkBlock (hwalk.mono (Nat.le_of_lt hlt)) helseDoc hblock

theorem registers_walkClause {node : Members} {span : Span}
    (hwalk : RegistersBelow src walk (Json.obj node).height)
    (hdoc : (Json.obj node).Documented) (hclause : node.isClause = true) :
    Registers src (walkClause walk node span scope) ((Json.obj node).standings standing) := by
  have hentries : (Json.obj node).standings standing =
      node.standingsUnder .other ["list", "comm", "body"] := by
    rcases Bool.or_eq_true_iff.mp hclause with hkind | hkind
    · rw [standings_node ["list", "comm", "body"] hdoc hkind rfl rfl (by decide) (by simp),
        handsDown_of_hasKind hkind (by simp)]
    · rw [standings_node ["list", "comm", "body"] hdoc hkind rfl rfl (by decide) (by simp),
        handsDown_of_hasKind hkind (by simp)]
  rw [hentries]
  unfold walkClause
  refine registers_openScope_bind fun inner => ?_
  refine (hwalk.get hdoc (by decide) inner).bind fun _ => ?_
  exact (hwalk.get hdoc (by decide) inner).bind fun _ => hwalk.get hdoc (by decide) inner

/-! ## Nodes by their kinds -/

theorem registers_rangeLoop {node : Members}
    (hwalk : RegistersBelow src walk (Json.obj node).height)
    (hdoc : (Json.obj node).Documented)
    (hform : (PartForm.node (some ["BlockStmt"])).admits (node.get "body") = true) :
    Registers src (do
      if (node.get "tok").isText ":=" then
        [node.get "key", node.get "value"].forM (defineVariable src scope)
      walkScoped src walk node scope) (⋃ part ∈ node.parts, part.2.standings .other) := by
  by_cases hdefines : (node.get "tok").isText ":=" = true
  · simp only [hdefines, if_true]
    refine (Registers.forM_of_empty fun target _ => ?_).bind_of_empty fun _ => ?_
    · exact registers_of_transcribes (transcribes_defineVariable scope target) rfl
    · exact registers_walkScoped hwalk hdoc hform
  · simp only [hdefines]
    exact registers_walkScoped hwalk hdoc hform

/-- Statements and selections apart, a node hands down nothing. -/
theorem handsDown_of_nodeKind {node : Members} {kind : NodeKind}
    (hkind : NodeKind.of (node.get "kind") = .ok kind) (hshown : standing.ShownBy context)
    (hplain : ∀ name ∈ ["ExprStmt", "GoStmt", "DeclStmt", "SelectorExpr"],
      kind ≠ .ofName name) : node.handsDown standing = .other := by
  have hother : ∀ name ∈ ["ExprStmt", "GoStmt", "DeclStmt", "SelectorExpr"],
      node.hasKind name = false := by
    exact fun name hname => Bool.eq_false_iff.mpr fun hnamed =>
      hplain name hname (eq_ofName_of_hasKind hkind hnamed)
  unfold Members.handsDown
  rw [hother "ExprStmt" (by simp), hother "GoStmt" (by simp), hother "DeclStmt" (by simp),
    hother "SelectorExpr" (by simp)]
  -- No context shows a declaration, whose specifications are walked without it.
  cases standing with
  | declaration => cases hshown
  | _ => rfl

/-- A statement hands down what its context shows. -/
theorem shownBy_handsDown {node : Members} {found : CallContext}
    (hkind : NodeKind.of (node.get "kind") = .ok (.plain found)) :
    (node.handsDown standing).ShownBy found := by
  obtain ⟨name, hname, hnamed⟩ := hasKind_of_nodeKind hkind (by simp)
  have hfound := eq_ofName_of_hasKind hkind hnamed
  simp only [NodeKind.names, List.mem_cons, List.not_mem_nil, or_false] at hname
  rcases hname with rfl | rfl | rfl | rfl
  -- In an expression or go statement a call is the whole, in the two others it is not.
  · have hdown : node.handsDown standing = .whole := if_pos (by simp [hnamed])
    rw [hdown, NodeKind.plain.inj hfound]
    exact Or.inl rfl
  · have hdown : node.handsDown standing = .whole := if_pos (by simp [hnamed])
    rw [hdown, NodeKind.plain.inj hfound]
    exact Or.inr rfl
  · obtain rfl := NodeKind.plain.inj hfound
    rw [handsDown_of_hasKind hnamed (by simp), Standing.ShownBy]
    decide
  · obtain rfl := NodeKind.plain.inj hfound
    rw [handsDown_of_hasKind hnamed (by simp), Standing.ShownBy]
    decide

/-- The operand of a selection in a statement is shown by the statement. -/
theorem shownBy_selector {node : Members} (hkind : node.hasKind "SelectorExpr" = true)
    (hshown : standing.ShownBy context) : (node.handsDown standing).ShownBy context := by
  unfold Members.handsDown
  rw [hasKind_unique hkind (show "SelectorExpr" ≠ "ExprStmt" by simp),
    hasKind_unique hkind (show "SelectorExpr" ≠ "GoStmt" by simp),
    hasKind_unique hkind (show "SelectorExpr" ≠ "DeclStmt" by simp), hkind]
  cases standing with
  | assigned | declaration | specified => cases hshown
  | _ => exact hshown

/-- **A node of any kind is registered with all calls below it.** -/
theorem registers_walkNode {node : Members}
    (hwalk : RegistersBelow src walk (Json.obj node).height)
    (hdoc : (Json.obj node).Documented) (hshown : standing.ShownBy context) :
    Registers src (walkNode src walk node scope context) ((Json.obj node).standings standing) := by
  unfold walkNode
  refine Registers.lift_bind fun span _ => Registers.lift_bind fun kind hkind => ?_
  -- A node of most kinds is no call and binds nothing, and has the calls of its parts.
  have hparts : kind ∉ [NodeKind.call, .assignment] → (Json.obj node).standings standing =
      ⋃ part ∈ node.parts, part.2.standings (node.handsDown standing) := by
    intro hne
    have hother : ∀ name ∈ ["CallExpr", "AssignStmt"], node.hasKind name = false := by
      refine fun name hname => Bool.eq_false_iff.mpr fun hnamed => hne ?_
      rw [eq_ofName_of_hasKind hkind hnamed]
      rcases List.mem_pair.mp hname with rfl | rfl <;> decide
    exact standings_parts (hother _ (by simp)) (hshown.binding?_eq_none (hother _ (by simp)))
  cases kind with
  | identifier =>
    rw [standings_identifier hdoc (hasKind_of_names_eq hkind rfl)]
    exact registers_recordIdentifier _ _
  | selector =>
    have hselector := hasKind_of_names_eq hkind rfl
    have hselForm : (PartForm.node (some ["Ident"])).admits (node.get "sel") = true :=
      hdoc.admits hselector rfl
    have hnone : (node.get "sel").standings (node.handsDown standing) = ∅ := by
      rcases admits_only hselForm with hnodes | ⟨selected, hsel, hident⟩
      · exact standings_eq_empty_of_nodes hnodes
      · have hselDoc := hdoc.get "sel" (by decide)
        rw [hsel] at hselDoc ⊢
        exact standings_identifier hselDoc hident
    rw [standings_node ["x", "sel"] hdoc hselector rfl rfl (by decide) (by simp),
      Members.standingsUnder, Members.standingsUnder, hnone]
    · refine Registers.bind ?_ fun _ => registers_recordIdentifier _ _
      exact hwalk _ (height_get_lt node "x") (hdoc.get "x" (by decide)) scope context _
        (shownBy_selector hselector hshown)
    · simp
  | call =>
    exact registers_walkCall hwalk hdoc (hasKind_of_names_eq hkind rfl) (hshown.recordedAs [])
  | block =>
    exact registers_openScope_bind fun inner =>
      registers_walkBlock hwalk hdoc (hasKind_of_names_eq hkind rfl)
  | functionLiteral =>
    exact registers_walkFunctionLiteral hwalk hdoc (hasKind_of_names_eq hkind rfl)
  | conditional => exact registers_walkConditional hwalk hdoc (hasKind_of_names_eq hkind rfl)
  | rangeLoop =>
    rw [hparts (by simp), handsDown_of_hasKind (hasKind_of_names_eq hkind rfl) (by simp)]
    exact registers_openScope_bind fun inner => registers_rangeLoop hwalk hdoc
      (hdoc.admits (hasKind_of_names_eq hkind rfl) rfl)
  | «scoped» =>
    obtain ⟨name, hname, hnamed⟩ := hasKind_of_nodeKind hkind (by simp)
    have hform : (PartForm.node (some ["BlockStmt"])).admits (node.get "body") = true := by
      simp only [NodeKind.names, List.mem_cons, List.not_mem_nil, or_false] at hname
      rcases hname with rfl | rfl | rfl | rfl <;> exact hdoc.admits hnamed rfl
    rw [hparts (by simp), handsDown_of_nodeKind hkind hshown (by decide)]
    exact registers_openScope_bind fun inner => registers_walkScoped hwalk hdoc hform
  | clause =>
    obtain ⟨name, hname, hnamed⟩ := hasKind_of_nodeKind hkind (by simp)
    have hclause : node.isClause = true := by
      rw [Members.isClause, Bool.or_eq_true]
      rcases List.mem_pair.mp hname with rfl | rfl
      · exact Or.inl hnamed
      · exact Or.inr hnamed
    exact registers_walkClause hwalk hdoc hclause
  | assignment => exact registers_walkAssignment hwalk hdoc (hasKind_of_names_eq hkind rfl)
  | declaration => exact registers_walkDeclaration hwalk hdoc (hasKind_of_names_eq hkind rfl)
  | plain found =>
    rw [hparts (by simp)]
    exact registers_walkParts hwalk hdoc (shownBy_handsDown hkind)
  | other =>
    rw [hparts (by simp), handsDown_of_nodeKind hkind hshown (by decide)]
    exact registers_walkParts hwalk hdoc Standing.shownBy_other

end Walk

/-! ## The walk -/

theorem registersValue_walkStep {walk : TreeWalk} {value : Json}
    (hwalk : RegistersBelow src walk value.height) (hdoc : value.Documented) :
    RegistersValue src (walkStep src walk) value := by
  intro scope context standing hshown
  cases value with
  | arr items =>
    rw [standings_arr]
    exact Registers.forM fun item hitem => hwalk item (Json.height_lt_of_mem hitem)
      (hdoc.item hitem) scope context standing hshown
  | obj node =>
    unfold walkStep
    dsimp only
    split
    · -- An object without a kind is no node, and holds no call.
      rename_i hkind
      have hkinded := isKinded_of_isDocumented hdoc.node
      rw [Members.isKinded, hkind] at hkinded
      rw [standings_eq_empty_of_isSilent hkinded]
      exact Registers.pure _
    · exact registers_walkNode hwalk hdoc hshown
  | _ =>
    rw [standings_eq_empty_of_nodes rfl]
    exact Registers.pure _

/-- The levels of a walk are enough for every value that is not higher. -/
theorem registersValue_walkWithin (levels : Nat) : ∀ value : Json, value.height ≤ levels →
    value.Documented → RegistersValue src (walkWithin src levels) value := by
  -- A step uses up one level, and what it walks is less high than its value.
  induction levels with
  | zero =>
    intro value hheight _ scope context standing _
    cases value with
    | arr items => cases hheight
    | obj node => cases hheight
    | _ =>
      rw [standings_eq_empty_of_nodes rfl]
      exact Registers.pure _
  | succ levels ih =>
    intro value hheight hdoc
    refine registersValue_walkStep (fun part hlt => ih part ?_) hdoc
    exact Nat.le_of_lt_succ (Nat.lt_of_lt_of_le hlt hheight)

/-- **A walk registers the calls of a documented value with their standings.** -/
theorem registers_walkTree {value : Json} (hdoc : value.Documented) :
    RegistersValue src (walkTree src) value :=
  registersValue_walkWithin value.height value (Nat.le_refl _) hdoc

end GoConventions
