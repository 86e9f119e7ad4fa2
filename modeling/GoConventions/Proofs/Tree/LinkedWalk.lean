import GoConventions.Proofs.Tree.Linking

/-!
# A walk links initialisers

A walk links every specification of values that is read in a value (`linksValue_walkTree`).  There
is one lemma for each function of the walk, and the levels of the walk are tied together as the walk
itself ties them.

The heart of it is what a specification does (`linking_walkValueSpec`).  Its values are walked one
after the other, and the call of a value that is one stands after all calls in it and before the
calls of the values that follow; of these none starts where the value starts.

## Main definitions

* `LinksValue`, `LinksBelow`, `LinksParts`: a walk links a value, all values below a height, or some
  values.

## Main results

* `exists_call_of_walkCall`: a call is recorded after all calls in it.
* `exists_call_of_value`: where the call of a value stands among those of a specification.
* `linking_walkValueSpec`, `linksValue_walkTree`.
-/

namespace GoConventions

variable {src : SourceText} {nodes : List Members} {spec : Members} {walk : TreeWalk}
  {scope : Nat} {context : CallContext}

/-! ## Walks that link values -/

/-- A walk links the specifications in a value.  A node in which it records a call has a span, and
if the node is a call expression its own call is recorded last. -/
structure LinksValue (src : SourceText) (walk : TreeWalk) (spec : Members) (value : Json) :
    Prop where
  links : ∀ scope context,
    Linking src value.nodes spec (walk value scope context) (SpecifiedIn spec value)
  spanned : ∀ node : Members, value = .obj node → ∀ scope context draft later,
    (walk value scope context).run draft = .ok ((), later) →
      later.calls = draft.calls ∨ ∃ span, src.span node = .ok span
  ends : ∀ node : Members, value = .obj node → node.hasKind "CallExpr" = true →
    ∀ scope context draft later, (walk value scope context).run draft = .ok ((), later) →
      ∃ calls call, later.calls = draft.calls ++ (calls ++ [call]) ∧ call.IsCallOf src node ∧
        call.scope = scope

/-- A walk links every value that is less high than the bound. -/
def LinksBelow (src : SourceText) (walk : TreeWalk) (spec : Members) (bound : Nat) : Prop :=
  ∀ value : Json, value.height < bound → LinksValue src walk spec value

/-- A walk links some values, with calls from some nodes. -/
def LinksParts (src : SourceText) (nodes : List Members) (walk : TreeWalk) (spec : Members)
    (parts : List Json) : Prop :=
  ∀ part ∈ parts, ∀ scope context,
    Linking src nodes spec (walk part scope context) (SpecifiedIn spec part)

theorem LinksBelow.mono {bound lower : Nat} (hwalk : LinksBelow src walk spec bound)
    (hle : lower ≤ bound) : LinksBelow src walk spec lower :=
  fun value hlt => hwalk value (Nat.lt_of_lt_of_le hlt hle)

/-- Values below a node are linked. -/
theorem LinksBelow.parts {node : Members} (hwalk : LinksBelow src walk spec (Json.obj node).height)
    {parts : List Json} (hparts : ∀ part ∈ parts, part.Below node) :
    LinksParts src (Json.obj node).nodes walk spec parts := by
  intro part hpart scope context
  have hbelow := hparts part hpart
  exact ((hwalk part hbelow.height_lt).links scope context).weaken hbelow.nodes_subset_nodes id

namespace LinksParts

variable {parts more : List Json}

theorem subset (h : LinksParts src nodes walk spec parts) (hsubset : more ⊆ parts) :
    LinksParts src nodes walk spec more :=
  fun part hpart => h part (hsubset hpart)

theorem forM (h : LinksParts src nodes walk spec parts) :
    Linking src nodes spec (parts.forM fun part => walk part scope context)
      (SpecifiedAmong spec parts) :=
  Linking.forM fun part hpart => h part hpart scope context

/-- Nodes that are walked one after the other. -/
theorem forM_map {listed : List Members} (h : LinksParts src nodes walk spec (listed.map .obj)) :
    Linking src nodes spec (listed.forM fun node => walk (.obj node) scope context)
      (SpecifiedAmong spec (listed.map .obj)) := by
  rw [specifiedAmong_map]
  exact Linking.forM fun node hnode => h _ (List.mem_map_of_mem hnode) scope context

end LinksParts

section Walk

/-! ## Blocks and signatures -/

theorem itemsAt_of_elements {node : Members} {key : String} {items : List Json}
    (h : elements (node.get key) = .ok items) : node.itemsAt key = items := by
  rw [Members.itemsAt, h]
  rfl

theorem linking_walkBlock {block : Members}
    (h : LinksParts src nodes walk spec (Json.obj block).statements) :
    Linking src nodes spec (walkBlock src walk block scope)
      (SpecifiedAmong spec (Json.obj block).statements) := by
  unfold walkBlock
  refine .lift_bind fun _ _ => .lift_bind fun items hitems => ?_
  rw [Json.statements, itemsAt_of_elements hitems] at h ⊢
  exact h.forM

theorem linking_walkBody {body : Json} (h : LinksParts src nodes walk spec body.statements) :
    Linking src nodes spec (walkBody src walk body scope)
      (SpecifiedAmong spec body.statements) := by
  unfold walkBody
  split
  · exact linking_walkBlock h
  case h_2 hbody =>
    refine (Linking.pure _).imp ?_
    unfold Json.statements
    split
    case h_1 block => exact absurd rfl (hbody block)
    case h_2 => exact not_specifiedAmong_nil

theorem linking_walkParts {node : Members}
    (h : LinksParts src nodes walk spec (node.parts.map Prod.snd)) :
    Linking src nodes spec (walkParts walk node scope context)
      (SpecifiedAmong spec (node.parts.map Prod.snd)) := by
  rw [specifiedAmong_map]
  exact Linking.forM fun part hpart => h _ (List.mem_map_of_mem hpart) scope context

/-- The fields of a field list, in each of which the type is walked. -/
theorem linking_mapM_fieldsOf {α : Type} {fieldList : Json} {fields : List Members}
    {f : Members → TreeReader α} (hfields : fieldsOf fieldList = .ok fields)
    (hf : ∀ field ∈ fields,
      Linking src nodes spec (f field) (SpecifiedIn spec (field.get "type"))) :
    Linking src nodes spec (fields.mapM f) (SpecifiedAmong spec fieldList.fieldTypes) := by
  have htypes : fieldList.fieldTypes = fields.map fun field => field.get "type" := by
    rw [Json.fieldTypes, hfields]
    rfl
  rw [htypes, specifiedAmong_map]
  exact Linking.mapM hf

theorem linking_declareParameters {fieldList : Json}
    (h : LinksParts src nodes walk spec fieldList.fieldTypes) :
    Linking src nodes spec (declareParameters src walk fieldList scope)
      (SpecifiedAmong spec fieldList.fieldTypes) := by
  unfold declareParameters
  refine .lift_bind fun fields hfields => (linking_mapM_fieldsOf hfields fun field hfield => ?_).map
  unfold parametersOfField
  have htype : field.get "type" ∈ fieldList.fieldTypes := by
    rw [Json.fieldTypes, hfields]
    exact List.mem_map_of_mem hfield
  refine .lift_bind fun typeText _ => (h _ htype _ _).bind_silent fun _ => ?_
  refine .lift_bind fun names _ => ?_
  split
  · exact .lift_bind fun span _ => .pure _
  · exact .mapM_silent fun name _ => linking_declareParameter _ _

theorem linking_resultTypes {fieldList : Json}
    (h : LinksParts src nodes walk spec fieldList.fieldTypes) :
    Linking src nodes spec (resultTypes src walk fieldList scope)
      (SpecifiedAmong spec fieldList.fieldTypes) := by
  unfold resultTypes
  refine .lift_bind fun fields hfields => (linking_mapM_fieldsOf hfields fun field hfield => ?_).map
  unfold resultsOfField
  have htype : field.get "type" ∈ fieldList.fieldTypes := by
    rw [Json.fieldTypes, hfields]
    exact List.mem_map_of_mem hfield
  refine .lift_bind fun typeText _ => (h _ htype _ _).bind_silent fun _ => ?_
  refine .lift_bind fun names _ => ?_
  exact (Linking.forM_silent fun name _ => linking_recordIdentifier _ _).map

/-! ## Calls -/

theorem linking_mapM_walkArgument {args : List Members}
    (h : LinksParts src nodes walk spec (args.map .obj)) :
    Linking src nodes spec (args.mapM (walkArgument src walk scope))
      (SpecifiedAmong spec (args.map .obj)) := by
  rw [specifiedAmong_map]
  refine Linking.mapM fun arg harg => .lift_bind fun argument _ => ?_
  exact (h _ (List.mem_map_of_mem harg) scope .other).map

/-- The arguments of a call are what is read off their nodes. -/
theorem forall₂_of_mapM_walkArgument {args : List Members} {read : List Argument}
    {draft later : Draft}
    (h : (args.mapM (walkArgument src walk scope)).run draft = .ok (read, later)) :
    List.Forall₂ (fun arg argument => argumentOf src arg = .ok argument) args read := by
  induction args generalizing read draft with
  | nil =>
    rw [List.mapM_nil] at h
    obtain ⟨rfl, -⟩ := Prod.mk.inj (Except.ok.inj h)
    exact .nil
  | cons arg args ih =>
    rw [List.mapM_cons] at h
    obtain ⟨first, middle, hfirst, h⟩ := run_bind_eq_ok.mp h
    obtain ⟨rest, last, hrest, h⟩ := run_bind_eq_ok.mp h
    obtain ⟨rfl, rfl⟩ := Prod.mk.inj (Except.ok.inj h)
    refine .cons ?_ (ih hrest)
    obtain ⟨argument, hargument, hfirst⟩ := run_lift_bind_eq_ok.mp hfirst
    obtain ⟨_, walked, -, hdone⟩ := run_bind_eq_ok.mp hfirst
    obtain ⟨rfl, -⟩ := Prod.mk.inj (Except.ok.inj hdone)
    exact hargument

/-- What is read off each element of a list leaves the draft as it is. -/
theorem eq_of_run_mapM_lift {α β : Type} {f : α → TreeResult β} {xs : List α} {ys : List β}
    {draft later : Draft}
    (h : (xs.mapM fun x => (f x : TreeReader β)).run draft = .ok (ys, later)) :
    later = draft := by
  induction xs generalizing ys with
  | nil =>
    rw [List.mapM_nil] at h
    exact (Prod.mk.inj (Except.ok.inj h)).2.symm
  | cons x xs ih =>
    rw [List.mapM_cons, run_lift_bind_eq_ok] at h
    obtain ⟨y, -, h⟩ := h
    obtain ⟨rest, last, hrest, hdone⟩ := run_bind_eq_ok.mp h
    obtain ⟨-, rfl⟩ := Prod.mk.inj (Except.ok.inj hdone)
    exact ih hrest

/-- **A call is recorded after all calls in it**, with its span, its callee and its arguments. -/
theorem exists_call_of_walkCall {node : Members} {targets : List Members} {draft later : Draft}
    (hparts : LinksParts src nodes walk spec (node.walkedAs .call))
    (h : (walkCall src walk node scope context targets).run draft = .ok ((), later)) :
    ∃ calls call, later.calls = draft.calls ++ (calls ++ [call]) ∧ call.IsCallOf src node ∧
      call.scope = scope := by
  unfold walkCall at h
  obtain ⟨_, first, hfn, h⟩ := run_bind_eq_ok.mp h
  obtain ⟨args, hargs, h⟩ := run_lift_bind_eq_ok.mp h
  obtain ⟨read, second, hread, h⟩ := run_bind_eq_ok.mp h
  obtain ⟨name, hname, h⟩ := run_lift_bind_eq_ok.mp h
  obtain ⟨span, hspan, h⟩ := run_lift_bind_eq_ok.mp h
  obtain ⟨names, third, hnames, h⟩ := run_bind_eq_ok.mp h
  obtain ⟨spans, fourth, hspans, h⟩ := run_bind_eq_ok.mp h
  obtain ⟨-, rfl⟩ := Prod.mk.inj (Except.ok.inj h)
  have hparts : LinksParts src nodes walk spec (node.get "fun" :: args.map .obj) := by
    rw [← nodesAt_of_nodesIn hargs]
    exact hparts
  obtain ⟨fnCalls, _, hfnCalls, -⟩ := hparts _ List.mem_cons_self scope .other draft _ _ hfn
  obtain ⟨argCalls, _, hargCalls, -⟩ :=
    linking_mapM_walkArgument (hparts.subset (List.subset_cons_self _ _)) first _ _ hread
  -- What is read off the targets leaves the draft as it is.
  have hthird : third = second := eq_of_run_mapM_lift hnames
  have hfourth : fourth = third := eq_of_run_mapM_lift hspans
  refine ⟨fnCalls ++ argCalls,
    ⟨name, read, span, context, scope, names, spans, statedResults node, none⟩, ?_,
    ⟨hspan, hname, ?_⟩, rfl⟩
  · rw [hfourth, hthird]
    dsimp only
    rw [hargCalls, hfnCalls]
    simp only [List.append_assoc]
  · rw [nodesAt_of_nodesIn hargs]
    exact forall₂_of_mapM_walkArgument hread

theorem linking_walkCall {node : Members} {targets : List Members} (hnode : node ∈ nodes)
    (hkind : node.hasKind "CallExpr" = true)
    (h : LinksParts src nodes walk spec (node.walkedAs .call)) :
    Linking src nodes spec (walkCall src walk node scope context targets)
      (SpecifiedAmong spec (node.walkedAs .call)) := by
  unfold Members.walkedAs at h ⊢
  rw [specifiedAmong_cons]
  unfold walkCall
  refine (h _ List.mem_cons_self scope .other).bind fun _ => .lift_bind fun args hargs => ?_
  rw [nodesAt_of_nodesIn hargs] at h ⊢
  refine (linking_mapM_walkArgument (h.subset (List.subset_cons_self _ _))).bind_silent
    fun args => ?_
  refine .lift_bind fun callee _ => .lift_bind fun span hspan => ?_
  refine (Linking.mapM_silent fun target _ => .lift _).silent_bind fun names => ?_
  refine (Linking.mapM_silent fun target _ => .lift _).silent_bind fun spans => ?_
  exact linking_recordCall hnode hkind hspan rfl

/-! ## Assignments -/

/-- A call expression is walked as one, with targets or without. -/
theorem linking_walkValue {value : Members} (targets : List Members)
    (hwalk : ∀ scope context,
      Linking src nodes spec (walk (.obj value) scope context) (SpecifiedIn spec (.obj value)))
    (hvalue : value ∈ nodes) (hparts : LinksParts src nodes walk spec (value.walkedAs .call)) :
    Linking src nodes spec
      (if value.hasKind "CallExpr" then walkCall src walk value scope context targets
        else walk (.obj value) scope .other) (SpecifiedIn spec (.obj value)) := by
  split
  case isTrue hcall =>
    refine (linking_walkCall hvalue hcall hparts).imp fun hspecified => ?_
    rcases specifiedIn_obj (nodeKind_of_hasKind hcall) hspecified with h | ⟨hdecl, -⟩
    · exact h
    · cases hdecl
  case isFalse => exact hwalk _ _

theorem linking_walkAssigned {targets values : List Members}
    (hvalues : LinksParts src nodes walk spec (values.map .obj))
    (hnodes : ∀ value ∈ values, value ∈ nodes)
    (hparts : ∀ value ∈ values, LinksParts src nodes walk spec (value.walkedAs .call)) :
    Linking src nodes spec (walkAssigned src walk scope context targets values)
      (SpecifiedAmong spec (values.map .obj)) := by
  have hvalue : ∀ value ∈ values, ∀ targets, Linking src nodes spec
      (if value.hasKind "CallExpr" then walkCall src walk value scope context targets
        else walk (.obj value) scope .other) (SpecifiedIn spec (.obj value)) := by
    intro value hmem targets
    exact linking_walkValue targets (hvalues _ (List.mem_map_of_mem hmem)) (hnodes value hmem)
      (hparts value hmem)
  unfold walkAssigned
  split
  · rw [specifiedAmong_map]
    exact (hvalue _ (List.mem_singleton_self _) _).imp fun ⟨other, hother, h⟩ =>
      List.mem_singleton.mp hother ▸ h
  · split
    · -- Every value is the second of a pair.
      rename_i hlength
      rw [specifiedAmong_map]
      have hzip : (targets.zip values).map Prod.snd = values :=
        List.map_snd_zip (Nat.le_of_eq hlength)
      refine (Linking.forM fun pair hpair => hvalue pair.2 ?_ [pair.1]).imp ?_
      · exact hzip ▸ List.mem_map_of_mem hpair
      · rintro ⟨value, hmem, h⟩
        rw [← hzip] at hmem
        obtain ⟨pair, hpair, rfl⟩ := List.mem_map.mp hmem
        exact ⟨pair, hpair, h⟩
    · exact hvalues.forM_map

theorem linking_walkAssignment {node : Members}
    (hwalk : LinksBelow src walk spec (Json.obj node).height) :
    Linking src (Json.obj node).nodes spec (walkAssignment src walk node scope)
      (SpecifiedAmong spec (node.walkedAs .assignment)) := by
  have hall : LinksParts src (Json.obj node).nodes walk spec (node.walkedAs .assignment) :=
    hwalk.parts fun _ => below_of_mem_walkedAs
  unfold Members.walkedAs at hall ⊢
  rw [specifiedAmong_append]
  unfold walkAssignment
  refine .lift_bind fun targets htargets => .lift_bind fun values hvalues => ?_
  rw [nodesAt_of_nodesIn htargets, nodesAt_of_nodesIn hvalues] at hall ⊢
  have hbelow : ∀ value ∈ values, (Json.obj value).Below node := by
    rw [← nodesAt_of_nodesIn hvalues]
    exact fun value hvalue => below_of_mem_nodesAt (by decide) hvalue
  have hassigned : ∀ context, Linking src (Json.obj node).nodes spec
      (walkAssigned src walk scope context targets values)
      (SpecifiedAmong spec (values.map .obj)) := by
    intro context
    refine linking_walkAssigned (hall.subset (List.subset_append_right _ _)) ?_ ?_
    · exact fun value hvalue => (hbelow value hvalue).nodes_subset_nodes List.mem_cons_self
    · exact fun value hvalue => hwalk.parts fun part hpart =>
        (below_of_mem_walkedAs hpart).trans (hbelow value hvalue)
  have htargetsLinked : Linking src (Json.obj node).nodes spec
      (targets.forM fun target => walk (.obj target) scope .other)
      (SpecifiedAmong spec (targets.map .obj)) :=
    (hall.subset (List.subset_append_left _ _)).forM_map
  dsimp only
  cases (node.get "tok").isText ":=" with
  | true =>
    refine (Linking.forM_silent fun target _ => linking_defineVariable _).silent_bind fun _ => ?_
    exact htargetsLinked.bind fun _ => hassigned _
  | false => exact htargetsLinked.bind fun _ => hassigned _

/-! ## Specifications of values -/

section Values

variable {values before after : List Members} {value : Members} {draft later : Draft}

/-- The calls that are recorded in some values come from call expressions in them, and these values
have spans. -/
theorem calls_of_forM_walk (hwalk : ∀ value ∈ values, LinksValue src walk spec (.obj value))
    (h : (values.forM fun value => walk (.obj value) scope context).run draft = .ok ((), later)) :
    ∃ calls, later.calls = draft.calls ++ calls ∧ ∀ call ∈ calls, ∃ value ∈ values,
      (∃ span, src.span value = .ok span) ∧ ∃ node ∈ (Json.obj value).nodes,
        node.hasKind "CallExpr" = true ∧ src.span node = .ok call.span := by
  induction values generalizing draft with
  | nil =>
    obtain ⟨-, rfl⟩ := Prod.mk.inj (Except.ok.inj h)
    exact ⟨[], (List.append_nil _).symm, fun _ hcall => nomatch hcall⟩
  | cons value values ih =>
    obtain ⟨_, middle, hfirst, hrest⟩ := run_bind_eq_ok.mp h
    have hvalue := hwalk value List.mem_cons_self
    obtain ⟨calls, _, hcalls, -, hlinks⟩ := hvalue.links scope context draft _ _ hfirst
    obtain ⟨more, hmore, hfrom⟩ := ih (fun other hother => hwalk other (by simp [hother])) hrest
    refine ⟨calls ++ more, by rw [hmore, hcalls, List.append_assoc], fun call hcall => ?_⟩
    rcases List.mem_append.mp hcall with hcall | hcall
    · refine ⟨value, List.mem_cons_self, ?_, (hlinks.calls_from call hcall).2⟩
      -- A value in which a call is recorded is a node with a span.
      have hspanned := hvalue.spanned value rfl scope context draft middle hfirst
      refine hspanned.resolve_left fun hsame => ?_
      have hnil : calls = [] := List.append_right_eq_self.mp (hcalls.symm.trans hsame)
      rw [hnil] at hcall
      cases hcall
    · obtain ⟨other, hother, hfound⟩ := hfrom call hcall
      exact ⟨other, List.mem_cons_of_mem _ hother, hfound⟩

/-- **The call of a value stands after all calls in it** and before those of the values that
follow. -/
theorem exists_call_of_value (hwalk : ∀ value ∈ values, LinksValue src walk spec (.obj value))
    (hvalues : values = before ++ value :: after) (hkind : value.hasKind "CallExpr" = true)
    (h : (values.forM fun value => walk (.obj value) scope context).run draft = .ok ((), later)) :
    ∃ first call last, later.calls = draft.calls ++ (first ++ call :: last) ∧
      call.IsCallOf src value ∧ call.scope = scope ∧ ∀ call ∈ last, ∃ value ∈ after,
        (∃ span, src.span value = .ok span) ∧ ∃ node ∈ (Json.obj value).nodes,
          node.hasKind "CallExpr" = true ∧ src.span node = .ok call.span := by
  have hloop : (values.forM fun value => walk (.obj value) scope context) =
      (before.forM fun value => walk (.obj value) scope context) >>= fun _ =>
        (value :: after).forM fun value => walk (.obj value) scope context := by
    rw [hvalues]
    exact List.forM_append
  rw [hloop] at h
  subst hvalues
  -- The loop is cut in three: the values before, the value itself, and those after it.
  obtain ⟨_, second, hbefore, h⟩ := run_bind_eq_ok.mp h
  obtain ⟨_, third, hvalue, hafter⟩ := run_bind_eq_ok.mp h
  obtain ⟨first, hfirst, -⟩ := calls_of_forM_walk
    (fun other hother => hwalk other (List.mem_append_left _ hother)) hbefore
  obtain ⟨inner, call, hcall, his, hscope⟩ :=
    (hwalk value (by simp)).ends value rfl hkind scope context second third hvalue
  obtain ⟨last, hlast, hfrom⟩ := calls_of_forM_walk
    (fun other hother => hwalk other (by simp [hother])) hafter
  refine ⟨first ++ inner, call, last, ?_, his, hscope, hfrom⟩
  rw [hlast, hcall, hfirst]
  simp only [List.append_assoc, List.singleton_append]

/-- **A name that is declared has the initialiser of its value**, whatever calls start where that
starts. -/
theorem names_of_foundFor {decl : Declaration} {place : Members × Nat} {calls : List CallSite}
    (hseparates : src.SeparatesValues spec)
    (hwalk : ∀ value ∈ spec.nodesAt "values", LinksValue src walk spec (.obj value))
    (h : ((spec.nodesAt "values").forM fun value => walk (.obj value) scope context).run draft =
      .ok ((), later))
    (hcalls : later.calls = draft.calls ++ calls) (hbare : ∀ call ∈ calls, call.annotation = none)
    (hdecl : decl.FoundFor src calls scope place.1 (spec.nodesAt "values")[place.2]?) :
    decl.Names src spec calls place := by
  refine ⟨hdecl.name_eq, hdecl.nameSpan_eq, ?_⟩
  cases hvalue : (spec.nodesAt "values")[place.2]? with
  | none => exact hdecl.absent hvalue
  | some value =>
    have hfound := hdecl.found value hvalue
    simp only [Declaration.InitialisedBy]
    split
    case isFalse hother => exact initialCall_eq_none hfound (Bool.eq_false_iff.mpr hother)
    case isTrue hkind =>
      obtain ⟨hlt, hget⟩ := List.getElem?_eq_some_iff.mp hvalue
      have hsplit : spec.nodesAt "values" = (spec.nodesAt "values").take place.2 ++
          value :: (spec.nodesAt "values").drop (place.2 + 1) := by
        rw [← hget, List.getElem_cons_drop, List.take_append_drop]
      obtain ⟨first, call, last, hlater, his, hscope, hlast⟩ :=
        exists_call_of_value hwalk hsplit hkind h
      have heq : calls = first ++ call :: last :=
        List.append_cancel_left (hcalls.symm.trans hlater)
      -- What follows the call of the value belongs to later values, and these start elsewhere.
      have hafter : ∀ other ∈ last, other.span.start.offset ≠ call.span.start.offset := by
        intro other hother
        obtain ⟨next, hnext, ⟨span, hspan⟩, node, hnode, hcall, hinner⟩ := hlast other hother
        exact hseparates.start_ne hsplit hnext hkind his.span_eq hspan hnode hcall hinner
      have hmem : call ∈ calls := by simp [heq]
      refine ⟨call, hmem, his, hscope.trans hdecl.scope_eq.symm, ?_⟩
      rw [initialCall_eq_some hfound hkind heq his.span_eq hafter, CallSite.bare,
        ← hbare call hmem]

end Values

/-- **A specification of values declares its names with their initialisers**, and links those that
are read in it. -/
theorem linking_walkValueSpec {stated : Members} {token : Json} {anchor : Span}
    {docs : DocComments} (hwalk : LinksBelow src walk spec (Json.obj stated).height) :
    Linking src (Json.obj stated).nodes spec
      (walkValueSpec src walk stated token scope anchor docs)
      (spec = stated ∨ SpecifiedAmong spec stated.valueParts) := by
  have hparts : LinksParts src (Json.obj stated).nodes walk spec stated.valueParts :=
    hwalk.parts fun _ => below_of_mem_valueParts
  have hvalues : ∀ value ∈ stated.nodesAt "values", LinksValue src walk spec (.obj value) :=
    fun value hvalue => hwalk _ (below_of_mem_nodesAt (by decide) hvalue).height_lt
  intro draft a later h
  unfold walkValueSpec at h
  obtain ⟨names, hnames, h⟩ := run_lift_bind_eq_ok.mp h
  obtain ⟨values, hlisted, h⟩ := run_lift_bind_eq_ok.mp h
  obtain ⟨_, typed, htyped, h⟩ := run_bind_eq_ok.mp h
  obtain ⟨_, _, hget, h⟩ := run_bind_eq_ok.mp h
  obtain ⟨rfl, rfl⟩ := Prod.mk.inj (Except.ok.inj hget)
  obtain ⟨_, walked, hwalked, h⟩ := run_bind_eq_ok.mp h
  obtain ⟨_, _, hget, h⟩ := run_bind_eq_ok.mp h
  obtain ⟨rfl, rfl⟩ := Prod.mk.inj (Except.ok.inj hget)
  obtain rfl := nodesAt_of_nodesIn hlisted
  obtain rfl := nodesAt_of_nodesIn hnames
  -- The type is walked first, then the values, and then the names are declared.
  obtain ⟨typeCalls, typeDecls, htypeCalls, htypeDecls, htypeLinks⟩ :=
    hparts _ List.mem_cons_self scope .other draft _ _ htyped
  obtain ⟨calls, decls, hcalls, hdecls, hlinks⟩ :=
    (hparts.subset (List.subset_cons_self _ _)).forM_map typed _ _ hwalked
  dsimp only at h
  rw [hcalls, List.drop_left] at h
  obtain ⟨hsame, block, hblock, hnamed⟩ := run_forM_declareValue (fun index =>
    if (stated.nodesAt "values").length = (stated.nodesAt "names").length
      then (stated.nodesAt "values")[index]? else none) h
  refine ⟨typeCalls ++ calls, typeDecls ++ (decls ++ block), ?_, ?_, ?_⟩
  · rw [hsame, hcalls, htypeCalls, List.append_assoc]
  · rw [hblock, hdecls, htypeDecls, List.append_assoc, List.append_assoc]
  have hread := htypeLinks.append hlinks
  refine ⟨hread.calls_from, ?_⟩
  rintro (rfl | hspecified) hseparates
  · -- The names stand in one block, each with the call that its value is.
    have hnames : List.Forall₂ (fun place decl => decl.Names src spec calls place)
        spec.namedPlaces block := by
      refine hnamed.imp fun place decl hdecl => ?_
      rw [if_pos hseparates.paired] at hdecl
      exact names_of_foundFor hseparates hvalues hwalked hcalls
        (fun call hcall => (hlinks.calls_from call hcall).1) hdecl
    have hown : src.Initialises spec calls block := ⟨block, List.infix_refl block, hnames⟩
    refine hown.subset (List.subset_append_right _ _) ?_
    exact ((List.suffix_append decls block).trans (List.suffix_append _ _)).isInfix
  · rw [Members.valueParts, specifiedAmong_cons] at hspecified
    refine (hread.initialises hspecified hseparates).subset (List.Subset.refl _) ?_
    rw [← List.append_assoc]
    exact (List.prefix_append _ _).isInfix

theorem linking_walkDeclaration {node : Members}
    (hwalk : LinksBelow src walk spec (Json.obj node).height) :
    Linking src (Json.obj node).nodes spec (walkDeclaration src walk node scope)
      (SpecifiedAmong spec (node.walkedAs .declaration) ∨
        spec ∈ (node.memberAt "decl").valueSpecs) := by
  unfold walkDeclaration
  refine .lift_bind fun decl hdecl => .lift_bind fun specs hspecs => ?_
  have hmember : node.memberAt "decl" = decl := (eq_members_of_nodeOrEmpty hdecl).symm
  have hbelow : ∀ stated ∈ specs, (Json.obj stated).Below node := by
    rw [← nodesAt_of_nodesIn hspecs, ← hmember]
    exact fun stated hstated =>
      below_of_below_memberAt (by decide) (below_of_mem_nodesAt (by decide) hstated)
  have hnodes : ∀ stated ∈ specs, (Json.obj stated).nodes ⊆ (Json.obj node).nodes :=
    fun stated hstated => (hbelow stated hstated).nodes_subset_nodes
  rw [Members.walkedAs, hmember, Members.declarationParts, Members.valueSpecs,
    nodesAt_of_nodesIn hspecs]
  by_cases htoken : ((decl.get "tok").isText "var" || (decl.get "tok").isText "const") = true
  · simp only [htoken, if_true]
    refine (Linking.forM fun stated hstated => .lift_bind fun anchor _ =>
      (linking_walkValueSpec (hwalk.mono (Nat.le_of_lt (hbelow stated hstated).height_lt))).weaken
        (hnodes stated hstated) id).imp ?_
    rintro (hspecified | hspecified)
    · obtain ⟨stated, hstated, h⟩ := specifiedAmong_flatMap.mp hspecified
      exact ⟨stated, hstated, Or.inr h⟩
    · exact ⟨spec, hspecified, Or.inl rfl⟩
  · simp only [htoken]
    refine (Linking.forM fun stated hstated =>
      ((hwalk _ (hbelow stated hstated).height_lt).links scope .other).weaken
        (hnodes stated hstated) id).imp ?_
    rintro (hspecified | hspecified)
    · exact specifiedAmong_map.mp hspecified
    · cases hspecified

/-! ## Scopes -/

theorem linking_walkFunctionLiteral {node : Members} {span : Span}
    (h : LinksParts src nodes walk spec (node.walkedAs .functionLiteral)) :
    Linking src nodes spec (walkFunctionLiteral src walk node span scope)
      (SpecifiedAmong spec (node.walkedAs .functionLiteral)) := by
  unfold Members.walkedAs at h ⊢
  unfold walkFunctionLiteral
  refine (linking_openScope _ _ _ _).silent_bind fun inner => ?_
  refine .lift_bind fun signature hsignature => ?_
  have hmember : node.memberAt "type" = signature := (eq_members_of_nodeOrEmpty hsignature).symm
  rw [hmember, Members.signatureTypes] at h ⊢
  rw [specifiedAmong_append, specifiedAmong_append, or_assoc]
  have hsignatureParts := h.subset (List.subset_append_left _ _)
  refine (linking_declareParameters
    (hsignatureParts.subset (List.subset_append_left _ _))).bind fun _ => ?_
  refine (linking_resultTypes
    (hsignatureParts.subset (List.subset_append_right _ _))).bind fun _ => ?_
  exact linking_walkBody (h.subset (List.subset_append_right _ _))

theorem linking_alternative {value : Json}
    (h : LinksParts src nodes walk spec value.alternativeParts) :
    Linking src nodes spec (match value with
      | .obj alternative =>
        let alternative : Members := alternative
        if alternative.hasKind "IfStmt" then walk (.obj alternative) scope .other
        else if alternative.hasKind "BlockStmt" then do
          let sibling ← openScope .block (← src.span alternative) (some scope)
          walkBlock src walk alternative sibling
        else return
      | _ => return) (SpecifiedAmong spec value.alternativeParts) := by
  unfold Json.alternativeParts at h ⊢
  split
  case h_1 alternative =>
    dsimp only
    by_cases hconditional : Members.hasKind alternative "IfStmt" = true
    · have hkind : (Json.obj alternative).hasKind "IfStmt" = true := hconditional
      rw [if_pos hkind] at h ⊢
      rw [if_pos hconditional]
      exact (h _ (List.mem_singleton_self _) _ _).imp fun ⟨part, hpart, hspecified⟩ =>
        List.mem_singleton.mp hpart ▸ hspecified
    · have hkind : ¬ (Json.obj alternative).hasKind "IfStmt" = true := hconditional
      rw [if_neg hkind] at h ⊢
      rw [if_neg hconditional]
      by_cases hblock : Members.hasKind alternative "BlockStmt" = true
      · have hkind : (Json.obj alternative).hasKind "BlockStmt" = true := hblock
        rw [if_pos hkind] at h ⊢
        rw [if_pos hblock]
        exact .lift_bind fun span _ => (linking_openScope _ _ _ _).silent_bind fun sibling =>
          linking_walkBlock h
      · have hkind : ¬ (Json.obj alternative).hasKind "BlockStmt" = true := hblock
        rw [if_neg hkind, if_neg hblock]
        exact (Linking.pure _).imp not_specifiedAmong_nil
  case h_2 hvalue =>
    refine (Linking.pure _).imp ?_
    cases value with
    | obj alternative => exact absurd rfl (hvalue alternative)
    | _ => exact not_specifiedAmong_nil

theorem linking_walkConditional {node : Members} {span : Span}
    (h : LinksParts src nodes walk spec (node.walkedAs .conditional)) :
    Linking src nodes spec (walkConditional src walk node span scope)
      (SpecifiedAmong spec (node.walkedAs .conditional)) := by
  unfold Members.walkedAs at h ⊢
  rw [List.append_assoc] at h ⊢
  rw [List.cons_append, List.cons_append, List.nil_append] at h ⊢
  rw [specifiedAmong_cons, specifiedAmong_cons, specifiedAmong_append]
  have hrest := (h.subset (List.subset_cons_self _ _)).subset (List.subset_cons_self _ _)
  unfold walkConditional
  refine (linking_openScope _ _ _ _).silent_bind fun inner => ?_
  refine (h _ (by simp) _ _).bind fun _ => (h _ (by simp) _ _).bind fun _ => ?_
  refine (linking_walkBody (hrest.subset (List.subset_append_left _ _))).bind fun _ => ?_
  exact linking_alternative (hrest.subset (List.subset_append_right _ _))

theorem linking_walkScoped {node : Members}
    (h : LinksParts src nodes walk spec (node.parts.flatMap scopedParts)) :
    Linking src nodes spec (walkScoped src walk node scope)
      (SpecifiedAmong spec (node.parts.flatMap scopedParts)) := by
  unfold walkScoped
  rw [specifiedAmong_flatMap]
  refine Linking.forM fun part hpart => ?_
  have hpartLinks : LinksParts src nodes walk spec (scopedParts part) :=
    h.subset fun value hvalue => List.mem_flatMap.mpr ⟨part, hpart, hvalue⟩
  obtain ⟨key, value⟩ := part
  dsimp only
  split
  case h_1 body => exact linking_walkBlock hpartLinks
  case h_2 hother =>
    have hvalue : scopedParts (key, value) = [value] := by
      unfold scopedParts
      split
      case h_1 body heq =>
        obtain ⟨rfl, rfl⟩ := Prod.mk.inj heq
        exact absurd rfl (hother body rfl)
      case h_2 heq => rw [(Prod.mk.inj heq).2]
    rw [hvalue] at hpartLinks ⊢
    exact (hpartLinks _ (List.mem_singleton_self _) _ _).imp fun ⟨part, hpart, hspecified⟩ =>
      List.mem_singleton.mp hpart ▸ hspecified

theorem linking_walkClause {node : Members} {span : Span}
    (h : LinksParts src nodes walk spec (node.walkedAs .clause)) :
    Linking src nodes spec (walkClause walk node span scope)
      (SpecifiedAmong spec (node.walkedAs .clause)) := by
  unfold Members.walkedAs at h ⊢
  rw [specifiedAmong_cons, specifiedAmong_cons, specifiedAmong_cons]
  unfold walkClause
  refine (linking_openScope _ _ _ _).silent_bind fun inner => ?_
  refine (h _ (by simp) _ _).bind fun _ => (h _ (by simp) _ _).bind fun _ => ?_
  exact (h _ (by simp) _ _).imp fun hspecified => hspecified.resolve_right not_specifiedAmong_nil

/-! ## The walk -/

/-- **A node of any kind is linked** with all that is specified in it. -/
theorem linking_walkNode {node : Members}
    (hwalk : LinksBelow src walk spec (Json.obj node).height) :
    Linking src (Json.obj node).nodes spec (walkNode src walk node scope context)
      (SpecifiedIn spec (.obj node)) := by
  unfold walkNode
  refine .lift_bind fun span _ => .lift_bind fun kind hkind => ?_
  have hparts : LinksParts src (Json.obj node).nodes walk spec (node.walkedAs kind) :=
    hwalk.parts fun _ => below_of_mem_walkedAs
  -- Only a declaration has specifications of its own.
  have himp : kind ≠ .declaration → SpecifiedIn spec (.obj node) →
      SpecifiedAmong spec (node.walkedAs kind) := fun hne hspecified =>
    (specifiedIn_obj hkind hspecified).resolve_right fun hdecl => hne hdecl.1
  cases kind with
  | identifier => exact (linking_recordIdentifier _ _).imp fun h =>
      not_specifiedAmong_nil (himp (by simp) h)
  | selector =>
    refine ((hparts _ (List.mem_singleton_self _) _ _).bind_silent fun _ =>
      linking_recordIdentifier _ _).imp fun h => ?_
    obtain ⟨part, hpart, hspecified⟩ := himp (by simp) h
    exact List.mem_singleton.mp hpart ▸ hspecified
  | call =>
    exact (linking_walkCall List.mem_cons_self (hasKind_of_names_eq hkind rfl) hparts).imp
      (himp (by simp))
  | block =>
    exact ((linking_openScope _ _ _ _).silent_bind fun inner => linking_walkBlock hparts).imp
      (himp (by simp))
  | functionLiteral => exact (linking_walkFunctionLiteral hparts).imp (himp (by simp))
  | conditional => exact (linking_walkConditional hparts).imp (himp (by simp))
  | rangeLoop =>
    refine ((linking_openScope _ _ _ _).silent_bind fun inner => ?_).imp (himp (by simp))
    dsimp only
    split
    · exact (Linking.forM_silent fun _ _ => linking_defineVariable _).silent_bind fun _ =>
        linking_walkScoped hparts
    · exact linking_walkScoped hparts
  | «scoped» =>
    exact ((linking_openScope _ _ _ _).silent_bind fun inner => linking_walkScoped hparts).imp
      (himp (by simp))
  | clause => exact (linking_walkClause hparts).imp (himp (by simp))
  | assignment => exact (linking_walkAssignment hwalk).imp (himp (by simp))
  | declaration =>
    exact (linking_walkDeclaration hwalk).imp fun h =>
      (specifiedIn_obj hkind h).imp_right And.right
  | plain found => exact (linking_walkParts hparts).imp (himp (by simp))
  | other => exact (linking_walkParts hparts).imp (himp (by simp))

/-- A walk of a node has seen its span, or done nothing. -/
theorem spanned_of_walkStep {node : Members} {draft later : Draft}
    (h : (walkStep src walk (.obj node) scope context).run draft = .ok ((), later)) :
    later.calls = draft.calls ∨ ∃ span, src.span node = .ok span := by
  unfold walkStep at h
  dsimp only at h
  split at h
  · obtain ⟨-, rfl⟩ := Prod.mk.inj (Except.ok.inj h)
    exact Or.inl rfl
  · obtain ⟨span, hspan, -⟩ := run_lift_bind_eq_ok.mp h
    exact Or.inr ⟨span, hspan⟩

theorem exists_call_of_walkStep {node : Members} {draft later : Draft}
    (hparts : LinksParts src nodes walk spec (node.walkedAs .call))
    (hcall : node.hasKind "CallExpr" = true)
    (h : (walkStep src walk (.obj node) scope context).run draft = .ok ((), later)) :
    ∃ calls call, later.calls = draft.calls ++ (calls ++ [call]) ∧ call.IsCallOf src node ∧
      call.scope = scope := by
  have hkind := nodeKind_of_hasKind hcall
  unfold walkStep at h
  dsimp only at h
  split at h
  · rename_i hnull
    rw [hnull] at hkind
    cases hkind
  · obtain ⟨span, -, h⟩ := run_lift_bind_eq_ok.mp h
    obtain ⟨kind, hfound, h⟩ := run_lift_bind_eq_ok.mp h
    obtain rfl : kind = .call := Except.ok.inj (hfound.symm.trans hkind)
    exact exists_call_of_walkCall hparts h

theorem linksValue_walkStep {value : Json} (hwalk : LinksBelow src walk spec value.height) :
    LinksValue src (walkStep src walk) spec value := by
  refine ⟨fun scope context => ?_, ?_, ?_⟩
  · cases value with
    | arr items =>
      have hitems : LinksParts src (Json.arr items).nodes walk spec items := by
        intro item hitem scope context
        refine ((hwalk item (Json.height_lt_of_mem hitem)).links scope context).weaken ?_ id
        rw [nodes_arr]
        exact fun node hnode => List.mem_flatMap.mpr ⟨item, hitem, hnode⟩
      refine hitems.forM.imp fun h => ?_
      cases h with
      | item hitem h => exact ⟨_, hitem, h⟩
    | obj node =>
      unfold walkStep
      dsimp only
      split
      · -- An object without a kind is no node, and nothing is specified in it.
        rename_i hkind
        refine (Linking.pure _).imp fun h => ?_
        cases h with
        | part hpart _ =>
          rw [Members.walked, hkind] at hpart
          cases hpart
        | declared hdecl _ =>
          rw [Members.hasKind, hkind] at hdecl
          cases hdecl
      · exact linking_walkNode hwalk
    | _ =>
      refine (Linking.pure _).imp fun h => ?_
      cases h
  · rintro node rfl scope context draft later h
    exact spanned_of_walkStep h
  · rintro node rfl hkind scope context draft later h
    have hparts : LinksParts src (Json.obj node).nodes walk spec (node.walkedAs .call) :=
      hwalk.parts fun _ => below_of_mem_walkedAs
    exact exists_call_of_walkStep hparts hkind h

/-- The levels of a walk are enough for every value that is not higher. -/
theorem linksValue_walkWithin (levels : Nat) : ∀ value : Json, value.height ≤ levels →
    LinksValue src (walkWithin src levels) spec value := by
  -- A step uses up one level, and what it walks is less high than its value.
  induction levels with
  | zero =>
    intro value hheight
    refine ⟨fun scope context => (Linking.pure _).imp fun h => ?_, ?_, ?_⟩
    · cases h <;> cases hheight
    · rintro node rfl
      cases hheight
    · rintro node rfl
      cases hheight
  | succ levels ih =>
    intro value hheight
    refine linksValue_walkStep fun part hlt => ih part ?_
    exact Nat.le_of_lt_succ (Nat.lt_of_lt_of_le hlt hheight)

/-- **A walk links every specification of values that is read in a value.** -/
theorem linksValue_walkTree (value : Json) : LinksValue src (walkTree src) spec value :=
  let h := linksValue_walkWithin value.height value (Nat.le_refl _)
  ⟨h.links, h.spanned, h.ends⟩

end Walk

end GoConventions
