import GoConventions.Proofs.Result
import GoConventions.Proofs.Tree.Steps

/-!
# The walk of statements and expressions

Every node of a value is visited at most once, in the scope it stands in (`walks_walkTree`).  There
is one lemma for each function of the walk: it takes for granted that what lies below a node is
walked so, and says it of the node.  The walk ties the knot over the levels of a value, and so does
the proof.

## Main definitions

* `Walks`, `WalksBelow`: a walk keeps to the nodes of a value, or of all values below a height.

## Main results

* `walking_walkNode`: a node of any kind is walked so if its parts are.
* `walks_walkTree`: every value is walked so.
-/

namespace GoConventions

/-- A walk uses the nodes of a value, and records the value if it is an identifier. -/
def Walks (src : SourceText) (root : Json) (walk : TreeWalk) (value : Json) : Prop :=
  ∀ h scope context, Ready src root h scope value.nodes →
    Walking src root (walk value scope context) h value.nodes fun _ h' =>
      ∀ node, value = .obj node → Members.hasKind node "Ident" = true → h'.Records node

/-- A walk keeps to the nodes of every value that is less high than the bound. -/
def WalksBelow (src : SourceText) (root : Json) (walk : TreeWalk) (bound : Nat) : Prop :=
  ∀ value, value.height < bound → Walks src root walk value

variable {src : SourceText} {root : Json} {walk : TreeWalk} {h : TreeHistory} {scope : Nat}
  {context : CallContext}

theorem Walks.walking {value : Json} (hwalks : Walks src root walk value)
    (hready : Ready src root h scope value.nodes) :
    Walking src root (walk value scope context) h value.nodes fun _ _ => True :=
  (hwalks h scope context hready).imp fun _ _ _ _ => trivial

theorem WalksBelow.mono {bound lower : Nat} (hwalk : WalksBelow src root walk bound)
    (hle : lower ≤ bound) : WalksBelow src root walk lower :=
  fun value hlt => hwalk value (Nat.lt_of_lt_of_le hlt hle)

theorem WalksBelow.get {node : Members} (hwalk : WalksBelow src root walk (Json.obj node).height)
    (key : String) : Walks src root walk (node.get key) :=
  hwalk _ (height_get_lt node key)

/-! ## Lists of values -/

theorem walking_forM_walk {items : List Json}
    (hwalks : ∀ item ∈ items, Walks src root walk item)
    (hready : Ready src root h scope (items.flatMap Json.nodes)) :
    Walking src root (items.forM fun item => walk item scope context) h
      (items.flatMap Json.nodes) fun _ _ => True := by
  refine Walking.forM_of_forall fun item hitem h' hreaches => (hwalks item hitem).walking ?_
  refine (hready.mono hreaches).subset fun node hnode => ?_
  exact List.mem_flatMap.mpr ⟨item, hitem, hnode⟩

/-- Nodes that are picked out of a value are walked like the value. -/
theorem walking_forM_nodesIn {value : Json} {listed : List Members} {f : Members → TreeReader Unit}
    (hlisted : nodesIn value = .ok listed) (hready : Ready src root h scope value.nodes)
    (hf : ∀ node ∈ listed, ∀ h', Ready src root h' scope (Json.obj node).nodes →
      Walking src root (f node) h' (Json.obj node).nodes fun _ _ => True) :
    Walking src root (listed.forM f) h value.nodes fun _ _ => True := by
  refine Walking.weaken ?_ (flatMap_nodesIn_sublist hlisted).subperm
  refine Walking.forM_of_forall fun node hnode h' hreaches => hf node hnode h' ?_
  exact (hready.mono hreaches).of_nodesIn hlisted hnode

theorem walking_walkBlock {block : Members}
    (hwalk : WalksBelow src root walk (Json.obj block).height)
    (hready : Ready src root h scope block.inner) :
    Walking src root (walkBlock src walk block scope) h block.inner fun _ _ => True := by
  unfold walkBlock
  refine Walking.lift_bind fun _ _ => Walking.lift_bind fun items hitems => ?_
  have hlisted := flatMap_elements_sublist hitems
  refine Walking.weaken (walking_forM_walk ?_ ((hready.get (by decide)).subset hlisted.subset)) ?_
  · intro item hitem
    have hlt := height_lt_of_mem_elements hitems hitem
    exact hwalk item (Nat.lt_trans hlt (height_get_lt block "list"))
  · exact hlisted.subperm.trans (nodes_get_subperm (by decide) block)

theorem walking_walkBody {body : Json} (hwalk : WalksBelow src root walk body.height)
    (hready : Ready src root h scope body.nodes) :
    Walking src root (walkBody src walk body scope) h body.nodes fun _ _ => True := by
  unfold walkBody
  cases body with
  | obj block =>
    exact (walking_walkBlock hwalk hready.inner).weaken (inner_sublist_nodes block).subperm
  | _ => exact (Walking.pure trivial).weaken List.nil_subperm

theorem walking_walkParts {node : Members}
    (hwalk : WalksBelow src root walk (Json.obj node).height)
    (hready : Ready src root h scope node.inner) :
    Walking src root (walkParts walk node scope context) h node.inner fun _ _ => True := by
  unfold walkParts
  rw [inner_eq_flatMap_parts] at hready ⊢
  refine Walking.forM_of_forall fun part hpart h' hreaches => ?_
  refine (hwalk part.2 ?_).walking ((hready.mono hreaches).subset fun below hbelow => ?_)
  · exact Nat.lt_succ_of_le (Json.height_le_heightOfMembers (List.mem_of_mem_filter hpart))
  · exact List.mem_flatMap.mpr ⟨part, hpart, hbelow⟩

/-- All identifiers among the parts are recorded, unless one takes the place of the body. -/
theorem walking_walkScoped {node : Members}
    (hwalk : WalksBelow src root walk (Json.obj node).height)
    (hready : Ready src root h scope node.inner) :
    Walking src root (walkScoped src walk node scope) h node.inner fun _ h' =>
      ∀ part ∈ node.parts, part.1 ≠ "body" → ∀ name, part.2 = .obj name →
        Members.hasKind name "Ident" = true → h'.Records name := by
  unfold walkScoped
  rw [inner_eq_flatMap_parts] at hready ⊢
  refine Walking.forM ?_ ?_
  · intro part h' h'' hreaches hrecorded hkey name hname hident
    exact (hrecorded hkey name hname hident).mono hreaches
  · rintro ⟨key, value⟩ hpart h' hreaches
    have hlt : value.height < (Json.obj node).height :=
      Nat.lt_succ_of_le (Json.height_le_heightOfMembers (List.mem_of_mem_filter hpart))
    have hvalue : Ready src root h' scope value.nodes :=
      (hready.mono hreaches).subset fun below hbelow =>
        List.mem_flatMap.mpr ⟨(key, value), hpart, hbelow⟩
    dsimp only
    split
    case h_1 body =>
      have hbody := (walking_walkBlock (hwalk.mono (Nat.le_of_lt hlt)) hvalue.inner).weaken
        (inner_sublist_nodes body).subperm
      exact hbody.imp fun _ _ _ _ hkey => absurd rfl hkey
    case h_2 =>
      exact (hwalk value hlt h' scope .other hvalue).imp fun _ _ _ hrecorded _ => hrecorded

/-! ## Calls -/

theorem span_of_argumentOf {arg : Members} {argument : Argument}
    (h : argumentOf src arg = .ok argument) : src.span arg = .ok argument.span := by
  unfold argumentOf at h
  obtain ⟨text, -, h⟩ := bind_eq_ok.mp h
  obtain ⟨span, hspan, h⟩ := bind_eq_ok.mp h
  rw [hspan]
  split at h
  · split at h
    · rw [← Except.ok.inj h]
    · cases h
  · split at h <;> rw [← Except.ok.inj h]

/-- A string literal stands between quotes, so it is not empty. -/
theorem text_ne_of_argumentOf {arg : Members} {argument : Argument}
    (h : argumentOf src arg = .ok argument) (hliteral : argument.literal?.isSome = true) :
    argument.text ≠ "" := by
  unfold argumentOf at h
  obtain ⟨text, -, h⟩ := bind_eq_ok.mp h
  obtain ⟨span, -, h⟩ := bind_eq_ok.mp h
  split at h
  case isTrue hquoted =>
    split at h
    case h_1 =>
      rw [← Except.ok.inj h]
      rintro rfl
      rw [Bool.and_eq_true] at hquoted
      exact absurd hquoted.2 (by decide +kernel)
    case h_2 => cases h
  case isFalse =>
    split at h <;> rw [← Except.ok.inj h] at hliteral <;> cases hliteral

theorem walking_walkArgument {arg : Members} (hwalks : Walks src root walk (.obj arg))
    (hready : Ready src root h scope (Json.obj arg).nodes) :
    Walking src root (walkArgument src walk scope arg) h (Json.obj arg).nodes
      fun argument _ => src.StatesSpan root argument.span ∧
        (argument.literal?.isSome = true → argument.text ≠ "") := by
  unfold walkArgument
  refine Walking.lift_bind fun argument hargument => ?_
  have hspan := SourceText.statesSpan_of_span (hready.mem_everyNode List.mem_cons_self)
    (span_of_argumentOf hargument)
  rw [← List.append_nil (Json.obj arg).nodes]
  exact (hwalks.walking hready).bind fun _ _ _ _ =>
    Walking.pure ⟨hspan, text_ne_of_argumentOf hargument⟩

/-- What is read off each element of a list. -/
theorem walking_mapM_lift {α β : Type} {xs : List α} {f : α → TreeResult β} {R : β → Prop}
    (hf : ∀ x ∈ xs, ∀ b, f x = .ok b → R b) :
    Walking src root (xs.mapM fun x => (f x : TreeReader β)) h [] fun bs _ => ∀ b ∈ bs, R b := by
  refine (Walking.mapM (R := R) fun x hx h' _ => Walking.lift (hf x hx)).weaken ?_
  rw [List.flatMap_eq_nil_iff.mpr fun _ _ => rfl]

/-- A call is recorded after its function and its arguments. -/
theorem walking_walkCall {node : Members} {targets : List Members}
    (hwalk : WalksBelow src root walk (Json.obj node).height)
    (hready : Ready src root h scope (Json.obj node).nodes)
    (htargets : ∀ target ∈ targets, target ∈ root.everyNode) :
    Walking src root (walkCall src walk node scope context targets) h (Json.obj node).nodes
      fun _ _ => True := by
  have hparts : ((node.get "fun").nodes ++ ((node.get "args").nodes ++ [node])).Subperm
      (Json.obj node).nodes := by
    have hkeys := nodesUnder_subperm node ["fun", "args"] (by decide)
    rw [← List.append_assoc, nodes_obj, ← List.singleton_append]
    exact (List.perm_append_comm.subperm).trans ((List.subperm_append_left _).mpr hkeys)
  refine Walking.weaken ?_ hparts
  unfold walkCall
  refine ((hwalk.get "fun").walking (hready.inner.get (by decide))).bind fun _ h₁ hreaches₁ _ => ?_
  refine Walking.lift_bind fun args hargs => ?_
  have hready₁ := hready.mono hreaches₁
  have hmapped : Walking src root (args.mapM (walkArgument src walk scope)) h₁
      (node.get "args").nodes fun args _ => ∀ arg ∈ args, src.StatesSpan root arg.span ∧
        (arg.literal?.isSome = true → arg.text ≠ "") := by
    refine (Walking.mapM fun arg harg h₂ hreaches₂ => ?_).weaken
      (flatMap_nodesIn_sublist hargs).subperm
    refine walking_walkArgument (hwalk _ ?_) ?_
    · exact height_lt_of_mem_nodesIn_get hargs harg
    · exact ((hready₁.mono hreaches₂).inner.get (by decide)).of_nodesIn hargs harg
  refine hmapped.bind fun args h₂ hreaches₂ hargsStated => ?_
  refine Walking.lift_bind fun callee _ => Walking.lift_bind fun span hspan => ?_
  refine (walking_mapM_lift (R := fun _ => True) fun _ _ _ _ => trivial).bind_of_nil
    fun names h₃ hreaches₃ _ => ?_
  refine (walking_mapM_lift (R := src.StatesSpan root) fun target htarget _ hstated =>
    SourceText.statesSpan_of_span (htargets target htarget) hstated).bind_of_nil
    fun spans h₄ hreaches₄ hspans => ?_
  have hready₄ := ((hready₁.mono hreaches₂).mono hreaches₃).mono hreaches₄
  -- Its parts have been walked, and only the call itself is left.
  refine walking_recordCall ⟨hready₄.holds node List.mem_cons_self, ?_,
    fun arg harg => (hargsStated arg harg).2⟩
  intro stated hstated
  simp only [CallSite.spans, List.cons_append, List.mem_cons, List.mem_append, List.mem_map]
    at hstated
  rcases hstated with rfl | ⟨arg, harg, rfl⟩ | htarget
  · exact SourceText.statesSpan_of_span (hready₄.mem_everyNode List.mem_cons_self) hspan
  · exact (hargsStated arg harg).1
  · exact hspans stated htarget

/-! ## Assignments -/

/-- A value that is assigned: a call is recorded with its targets. -/
theorem walking_walkValue {value : Members} {targets : List Members}
    (hwalk : WalksBelow src root walk ((Json.obj value).height + 1))
    (hready : Ready src root h scope (Json.obj value).nodes)
    (htargets : ∀ target ∈ targets, target ∈ root.everyNode) :
    Walking src root (if value.hasKind "CallExpr" then walkCall src walk value scope context targets
      else walk (.obj value) scope .other) h (Json.obj value).nodes fun _ _ => True := by
  split
  · exact walking_walkCall (hwalk.mono (Nat.le_succ _)) hready htargets
  · exact (hwalk _ (Nat.lt_succ_self _)).walking hready

theorem walking_walkAssigned {targets values : List Members} {bound : Nat}
    (hwalk : WalksBelow src root walk bound)
    (hbound : ∀ value ∈ values, (Json.obj value).height < bound)
    (hready : Ready src root h scope (values.flatMap fun value => (Json.obj value).nodes))
    (htargets : ∀ target ∈ targets, target ∈ root.everyNode) :
    Walking src root (walkAssigned src walk scope context targets values) h
      (values.flatMap fun value => (Json.obj value).nodes) fun _ _ => True := by
  have hvalue : ∀ value ∈ values, ∀ h', Reaches src root h h' →
      Ready src root h' scope (Json.obj value).nodes := fun value hvalue h' hreaches =>
    (hready.mono hreaches).subset fun node hnode => List.mem_flatMap.mpr ⟨value, hvalue, hnode⟩
  unfold walkAssigned
  split
  case h_1 value =>
    rw [List.flatMap_singleton]
    exact walking_walkValue (hwalk.mono (hbound value (by simp)))
      (hvalue value (by simp) h (Reaches.refl h)) htargets
  case h_2 =>
    split
    case isTrue hlength =>
      -- Each value is walked with the target at its place.
      have hvalues : (targets.zip values).map Prod.snd = values :=
        List.map_snd_zip (Nat.le_of_eq hlength)
      have hnodes : (values.flatMap fun value => (Json.obj value).nodes) =
          (targets.zip values).flatMap fun pair => (Json.obj pair.2).nodes := by
        conv_lhs => rw [← hvalues, List.flatMap_map]
      rw [hnodes]
      refine Walking.forM_of_forall fun pair hpair h' hreaches => ?_
      obtain ⟨htarget, hmem⟩ := List.of_mem_zip hpair
      refine walking_walkValue (hwalk.mono (hbound _ hmem)) (hvalue _ hmem h' hreaches) ?_
      simpa using htargets pair.1 htarget
    case isFalse =>
      refine Walking.forM_of_forall fun value hmem h' hreaches => ?_
      exact (hwalk _ (hbound value hmem)).walking (hvalue value hmem h' hreaches)

/-- The targets of an assignment are walked before its values, and so recorded. -/
theorem walking_walkTargetsAndValues {node : Members} {targets values : List Members}
    {context : CallContext} (hwalk : WalksBelow src root walk (Json.obj node).height)
    (hready : Ready src root h scope node.inner)
    (htargets : nodesIn (node.get "lhs") = .ok targets)
    (hvalues : nodesIn (node.get "rhs") = .ok values) :
    Walking src root (do
      targets.forM fun target => walk (.obj target) scope .other
      walkAssigned src walk scope context targets values) h
      ((node.get "lhs").nodes ++ (node.get "rhs").nodes) fun _ h' =>
        ∀ target ∈ targets, target.hasKind "Ident" = true → h'.Records target := by
  have htargetReady : ∀ h', Reaches src root h h' → ∀ target ∈ targets,
      Ready src root h' scope (Json.obj target).nodes := fun h' hreaches target htarget =>
    ((hready.mono hreaches).get (by decide)).of_nodesIn htargets htarget
  have htargetsWalked : Walking src root
      (targets.forM fun target => walk (.obj target) scope .other) h (node.get "lhs").nodes
      fun _ h' => ∀ target ∈ targets, target.hasKind "Ident" = true → h'.Records target := by
    refine (Walking.forM ?_ fun target htarget h₁ hreaches₁ => ?_).weaken
      (flatMap_nodesIn_sublist htargets).subperm
    · exact fun target _ _ hlater hrecorded hident => (hrecorded hident).mono hlater
    · have hlt := height_lt_of_mem_nodesIn_get htargets htarget
      exact (hwalk _ hlt h₁ scope .other (htargetReady h₁ hreaches₁ target htarget)).imp
        fun _ _ _ hrecorded => hrecorded target rfl
  refine htargetsWalked.bind fun _ h₁ hreaches₁ hrecorded => ?_
  have hvaluesReady :=
    ((hready.mono hreaches₁).get (by decide)).subset (flatMap_nodesIn_sublist hvalues).subset
  refine ((walking_walkAssigned hwalk ?_ hvaluesReady ?_).weaken
    (flatMap_nodesIn_sublist hvalues).subperm).imp fun _ _ hlater _ => ?_
  · exact fun value hvalue => height_lt_of_mem_nodesIn_get hvalues hvalue
  · exact fun target htarget =>
      (htargetReady h (Reaches.refl h) target htarget).mem_everyNode List.mem_cons_self
  · exact fun target htarget hident => (hrecorded target htarget hident).mono hlater

theorem walking_walkAssignment {node : Members}
    (hwalk : WalksBelow src root walk (Json.obj node).height)
    (hready : Ready src root h scope node.inner) :
    Walking src root (walkAssignment src walk node scope) h node.inner fun _ _ => True := by
  have hparts : ((node.get "lhs").nodes ++ (node.get "rhs").nodes).Subperm node.inner :=
    nodesUnder_subperm node ["lhs", "rhs"] (by decide)
  refine Walking.weaken ?_ hparts
  unfold walkAssignment
  refine Walking.lift_bind fun targets htargets => Walking.lift_bind fun values hvalues => ?_
  by_cases hdefines : (node.get "tok").isText ":=" = true
  · simp only [hdefines, if_true]
    have hdefined : Reads ((targets.map Json.obj).forM (defineVariable src scope)) h fun _ added =>
        Defined src root h added ((targets.map Json.obj).filterMap Json.members?) :=
      reads_forM_defineVariable fun target htarget => by
        obtain ⟨name, hname, rfl⟩ := List.mem_map.mp htarget
        exact (hready.get (by decide)).of_nodesIn htargets hname
    have hnames : (targets.map Json.obj).filterMap Json.members? = targets := by
      rw [List.filterMap_map]
      exact List.filterMap_some
    have hforM : (targets.map Json.obj).forM (defineVariable src scope) =
        targets.forM fun target => defineVariable src scope (.obj target) := List.forM_map
    rw [hnames, hforM] at hdefined
    -- The targets are recorded by what follows their definition.
    refine Walking.defining hdefined fun h₁ hreaches₁ => ?_
    exact (walking_walkTargetsAndValues hwalk (hready.mono hreaches₁) htargets hvalues).imp
      fun _ _ _ hrecorded => ⟨hrecorded, trivial⟩
  · simp only [hdefines]
    exact (walking_walkTargetsAndValues hwalk hready htargets hvalues).imp fun _ _ _ _ => trivial

/-! ## Specifications of values -/

/-- The comments that a declaration is given, as a list. -/
def DocComments.blocks (docs : DocComments) : List CommentBlock :=
  docs.doc.toList ++ docs.detached.toList ++ docs.group.toList

theorem mem_of_initialCall {calls : List CallSite} {value : Members} {found : Option CallSite}
    (h : initialCall src calls value = .ok found) : ∀ call ∈ found, call ∈ calls := by
  unfold initialCall at h
  intro call hcall
  split at h
  case isTrue =>
    obtain ⟨start, -, h⟩ := bind_eq_ok.mp h
    rw [← Except.ok.inj h] at hcall
    exact List.mem_of_mem_filter (List.mem_of_getLast? hcall)
  case isFalse =>
    rw [← Except.ok.inj h] at hcall
    cases hcall

/-- A declaration is anchored at the span of a node that has the given nodes below it. -/
def Anchored (src : SourceText) (root : Json) (anchor : Span) (nodes : List Members) : Prop :=
  ∃ outer ∈ root.nodes, src.span outer = .ok anchor ∧ nodes ⊆ outer.inner

theorem Anchored.statesSpan {anchor : Span} {nodes : List Members}
    (hanchor : Anchored src root anchor nodes) : src.StatesSpan root anchor := by
  obtain ⟨outer, houter, hspan, -⟩ := hanchor
  exact SourceText.statesSpan_of_span (nodes_subset_everyNode root houter) hspan

/-- From a name below the anchor to its end is a span as well, and what ends above the anchor ends
above that span. -/
theorem Anchored.statesSpan_from {anchor nameSpan : Span} {name : Members} {nodes : List Members}
    (hanchor : Anchored src root anchor nodes) (hname : name ∈ nodes)
    (hspan : src.span name = .ok nameSpan) :
    src.StatesSpan root ⟨nameSpan.start, anchor.stop⟩ ∧
      ∀ above : Span, above.stop.line < anchor.start.line →
        src.EndsAbove root above ⟨nameSpan.start, anchor.stop⟩ := by
  obtain ⟨outer, houter, houterSpan, hnodes⟩ := hanchor
  obtain ⟨hstart, hstop⟩ := SourceText.span_eq_ok.mp houterSpan
  have hnameStart := (SourceText.span_eq_ok.mp hspan).1
  refine ⟨.fromInner outer name nameSpan houter (hnodes hname) hspan rfl hstop,
    fun above habove => ?_⟩
  exact ⟨outer, houter, name, List.mem_cons_of_mem _ (hnodes hname), anchor.start, hstart,
    hnameStart, habove⟩

theorem Anchored.endsAbove {anchor above : Span} {nodes : List Members}
    (hanchor : Anchored src root anchor nodes) (habove : above.stop.line < anchor.start.line) :
    src.EndsAbove root above anchor := by
  obtain ⟨outer, houter, hspan, -⟩ := hanchor
  have hstart := (SourceText.span_eq_ok.mp hspan).1
  exact ⟨outer, houter, outer, List.mem_cons_self, anchor.start, hstart, hstart, habove⟩

theorem walking_declareValue {name : Members} {kind : DeclKind} {anchor : Span}
    {docs : DocComments} {calls : List CallSite} {index : Nat} {value : Option Members}
    {nodes : List Members}
    (hready : Ready src root h scope (Json.obj name).nodes)
    (hsource : ∃ node ∈ root.nodes, name ∈ node.nameNodes)
    (hkind : kind ≠ .package ∧ kind ≠ .importName) (hanchor : Anchored src root anchor nodes)
    (hname : name ∈ nodes) (hdocs : ∀ block ∈ docs.blocks, src.StatesSpan root block.span)
    (hdetached : ∀ block ∈ docs.detached, block.span.stop.line < anchor.start.line)
    (hcalls : ∀ call ∈ calls, ∀ span ∈ call.spans, src.StatesSpan root span) :
    Walking src root (declareValue src kind scope anchor docs calls index name value) h
      (Json.obj name).nodes fun _ _ => True := by
  unfold declareValue
  rw [← List.append_nil (Json.obj name).nodes]
  refine (walking_recordIdentifier hready).bind fun _ h₁ hreaches₁ hrecorded => ?_
  split
  case isFalse => exact Walking.pure trivial
  case isTrue =>
    have hready₁ := hready.mono hreaches₁
    have hdeclare : ∀ found : Option CallSite, (∀ call ∈ found, call ∈ calls) →
        Walking src root (do
          let nameSpan ← src.span name
          declare { name := name.name, kind, exported := scope == 0 && isExported name.name, scope
                    span := if index = 0 then anchor else ⟨nameSpan.start, anchor.stop⟩
                    nameSpan, doc := docs.doc, detachedDoc := docs.detached
                    groupDoc := docs.group, initCall := found }) h₁ [] fun _ _ => True := by
      refine fun found hfound => Walking.lift_bind fun nameSpan hspan => ?_
      have hnameSpan := SourceText.statesSpan_of_span (hready₁.mem_everyNode List.mem_cons_self)
        hspan
      obtain ⟨hfrom, habove⟩ := hanchor.statesSpan_from hname hspan
      refine walking_declare ⟨hready₁.holds name List.mem_cons_self, rfl, hspan, .inr hsource, ?_,
        by simp, fun block hblock => ?_⟩ hkind rfl fun hident => hrecorded name rfl hident rfl
      -- The first name is declared from the anchor on, and every other one from itself on.
      · refine Declaration.forall_mem_spans.mpr ⟨?_, hnameSpan, hdocs, by simp, by simp,
          fun call hcall => hcalls call (hfound call hcall)⟩
        dsimp only
        split
        · exact hanchor.statesSpan
        · exact hfrom
      · dsimp only
        split
        · exact hanchor.endsAbove (hdetached block hblock)
        · exact habove _ (hdetached block hblock)
    cases value with
    | some value =>
      exact Walking.lift_bind fun found hfound => hdeclare found (mem_of_initialCall hfound)
    | none => exact hdeclare none (by simp)

/-- Names are declared after their values have been walked. -/
theorem walking_walkValueSpec {spec : Members} {token : Json} {anchor : Span} {docs : DocComments}
    (hwalk : WalksBelow src root walk (Json.obj spec).height)
    (hready : Ready src root h scope (Json.obj spec).nodes)
    (hanchor : Anchored src root anchor spec.inner)
    (hdocs : ∀ block ∈ docs.blocks, src.StatesSpan root block.span)
    (hdetached : ∀ block ∈ docs.detached, block.span.stop.line < anchor.start.line) :
    Walking src root (walkValueSpec src walk spec token scope anchor docs) h spec.inner
      fun _ _ => True := by
  have hparts : ((spec.get "type").nodes ++ ((spec.get "values").nodes ++
      (spec.get "names").nodes)).Subperm spec.inner :=
    nodesUnder_subperm spec ["type", "values", "names"] (by decide)
  refine Walking.weaken ?_ hparts
  unfold walkValueSpec
  refine Walking.lift_bind fun names hnames => Walking.lift_bind fun values hvalues => ?_
  refine ((hwalk.get "type").walking (hready.inner.get (by decide))).bind fun _ h₁ hreaches₁ _ => ?_
  refine Walking.get_bind ?_
  have hready₁ := (hready.mono hreaches₁).inner
  have hwalked : Walking src root (values.forM fun value => walk (.obj value) scope .value) h₁
      (spec.get "values").nodes fun _ _ => True := by
    refine walking_forM_nodesIn hvalues (hready₁.get (by decide)) fun value hvalue h' hready' => ?_
    have hlt := height_lt_of_mem_nodesIn_get hvalues hvalue
    exact (hwalk _ hlt).walking hready'
  refine hwalked.bind fun _ h₂ hreaches₂ _ => ?_
  refine Walking.get_bind ?_
  -- The names come last, each with its place in the list.
  have hready₂ := hready₁.mono hreaches₂
  have hnodes : (names.zipIdx.flatMap fun entry => (Json.obj entry.1).nodes) =
      names.flatMap fun name => (Json.obj name).nodes := by
    conv_rhs => rw [← List.zipIdx_map_fst 0 names, List.flatMap_map]
  have hlisted := flatMap_nodesIn_sublist hnames
  rw [← hnodes] at hlisted
  refine (Walking.forM_of_forall fun entry hentry h' hreaches' => ?_).weaken hlisted.subperm
  have hname : Ready src root h' scope (Json.obj entry.1).nodes :=
    (((hready₂.mono hreaches').get (by decide)).subset hlisted.subset).subset fun node hnode =>
      List.mem_flatMap.mpr ⟨entry, hentry, hnode⟩
  have hentryName : entry.1 ∈ names := List.fst_mem_of_mem_zipIdx hentry
  refine walking_declareValue hname ?_ ?_ hanchor ?_ hdocs hdetached fun call hcall => ?_
  · exact ⟨spec, hready.mem_nodes List.mem_cons_self,
      Members.mem_nameNodes_of_names hnames hentryName⟩
  · split <;> simp
  · refine (nodes_get_subperm (by decide) spec).subset (hlisted.subset ?_)
    exact List.mem_flatMap.mpr ⟨entry, hentry, List.mem_cons_self⟩
  · exact hready₂.spans_of_mem_calls call (List.mem_of_mem_drop hcall)

theorem walking_walkDeclaration {node : Members}
    (hwalk : WalksBelow src root walk (Json.obj node).height)
    (hready : Ready src root h scope node.inner) :
    Walking src root (walkDeclaration src walk node scope) h node.inner fun _ _ => True := by
  unfold walkDeclaration
  refine Walking.lift_bind fun decl hdecl => Walking.lift_bind fun specs hspecs => ?_
  have hspecsReady : Ready src root h scope (decl.get "specs").nodes :=
    ((hready.get (by decide)).of_nodeOrEmpty hdecl).get (by decide)
  have hsubperm : (decl.get "specs").nodes.Subperm node.inner :=
    ((nodes_get_subperm (by decide) decl).trans
      (inner_nodeOrEmpty_sublist hdecl).subperm).trans
      (nodes_get_subperm (by decide) node)
  refine (walking_forM_nodesIn hspecs hspecsReady fun spec hspec h' hready' => ?_).weaken hsubperm
  have hlt : (Json.obj spec).height < (Json.obj node).height :=
    Nat.lt_trans (Nat.lt_of_lt_of_le (height_lt_of_mem_nodesIn hspecs hspec)
      (height_get_nodeOrEmpty_le "specs" hdecl)) (height_get_lt node "decl")
  split
  · refine Walking.lift_bind fun span hspan => ?_
    have hanchor : Anchored src root span spec.inner :=
      ⟨spec, hready'.mem_nodes List.mem_cons_self, hspan, List.Subset.refl _⟩
    refine (walking_walkValueSpec (hwalk.mono (Nat.le_of_lt hlt)) hready' hanchor ?_ ?_).weaken
      (inner_sublist_nodes spec).subperm
    · simp [DocComments.blocks]
    · simp
  · exact (hwalk _ hlt).walking hready'

/-! ## Parameters and results -/

/-- The fields of a field list lie below it. -/
theorem of_fieldsOf {value : Json} {fields : List Members} (h : fieldsOf value = .ok fields) :
    (fields.flatMap fun field => (Json.obj field).nodes).Subperm value.nodes ∧
      ∀ field ∈ fields, (Json.obj field).height < value.height := by
  cases value with
  | obj node =>
    have hlisted : nodesIn (Members.get node "list") = .ok fields := h
    have hbelow : (Members.get node "list").nodes.Subperm (Json.obj node).nodes :=
      (nodes_get_subperm (by decide) node).trans (inner_sublist_nodes node).subperm
    refine ⟨(flatMap_nodesIn_sublist hlisted).subperm.trans hbelow, fun field hfield => ?_⟩
    exact height_lt_of_mem_nodesIn_get hlisted hfield
  | _ =>
    obtain rfl := Except.ok.inj h
    exact ⟨List.nil_subperm, by simp⟩

/-- The parts of a field of parameters or results. -/
theorem nodes_field_subperm (field : Members) :
    ((field.get "type").nodes ++ (field.get "names").nodes).Subperm (Json.obj field).nodes :=
  (nodesUnder_subperm field ["type", "names"] (by decide)).trans (inner_sublist_nodes field).subperm

theorem walking_declareParameter {name : Members} {typeText : String}
    (hready : Ready src root h scope (Json.obj name).nodes)
    (hsource : ∃ node ∈ root.nodes, name ∈ node.nameNodes) :
    Walking src root (declareParameter src typeText scope name) h (Json.obj name).nodes
      fun param _ => src.StatesSpan root param.span := by
  unfold declareParameter
  apply Walking.lift_bind
  intro span hspan
  have hstated := SourceText.statesSpan_of_span (hready.mem_everyNode List.mem_cons_self) hspan
  rw [← List.append_nil (Json.obj name).nodes]
  refine (walking_recordIdentifier hready).bind fun _ h₁ hreaches₁ hrecorded => ?_
  by_cases hblank : (name.name != "_") = true
  · rw [if_pos hblank]
    have hready₁ := hready.mono hreaches₁
    refine (walking_declare ⟨hready₁.holds name List.mem_cons_self, rfl, hspan, .inr hsource, ?_,
      by simp, by simp⟩ (by simp) rfl fun hident => hrecorded name rfl hident rfl).map
      fun _ _ _ => hstated
    exact Declaration.forall_mem_spans.mpr
      ⟨hstated, hstated, by simp [Declaration.comments], by simp, by simp, by simp⟩
  · rw [if_neg hblank]
    exact Walking.pure hstated

/-- A field of parameters: its type, then its names. -/
theorem walking_parametersOfField {field : Members}
    (hwalk : WalksBelow src root walk (Json.obj field).height)
    (hready : Ready src root h scope (Json.obj field).nodes) :
    Walking src root (parametersOfField src walk scope field) h (Json.obj field).nodes
      fun params _ => ∀ param ∈ params, src.StatesSpan root param.span := by
  refine Walking.weaken ?_ (nodes_field_subperm field)
  unfold parametersOfField
  apply Walking.lift_bind
  intro typeText _
  refine ((hwalk.get "type").walking (hready.inner.get (by decide))).bind fun _ h₁ hreaches₁ _ => ?_
  apply Walking.lift_bind
  intro names hnames
  have hready₁ := hready.mono hreaches₁
  by_cases hempty : names.isEmpty = true
  · -- A parameter without a name stands for itself.
    rw [if_pos hempty]
    apply Walking.lift_bind
    intro span hspan
    refine (Walking.pure ?_).weaken List.nil_subperm
    intro param hparam
    rw [List.mem_singleton.mp hparam]
    exact SourceText.statesSpan_of_span (hready₁.mem_everyNode List.mem_cons_self) hspan
  · rw [if_neg hempty]
    refine (Walking.mapM fun name hname h₂ hreaches₂ => ?_).weaken
      (flatMap_nodesIn_sublist hnames).subperm
    have hnamesReady := (hready₁.mono hreaches₂).inner
    refine walking_declareParameter ((hnamesReady.get (by decide)).of_nodesIn hnames hname) ?_
    exact ⟨field, hready.mem_nodes List.mem_cons_self, Members.mem_nameNodes_of_names hnames hname⟩

/-- A field of results: its type, then its names, which are recorded and not declared. -/
theorem walking_resultsOfField {field : Members}
    (hwalk : WalksBelow src root walk (Json.obj field).height)
    (hready : Ready src root h scope (Json.obj field).nodes) :
    Walking src root (resultsOfField src walk scope field) h (Json.obj field).nodes
      fun _ _ => True := by
  refine Walking.weaken ?_ (nodes_field_subperm field)
  unfold resultsOfField
  apply Walking.lift_bind
  intro typeText _
  refine ((hwalk.get "type").walking (hready.inner.get (by decide))).bind fun _ h₁ hreaches₁ _ => ?_
  apply Walking.lift_bind
  intro names hnames
  have hready₁ := (hready.mono hreaches₁).inner
  refine (walking_forM_nodesIn hnames (hready₁.get (by decide)) fun name _ h' hready' => ?_).map
    fun _ _ _ => trivial
  exact (walking_recordIdentifier hready').imp fun _ _ _ _ => trivial

/-- The fields of a field list, one after the other. -/
theorem walking_mapM_fieldsOf {α : Type} {fieldList : Json} {fields : List Members}
    {f : Members → TreeReader α} {R : α → Prop} (hfields : fieldsOf fieldList = .ok fields)
    (hwalk : WalksBelow src root walk fieldList.height)
    (hready : Ready src root h scope fieldList.nodes)
    (hf : ∀ field h', WalksBelow src root walk (Json.obj field).height →
      Ready src root h' scope (Json.obj field).nodes →
      Walking src root (f field) h' (Json.obj field).nodes fun a _ => R a) :
    Walking src root (fields.mapM f) h fieldList.nodes fun as _ => ∀ a ∈ as, R a := by
  obtain ⟨hlisted, hheight⟩ := of_fieldsOf hfields
  refine (Walking.mapM fun field hfield h' hreaches => ?_).weaken hlisted
  apply hf field h' (hwalk.mono (Nat.le_of_lt (hheight field hfield)))
  apply ((hready.mono hreaches).subset hlisted.subset).subset
  intro node hnode
  exact List.mem_flatMap.mpr ⟨field, hfield, hnode⟩

theorem walking_declareParameters {fieldList : Json}
    (hwalk : WalksBelow src root walk fieldList.height)
    (hready : Ready src root h scope fieldList.nodes) :
    Walking src root (declareParameters src walk fieldList scope) h fieldList.nodes
      fun params _ => ∀ param ∈ params, src.StatesSpan root param.span := by
  unfold declareParameters
  apply Walking.lift_bind
  intro fields hfields
  have hmapped := walking_mapM_fieldsOf hfields hwalk hready
    fun field h' hwalk' hready' => walking_parametersOfField hwalk' hready'
  refine hmapped.map fun lists _ hlists param hparam => ?_
  obtain ⟨params, hparams, hparam⟩ := List.mem_flatten.mp hparam
  exact hlists params hparams param hparam

theorem walking_resultTypes {fieldList : Json}
    (hwalk : WalksBelow src root walk fieldList.height)
    (hready : Ready src root h scope fieldList.nodes) :
    Walking src root (resultTypes src walk fieldList scope) h fieldList.nodes fun _ _ => True := by
  unfold resultTypes
  apply Walking.lift_bind
  intro fields hfields
  have hmapped := walking_mapM_fieldsOf (R := fun _ => True) hfields hwalk hready
    fun field h' hwalk' hready' => walking_resultsOfField hwalk' hready'
  exact hmapped.map fun _ _ _ => trivial

/-! ## Scopes -/

theorem hasKind_unique {node : Members} {kind other : String} (h : node.hasKind kind = true)
    (hne : kind ≠ other) : node.hasKind other = false := by
  unfold Members.hasKind Json.isText at h ⊢
  split at h
  case h_1 name hname =>
    rw [beq_iff_eq.mp h]
    exact beq_eq_false_iff_ne.mpr hne
  case h_2 => cases h

/-- The nodes of most kinds open blocks that lie deeper. -/
theorem opens_block {node : Members} {kind : String} (h : node.hasKind kind = true)
    (hkind : kind ∉ ["FuncDecl", "FuncLit", "CaseClause", "CommClause"]) :
    ScopeKind.block = node.scopeKind ∧ true = !node.isClause := by
  simp only [List.mem_cons, List.not_mem_nil, or_false, not_or] at hkind
  obtain ⟨hdecl, hlit, hcase, hcomm⟩ := hkind
  rw [Members.scopeKind, Members.isClause, hasKind_unique h hdecl, hasKind_unique h hlit,
    hasKind_unique h hcase, hasKind_unique h hcomm]
  exact ⟨rfl, rfl⟩

/-- The parameters and the results lie below the type of a function. -/
theorem nodes_signature_subperm {value : Json} {signature : Members}
    (hsignature : nodeOrEmpty value = .ok signature) :
    ((signature.get "params").nodes ++ (signature.get "results").nodes).Subperm value.nodes :=
  (nodesUnder_subperm signature ["params", "results"] (by decide)).trans
    (inner_nodeOrEmpty_sublist hsignature).subperm

theorem walking_walkFunctionLiteral {node : Members} {span : Span}
    (hwalk : WalksBelow src root walk (Json.obj node).height)
    (hready : Ready src root h scope (Json.obj node).nodes) (hspan : src.span node = .ok span)
    (hkind : node.hasKind "FuncLit" = true) :
    Walking src root (walkFunctionLiteral src walk node span scope) h (Json.obj node).nodes
      fun _ _ => True := by
  have hclause : node.isClause = false := by
    rw [Members.isClause, hasKind_unique hkind (by simp), hasKind_unique hkind (by simp)]
    rfl
  unfold walkFunctionLiteral
  refine Walking.inScope hready hspan ?_ (by rw [hclause]; rfl) fun inner h₁ hreaches₁ hready₁ => ?_
  · rw [Members.scopeKind, hkind, Bool.or_true]
    rfl
  have hparts : ((node.get "type").nodes ++ (node.get "body").nodes).Subperm node.inner :=
    nodesUnder_subperm node ["type", "body"] (by decide)
  refine Walking.weaken ?_ hparts
  apply Walking.lift_bind
  intro signature hsignature
  have hheight : ∀ key, (signature.get key).height ≤ (Json.obj node).height := fun key =>
    Nat.le_trans (height_get_nodeOrEmpty_le key hsignature) (Nat.le_of_lt (height_get_lt node _))
  refine Walking.weaken ?_ ((List.subperm_append_right _).mpr (nodes_signature_subperm hsignature))
  rw [List.append_assoc]
  -- The signature and the body stand in the new scope.
  have hsignatureReady := (hready₁.get (by decide)).of_nodeOrEmpty hsignature
  refine (walking_declareParameters (hwalk.mono (hheight "params"))
    (hsignatureReady.get (by decide))).bind fun _ h₂ hreaches₂ _ => ?_
  refine (walking_resultTypes (hwalk.mono (hheight "results"))
    ((hsignatureReady.mono hreaches₂).get (by decide))).bind fun _ h₃ hreaches₃ _ => ?_
  exact walking_walkBody (hwalk.mono (Nat.le_of_lt (height_get_lt node "body")))
    (((hready₁.mono hreaches₂).mono hreaches₃).get (by decide))

/-- The alternative of a conditional stands in the scope around it. -/
theorem walking_walkConditional {node : Members} {span : Span}
    (hwalk : WalksBelow src root walk (Json.obj node).height)
    (hready : Ready src root h scope (Json.obj node).nodes) (hspan : src.span node = .ok span)
    (hkind : node.hasKind "IfStmt" = true) :
    Walking src root (walkConditional src walk node span scope) h (Json.obj node).nodes
      fun _ _ => True := by
  obtain ⟨hblock, hdeepens⟩ := opens_block hkind (by simp)
  unfold walkConditional
  refine Walking.inScope hready hspan hblock hdeepens fun inner h₁ hreaches₁ hready₁ => ?_
  have hparts : ((node.get "init").nodes ++ ((node.get "cond").nodes ++ ((node.get "body").nodes ++
      (node.get "else").nodes))).Subperm node.inner :=
    nodesUnder_subperm node ["init", "cond", "body", "else"] (by decide)
  refine Walking.weaken ?_ hparts
  refine ((hwalk.get "init").walking (hready₁.get (by decide))).bind fun _ h₂ hreaches₂ _ => ?_
  have hready₂ := hready₁.mono hreaches₂
  refine ((hwalk.get "cond").walking (hready₂.get (by decide))).bind fun _ h₃ hreaches₃ _ => ?_
  have hready₃ := hready₂.mono hreaches₃
  refine (walking_walkBody (hwalk.mono (Nat.le_of_lt (height_get_lt node "body")))
    (hready₃.get (by decide))).bind fun _ h₄ hreaches₄ _ => ?_
  -- The alternative is left, and has to be ready in the scope around the conditional.
  have houter : Ready src root h₄ scope (node.get "else").nodes :=
    ((((hready.mono hreaches₁).mono hreaches₂).mono hreaches₃).mono hreaches₄).inner.get (by decide)
  have hbelow := hwalk.get "else"
  have hheight := height_get_lt node "else"
  cases helse : node.get "else" with
  | obj alternative =>
    rw [helse] at houter hbelow hheight
    dsimp only
    by_cases hconditional : Members.hasKind alternative "IfStmt" = true
    · rw [if_pos hconditional]
      exact hbelow.walking houter
    · rw [if_neg hconditional]
      by_cases hsibling : Members.hasKind alternative "BlockStmt" = true
      · rw [if_pos hsibling]
        obtain ⟨hblock', hdeepens'⟩ := opens_block hsibling (by simp)
        apply Walking.lift_bind
        intro siblingSpan hsiblingSpan
        refine Walking.inScope houter hsiblingSpan hblock' hdeepens' fun sibling h₅ _ hready₅ => ?_
        exact walking_walkBlock (hwalk.mono (Nat.le_of_lt hheight)) hready₅
      · rw [if_neg hsibling]
        exact (Walking.pure trivial).weaken List.nil_subperm
  | _ => exact (Walking.pure trivial).weaken List.nil_subperm

theorem walking_walkClause {node : Members} {span : Span}
    (hwalk : WalksBelow src root walk (Json.obj node).height)
    (hready : Ready src root h scope (Json.obj node).nodes) (hspan : src.span node = .ok span)
    (hclause : node.isClause = true) :
    Walking src root (walkClause walk node span scope) h (Json.obj node).nodes
      fun _ _ => True := by
  have hblock : ScopeKind.block = node.scopeKind := by
    rw [Members.isClause, Bool.or_eq_true] at hclause
    rcases hclause with hcase | hcomm
    · rw [Members.scopeKind, hasKind_unique hcase (by simp), hasKind_unique hcase (by simp)]
      rfl
    · rw [Members.scopeKind, hasKind_unique hcomm (by simp), hasKind_unique hcomm (by simp)]
      rfl
  unfold walkClause
  refine Walking.inScope hready hspan hblock (by rw [hclause]; rfl) fun inner h₁ _ hready₁ => ?_
  have hparts : ((node.get "list").nodes ++ ((node.get "comm").nodes ++
      (node.get "body").nodes)).Subperm node.inner :=
    nodesUnder_subperm node ["list", "comm", "body"] (by decide)
  refine Walking.weaken ?_ hparts
  refine ((hwalk.get "list").walking (hready₁.get (by decide))).bind fun _ h₂ hreaches₂ _ => ?_
  have hready₂ := hready₁.mono hreaches₂
  refine ((hwalk.get "comm").walking (hready₂.get (by decide))).bind fun _ h₃ hreaches₃ _ => ?_
  exact (hwalk.get "body").walking ((hready₂.mono hreaches₃).get (by decide))

/-! ## Nodes by their kinds -/

/-- The names of a kind of nodes, if it has names of its own. -/
def NodeKind.names : NodeKind → List String
  | .identifier => ["Ident"]
  | .selector => ["SelectorExpr"]
  | .call => ["CallExpr"]
  | .block => ["BlockStmt"]
  | .functionLiteral => ["FuncLit"]
  | .conditional => ["IfStmt"]
  | .rangeLoop => ["RangeStmt"]
  | .scoped => ["ForStmt", "SwitchStmt", "TypeSwitchStmt", "SelectStmt"]
  | .clause => ["CaseClause", "CommClause"]
  | .assignment => ["AssignStmt"]
  | .declaration => ["DeclStmt"]
  | .plain _ => ["ExprStmt", "GoStmt", "DeferStmt", "ReturnStmt"]
  | .other => []

theorem NodeKind.mem_names_ofName (name : String) :
    NodeKind.ofName name = .other ∨ name ∈ (NodeKind.ofName name).names := by
  unfold NodeKind.ofName
  split <;> simp [NodeKind.names]

theorem hasKind_of_nodeKind {node : Members} {kind : NodeKind}
    (h : NodeKind.of (node.get "kind") = .ok kind) (hkind : kind ≠ .other) :
    ∃ name ∈ kind.names, node.hasKind name = true := by
  unfold Members.hasKind
  cases hvalue : node.get "kind" with
  | str name =>
    rw [hvalue] at h
    obtain rfl := Except.ok.inj h
    exact ⟨name, (NodeKind.mem_names_ofName name).resolve_left hkind, by simp [Json.isText]⟩
  | arr items => rw [hvalue] at h; cases h
  | obj members => rw [hvalue] at h; cases h
  | _ => rw [hvalue] at h; exact absurd (Except.ok.inj h).symm hkind

theorem hasKind_of_names_eq {node : Members} {kind : NodeKind} {name : String}
    (h : NodeKind.of (node.get "kind") = .ok kind) (hnames : kind.names = [name]) :
    node.hasKind name = true := by
  have hother : kind ≠ .other := by
    rintro rfl
    cases hnames
  obtain ⟨found, hfound, hkind⟩ := hasKind_of_nodeKind h hother
  rw [hnames] at hfound
  rwa [List.mem_singleton.mp hfound] at hkind

theorem nodeKind_of_hasKind {node : Members} {name : String} (h : node.hasKind name = true) :
    NodeKind.of (node.get "kind") = .ok (.ofName name) := by
  unfold Members.hasKind at h
  cases hvalue : node.get "kind" with
  | str kind =>
    rw [hvalue] at h
    obtain rfl : kind = name := beq_iff_eq.mp h
    rfl
  | _ => rw [hvalue] at h; cases h

/-- The kind that is read off a node is that of its name. -/
theorem eq_ofName_of_hasKind {node : Members} {name : String} {kind : NodeKind}
    (hkind : NodeKind.of (node.get "kind") = .ok kind) (hnamed : node.hasKind name = true) :
    kind = .ofName name :=
  Except.ok.inj (hkind.symm.trans (nodeKind_of_hasKind hnamed))

theorem mem_parts_of_get {node : Members} {key : String} {part : Members}
    (hget : node.get key = .obj part) (hkey : key ∉ annotationKeys) :
    (key, Json.obj part) ∈ node.parts := by
  rcases get_eq_null_or_mem node key with hnull | hmem
  · rw [hget] at hnull
    cases hnull
  · rw [hget] at hmem
    exact List.mem_filter.mpr ⟨hmem, by simpa using hkey⟩

/-- The variables of a loop over a range are among its parts. -/
theorem walking_rangeLoop {node : Members}
    (hwalk : WalksBelow src root walk (Json.obj node).height)
    (hready : Ready src root h scope node.inner) :
    Walking src root (do
      if (node.get "tok").isText ":=" then
        [node.get "key", node.get "value"].forM (defineVariable src scope)
      walkScoped src walk node scope) h node.inner fun _ _ => True := by
  by_cases hdefines : (node.get "tok").isText ":=" = true
  · simp only [hdefines, if_true]
    have hdefined : Reads ([node.get "key", node.get "value"].forM (defineVariable src scope)) h
        fun _ added => Defined src root h added
          ([node.get "key", node.get "value"].filterMap Json.members?) := by
      apply reads_forM_defineVariable
      intro target htarget
      rcases List.mem_pair.mp htarget with rfl | rfl
      · exact hready.get (by decide)
      · exact hready.get (by decide)
    refine Walking.defining hdefined fun h₁ hreaches₁ => ?_
    refine (walking_walkScoped hwalk (hready.mono hreaches₁)).imp fun _ h₂ _ hrecorded => ?_
    refine ⟨fun name hname hident => ?_, trivial⟩
    obtain ⟨target, htarget, hmembers⟩ := List.mem_filterMap.mp hname
    rw [members?_eq_some] at hmembers
    have hpart : ∀ key, key ∉ annotationKeys → key ≠ "body" → node.get key = .obj name →
        h₂.Records name := fun key hkey hbody hget =>
      hrecorded _ (mem_parts_of_get hget hkey) hbody name rfl hident
    rcases List.mem_pair.mp htarget with rfl | rfl
    · exact hpart "key" (by decide) (by simp) hmembers
    · exact hpart "value" (by decide) (by simp) hmembers
  · simp only [hdefines]
    exact (walking_walkScoped hwalk hready).imp fun _ _ _ _ => trivial

/-- **A node of any kind uses itself and what lies below it.** -/
theorem walking_walkNode {node : Members}
    (hwalk : WalksBelow src root walk (Json.obj node).height)
    (hready : Ready src root h scope (Json.obj node).nodes) :
    Walking src root (walkNode src walk node scope context) h (Json.obj node).nodes fun _ h' =>
      node.hasKind "Ident" = true → h'.Records node := by
  unfold walkNode
  apply Walking.lift_bind
  intro span hspan
  apply Walking.lift_bind
  intro kind hkind
  have hinner := inner_sublist_nodes node
  -- Only an identifier has to be recorded.
  have hother : kind ≠ .identifier → ∀ {step : TreeReader Unit},
      Walking src root step h (Json.obj node).nodes (fun _ _ => True) →
      Walking src root step h (Json.obj node).nodes fun _ h' =>
        node.hasKind "Ident" = true → h'.Records node := by
    intro hne step hstep
    exact hstep.imp fun _ _ _ _ hident => absurd (eq_ofName_of_hasKind hkind hident) hne
  cases kind with
  | identifier =>
    exact (walking_recordIdentifier hready).imp fun _ _ _ hrecorded hident =>
      hrecorded node rfl hident rfl
  | selector =>
    apply hother (by simp)
    have hparts : ((node.get "x").nodes ++ (node.get "sel").nodes).Subperm node.inner :=
      nodesUnder_subperm node ["x", "sel"] (by decide)
    refine Walking.weaken ?_ (hparts.trans hinner.subperm)
    refine ((hwalk.get "x").walking (hready.inner.get (by decide))).bind fun _ h₁ hreaches₁ _ => ?_
    have hready₁ := (hready.mono hreaches₁).inner
    exact (walking_recordIdentifier (hready₁.get (by decide))).imp fun _ _ _ _ => trivial
  | call => exact hother (by simp) (walking_walkCall hwalk hready (by simp))
  | block =>
    apply hother (by simp)
    obtain ⟨hblock, hdeepens⟩ := opens_block (hasKind_of_names_eq hkind rfl) (by simp)
    exact Walking.inScope hready hspan hblock hdeepens fun inner h₁ _ hready₁ =>
      walking_walkBlock hwalk hready₁
  | functionLiteral =>
    apply hother (by simp)
    exact walking_walkFunctionLiteral hwalk hready hspan (hasKind_of_names_eq hkind rfl)
  | conditional =>
    apply hother (by simp)
    exact walking_walkConditional hwalk hready hspan (hasKind_of_names_eq hkind rfl)
  | rangeLoop =>
    apply hother (by simp)
    obtain ⟨hblock, hdeepens⟩ := opens_block (hasKind_of_names_eq hkind rfl) (by simp)
    exact Walking.inScope hready hspan hblock hdeepens fun inner h₁ _ hready₁ =>
      walking_rangeLoop hwalk hready₁
  | «scoped» =>
    apply hother (by simp)
    obtain ⟨name, hname, hnamed⟩ := hasKind_of_nodeKind hkind (by simp)
    -- None of its names is that of a function or a clause.
    obtain ⟨hblock, hdeepens⟩ := opens_block hnamed (by
      simp only [NodeKind.names, List.mem_cons, List.not_mem_nil, or_false] at hname
      rcases hname with rfl | rfl | rfl | rfl <;> simp)
    exact Walking.inScope hready hspan hblock hdeepens fun inner h₁ _ hready₁ =>
      (walking_walkScoped hwalk hready₁).imp fun _ _ _ _ => trivial
  | clause =>
    apply hother (by simp)
    obtain ⟨name, hname, hnamed⟩ := hasKind_of_nodeKind hkind (by simp)
    refine walking_walkClause hwalk hready hspan ?_
    rw [Members.isClause, Bool.or_eq_true]
    rcases List.mem_pair.mp hname with rfl | rfl
    · exact Or.inl hnamed
    · exact Or.inr hnamed
  | assignment =>
    apply hother (by simp)
    exact (walking_walkAssignment hwalk hready.inner).weaken hinner.subperm
  | declaration =>
    apply hother (by simp)
    exact (walking_walkDeclaration hwalk hready.inner).weaken hinner.subperm
  | plain context =>
    apply hother (by simp)
    exact (walking_walkParts hwalk hready.inner).weaken hinner.subperm
  | other =>
    apply hother (by simp)
    exact (walking_walkParts hwalk hready.inner).weaken hinner.subperm

/-! ## The walk -/

theorem walks_walkStep {value : Json} (hwalk : WalksBelow src root walk value.height) :
    Walks src root (walkStep src walk) value := by
  intro h scope context hready
  cases value with
  | arr items =>
    rw [nodes_arr] at hready ⊢
    refine (walking_forM_walk ?_ hready).imp fun _ _ _ _ node hnode => nomatch hnode
    exact fun item hitem => hwalk item (Json.height_lt_of_mem hitem)
  | obj node =>
    unfold walkStep
    dsimp only
    split
    · -- An object without a kind is no node, and no identifier.
      rename_i hkind
      refine (Walking.pure ?_).weaken List.nil_subperm
      rintro other hother hident
      obtain rfl := Json.obj.inj hother
      rw [Members.hasKind, hkind] at hident
      cases hident
    · refine (walking_walkNode hwalk hready).imp fun _ _ _ hrecorded other hother => ?_
      obtain rfl := Json.obj.inj hother
      exact hrecorded
  | _ =>
    refine (Walking.pure ?_).weaken List.nil_subperm
    intro node hnode
    cases hnode

/-- The levels of a walk are enough for every value that is not higher. -/
theorem walks_walkWithin (levels : Nat) :
    ∀ value : Json, value.height ≤ levels → Walks src root (walkWithin src levels) value := by
  induction levels with
  | zero =>
    intro value hheight h scope context _
    cases value with
    | arr items => cases hheight
    | obj node => cases hheight
    | _ =>
      refine (Walking.pure ?_).weaken List.nil_subperm
      intro node hnode
      cases hnode
  | succ levels ih =>
    intro value hheight
    refine walks_walkStep fun part hlt => ih part ?_
    exact Nat.le_of_lt_succ (Nat.lt_of_lt_of_le hlt hheight)

/-- **The walk visits every node at most once**, in the scope it stands in. -/
theorem walks_walkTree (value : Json) : Walks src root (walkTree src) value :=
  walks_walkWithin value.height value (Nat.le_refl _)

end GoConventions
