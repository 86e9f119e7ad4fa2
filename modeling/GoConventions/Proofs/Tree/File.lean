import GoConventions.Proofs.Tree.Comments
import GoConventions.Proofs.Tree.Walk
import GoConventions.Tree.File

/-!
# Reading a file

The model of a file is told by one history, from the scope of the file to the last declaration, that
uses every node of the tree at most once in each role (`exists_history_of_readTree`).

## Main definitions

* `TreeHistory.Tells`: a history tells how a model came about.

## Main results

* `reads_readFunction`: a function is declared with a scope of its own as its body.
* `exists_history_of_readTree`: every model that is read is told by a history.
-/

namespace GoConventions

variable {src : CommentedText} {root : Json} {h : TreeHistory} {scope : Nat}

/-! ## Names and comments -/

/-- A node that has a place is no vacant value. -/
theorem eq_obj_of_span {text : SourceText} {value : Json} {node : Members} {span : Span}
    (hnode : nodeOrEmpty value = .ok node) (hspan : text.span node = .ok span) :
    value = .obj node := by
  rcases nodeOrEmpty_eq_ok hnode with hobj | rfl
  · exact hobj
  · obtain ⟨start, hstart, -⟩ := bind_eq_ok.mp hspan
    cases hstart

/-- A name that is given as a node, or left vacant. -/
theorem walking_recordName {text : SourceText} {value : Json} {name : Members}
    (hname : nodeOrEmpty value = .ok name) (hready : Ready text root h scope value.nodes) :
    Walking text root (recordIdentifier text (.obj name)) h value.nodes fun _ h' =>
      name.hasKind "Ident" = true → h'.Records name := by
  rcases nodeOrEmpty_eq_ok hname with hobj | rfl
  · rw [hobj] at hready ⊢
    exact (walking_recordIdentifier hready).imp fun _ _ _ hrecorded hident =>
      hrecorded name rfl hident rfl
  · -- No name: nothing is recorded.
    refine (Walking.pure ?_).weaken List.nil_subperm
    intro hident
    cases hident

theorem mem_alone_of_leadingComment? {line : Int} {block : CommentBlock}
    (hblock : block ∈ src.leadingComment? line) : block ∈ src.alone :=
  List.mem_of_mem_filter (List.mem_of_getLast? hblock)

theorem mem_alone_of_detachedComment? {line : Int} {block : CommentBlock}
    (hblock : block ∈ src.detachedComment? line) : block ∈ src.alone := by
  unfold CommentedText.detachedComment? at hblock
  split at hblock
  · exact List.mem_of_mem_filter (List.mem_of_getLast? hblock)
  · cases hblock

/-- A detached comment ends above the declaration. -/
theorem line_lt_of_docsAt {line : Int} {group : Option CommentBlock} :
    ∀ block ∈ (docsAt src line group).detached, block.span.stop.line < line := by
  intro block hblock
  unfold docsAt at hblock
  dsimp only at hblock
  split at hblock
  · cases hblock
  · unfold CommentedText.detachedComment? at hblock
    split at hblock
    · have hline := (List.mem_filter.mp (List.mem_of_getLast? hblock)).2
      rw [beq_iff_eq.mp hline]
      exact Int.sub_lt_self line (by decide)
    · cases hblock

/-- The comments of a declaration stand alone. -/
theorem mem_alone_of_docsAt {line : Int} {group : Option CommentBlock}
    (hgroup : ∀ block ∈ group, block ∈ src.alone) :
    ∀ block ∈ (docsAt src line group).blocks, block ∈ src.alone := by
  intro block hblock
  simp only [DocComments.blocks, docsAt, List.mem_append, Option.mem_toList] at hblock
  rcases hblock with (hdoc | hdetached) | hblock
  · exact mem_alone_of_leadingComment? hdoc
  · split at hdetached
    · cases hdetached
    · exact mem_alone_of_detachedComment? hdetached
  · exact hgroup block hblock

/-! ## Types, constants and variables -/

section Declarations

variable (halone : ∀ block ∈ src.alone, src.StatesSpan root block.span)

include halone

theorem walking_readTypeSpec {spec : Members} {anchor : Span} {docs : DocComments}
    (hready : Ready src.toSourceText root h 0 (Json.obj spec).nodes)
    (hanchor : Anchored src.toSourceText root anchor spec.inner)
    (hdocs : ∀ block ∈ docs.blocks, block ∈ src.alone)
    (hdetached : ∀ block ∈ docs.detached, block.span.stop.line < anchor.start.line) :
    Walking src.toSourceText root (readTypeSpec src spec 0 anchor docs) h spec.inner
      fun _ _ => True := by
  have hparts : ((spec.get "name").nodes ++ (spec.get "type").nodes).Subperm spec.inner :=
    nodesUnder_subperm spec ["name", "type"] (by decide)
  refine Walking.weaken ?_ hparts
  unfold readTypeSpec
  refine (walking_recordIdentifier (hready.inner.get (by decide))).bind
    fun _ h₁ hreaches₁ hrecorded => ?_
  have hready₁ := (hready.mono hreaches₁).inner
  rw [← List.append_nil (spec.get "type").nodes]
  refine ((walks_walkTree _).walking (hready₁.get (by decide))).bind fun _ h₂ hreaches₂ _ => ?_
  have hready₂ := hready₁.mono hreaches₂
  apply Walking.lift_bind
  intro name hname
  apply Walking.lift_bind
  intro nameSpan hspan
  have hobj := eq_obj_of_span hname hspan
  have hnameReady : Ready src.toSourceText root h₂ 0 (Json.obj name).nodes :=
    hobj ▸ hready₂.get (by decide)
  have hstated := SourceText.statesSpan_of_span (hnameReady.mem_everyNode List.mem_cons_self) hspan
  have hsource : ∃ node ∈ root.nodes, name ∈ node.nameNodes :=
    ⟨spec, hready.mem_nodes List.mem_cons_self, Members.mem_nameNodes_of_name hobj⟩
  refine walking_declare ⟨hnameReady.holds name List.mem_cons_self, rfl, hspan, .inr hsource, ?_,
    by simp, fun block hblock => hanchor.endsAbove (hdetached block hblock)⟩ (by simp) rfl
    fun hident => (hrecorded name hobj hident rfl).mono hreaches₂
  exact Declaration.forall_mem_spans.mpr ⟨hanchor.statesSpan, hstated,
    fun block hblock => halone block (hdocs block hblock), by simp, by simp, by simp⟩

theorem walking_readGeneral {decl : Members}
    (hready : Ready src.toSourceText root h 0 (Json.obj decl).nodes) :
    Walking src.toSourceText root (readGeneral src decl 0) h decl.inner fun _ _ => True := by
  have hspecs_subperm : (decl.get "specs").nodes.Subperm decl.inner :=
    nodes_get_subperm (by decide) decl
  refine Walking.weaken ?_ hspecs_subperm
  unfold readGeneral
  apply Walking.lift_bind
  intro span hspan
  apply Walking.lift_bind
  intro specs hspecs
  apply Walking.lift_bind
  intro grouped _
  refine walking_forM_nodesIn hspecs (hready.inner.get (by decide)) fun spec hspec h' hready' => ?_
  apply Walking.lift_bind
  intro specSpan hspecSpan
  refine Walking.weaken ?_ (inner_sublist_nodes spec).subperm
  have hread : ∀ anchor group, Anchored src.toSourceText root anchor spec.inner →
      (∀ block ∈ group, block ∈ src.alone) →
      Walking src.toSourceText root
        (if (decl.get "tok").isText "type" then
          readTypeSpec src spec 0 anchor (docsAt src anchor.start.line group)
        else walkValueSpec src.toSourceText (walkTree src.toSourceText) spec (decl.get "tok") 0
          anchor (docsAt src anchor.start.line group)) h' spec.inner fun _ _ => True := by
    intro anchor group hanchor hgroup
    have hdocs : ∀ block ∈ (docsAt src anchor.start.line group).blocks, block ∈ src.alone :=
      mem_alone_of_docsAt hgroup
    split
    · exact walking_readTypeSpec halone hready' hanchor hdocs line_lt_of_docsAt
    · exact walking_walkValueSpec (fun value _ => walks_walkTree value) hready' hanchor
        (fun block hblock => halone block (hdocs block hblock)) line_lt_of_docsAt
  -- In parentheses each specification has its own place, else that of the declaration.
  cases grouped with
  | true =>
    exact hread specSpan _
      ⟨spec, hready'.mem_nodes List.mem_cons_self, hspecSpan, List.Subset.refl _⟩
      fun block hblock => mem_alone_of_leadingComment? hblock
  | false =>
    refine hread span none ⟨decl, hready.mem_nodes List.mem_cons_self, hspan, ?_⟩ (by simp)
    refine fun below hbelow => hspecs_subperm.subset ((flatMap_nodesIn_sublist hspecs).subset ?_)
    exact List.mem_flatMap.mpr ⟨spec, hspec, List.mem_cons_of_mem _ hbelow⟩

end Declarations

/-! ## Receivers -/

theorem nodes_baseTypeWithin_subperm (steps : Nat) :
    ∀ value, (baseTypeWithin steps value).nodes.Subperm value.nodes := by
  induction steps with
  | zero => exact fun value => List.Subperm.refl _
  | succ steps ih =>
    intro value
    unfold baseTypeWithin
    split
    · split
      · rename_i node _
        refine (ih _).trans ((nodes_get_subperm (by decide) node).trans ?_)
        exact (inner_sublist_nodes node).subperm
      · exact List.Subperm.refl _
    · exact List.Subperm.refl _

/-- The base of a receiver type is recorded, if it is an identifier. -/
theorem walking_receiverTypeName {text : SourceText} {typeNode : Members} {base : Json}
    (hready : Ready text root h scope base.nodes) :
    Walking text root (receiverTypeName text typeNode base) h base.nodes fun _ _ => True := by
  unfold receiverTypeName
  cases base with
  | obj node =>
    dsimp only
    by_cases hident : Members.hasKind node "Ident" = true
    · rw [if_pos hident]
      exact (walking_recordIdentifier hready).map fun _ _ _ => trivial
    · rw [if_neg hident]
      exact (Walking.lift fun _ _ => trivial).weaken List.nil_subperm
  | _ => exact (Walking.lift fun _ _ => trivial).weaken List.nil_subperm

/-- The type of a receiver, given as a node or left vacant. -/
theorem walking_receiverType {text : SourceText} {value : Json} {typeNode : Members}
    (htype : nodeOrEmpty value = .ok typeNode) (hready : Ready text root h scope value.nodes) :
    Walking text root (receiverTypeName text typeNode (baseType
      (if typeNode.hasKind "StarExpr" then typeNode.get "x" else .obj typeNode))) h value.nodes
      fun _ _ => True := by
  rcases nodeOrEmpty_eq_ok htype with hobj | rfl
  · have hbase : (baseType (if typeNode.hasKind "StarExpr" then typeNode.get "x"
        else .obj typeNode)).nodes.Subperm value.nodes := by
      refine (nodes_baseTypeWithin_subperm _ _).trans ?_
      rw [hobj]
      split
      · exact (nodes_get_subperm (by decide) typeNode).trans
          (inner_sublist_nodes typeNode).subperm
      · exact List.Subperm.refl _
    exact (walking_receiverTypeName (hready.subset hbase.subset)).weaken hbase
  · -- A vacant type has no source, so it is refused.
    refine (Walking.lift fun _ _ => trivial).weaken List.nil_subperm

theorem walking_receiver? {text : SourceText} {fieldList : Json}
    (hready : Ready text root h scope fieldList.nodes) :
    Walking text root (receiver? text fieldList) h fieldList.nodes fun receiver _ =>
      ∀ found ∈ receiver, text.StatesSpan root found.span := by
  unfold receiver?
  apply Walking.lift_bind
  intro fields hfields
  obtain ⟨hlisted, -⟩ := of_fieldsOf hfields
  cases fields with
  | nil => exact (Walking.pure (by simp)).weaken List.nil_subperm
  | cons field rest =>
    have hfield : (Json.obj field).nodes.Subperm fieldList.nodes :=
      (List.sublist_append_left _ _).subperm.trans hlisted
    have hfieldReady := hready.subset hfield.subset
    refine Walking.weaken ?_ ((nodes_field_subperm field).trans hfield)
    apply Walking.lift_bind
    intro names hnames
    apply Walking.lift_bind
    intro typeNode htype
    refine (walking_receiverType htype (hfieldReady.inner.get (by decide))).bind
      fun typeName h₁ hreaches₁ _ => ?_
    have hready₁ := (hfieldReady.mono hreaches₁).inner
    rw [← List.append_nil (field.get "names").nodes]
    refine (walking_forM_nodesIn hnames (hready₁.get (by decide)) fun name _ h' hready' => ?_).bind
      fun _ h₂ _ _ => ?_
    · exact (walking_recordIdentifier hready').imp fun _ _ _ _ => trivial
    · apply Walking.lift_bind
      intro span hspan
      apply Walking.pure
      rintro found ⟨⟩
      exact SourceText.statesSpan_of_span (hfieldReady.mem_everyNode List.mem_cons_self) hspan

/-! ## Functions -/

/-- What the reading of a declaration adds: it uses the given nodes and has recorded every name that
it declares. -/
def Filed (src : SourceText) (root : Json) (h added : TreeHistory) (nodes : List Members) : Prop :=
  ∃ bodies, Walked src root h added nodes bodies

theorem Filed.append {text : SourceText} {added later : TreeHistory} {nodes more : List Members}
    (hadded : Filed text root h added nodes) (hlater : Filed text root (h ++ added) later more) :
    Filed text root h (added ++ later) (nodes ++ more) := by
  obtain ⟨bodies, hadded⟩ := hadded
  obtain ⟨others, hlater⟩ := hlater
  exact ⟨bodies ++ others, hadded.append hlater⟩

/-- The body of a function is one of the scopes that have been opened. -/
theorem lt_of_mem_bodies {text : SourceText} (hvalid : Continues text root [] h) {body : Nat}
    (hbody : body ∈ h.bodies) : body < h.opened.length := by
  obtain ⟨event, hevent, hdeclared⟩ := List.mem_filterMap.mp hbody
  obtain ⟨before, after, rfl, hfollows⟩ := follows_of_mem hvalid hevent
  cases event with
  | declaration name decl =>
    obtain ⟨-, opened, hopened, -⟩ := hfollows.1.body body hdeclared
    have hlt := (List.getElem?_eq_some_iff.mp hopened).1
    rw [TreeHistory.opened_append, List.length_append]
    exact Nat.lt_add_right _ hlt
  | heading decl =>
    have hnone : decl.bodyScope = none := HeadingFollows.body hfollows
    rw [TreeEvent.body?, TreeEvent.declaration?, Option.bind_some, hnone] at hdeclared
    cases hdeclared
  | _ => cases hdeclared

/-- The scope of a function has been opened, and no function has it as its body yet. -/
structure BodyOpened (src : SourceText) (root : Json) (h : TreeHistory) (decl : Members)
    (body : Nat) : Prop where
  outer : Ready src root h 0 (Json.obj decl).nodes
  inner : Ready src root h body decl.inner
  fresh : body ∉ h.bodies
  opened : ∃ opened, h.opened[body]? = some opened ∧ opened.kind = .function ∧
    opened.parent = some 0

theorem BodyOpened.append {text : SourceText} {decl : Members} {body : Nat} {added : TreeHistory}
    {nodes : List Members} (hbody : BodyOpened text root h decl body)
    (hadded : Walked text root h added nodes []) :
    BodyOpened text root (h ++ added) decl body := by
  have hreaches : Reaches text root h (h ++ added) := ⟨added, rfl, hadded.continues⟩
  refine ⟨hbody.outer.mono hreaches, hbody.inner.mono hreaches, ?_, ?_⟩
  · rw [TreeHistory.bodies_append, hadded.bodies_eq, List.append_nil]
    exact hbody.fresh
  · obtain ⟨opened, hopened, hkind⟩ := hbody.opened
    refine ⟨opened, ?_, hkind⟩
    rw [TreeHistory.opened_append,
      List.getElem?_append_left (List.getElem?_eq_some_iff.mp hopened).1]
    exact hopened

theorem reads_openBody {text : SourceText} {decl : Members} {span : Span}
    (hkind : decl.hasKind "FuncDecl" = true) (hready : Ready text root h 0 (Json.obj decl).nodes)
    (hspan : text.span decl = .ok span) :
    Reads (openScope .function span (some 0)) h fun body added =>
      Walked text root h added [decl] [] ∧ BodyOpened text root (h ++ added) decl body := by
  have hscopeKind : ScopeKind.function = decl.scopeKind := by
    rw [Members.scopeKind, hkind, Bool.true_or]
    rfl
  have hdeepens : true = !decl.isClause := by
    rw [Members.isClause, hasKind_unique hkind (by simp), hasKind_unique hkind (by simp)]
    rfl
  refine (reads_openScope hready hspan hscopeKind hdeepens).imp ?_
  rintro body _ ⟨rfl, ⟨opened, rfl, hopened⟩, hwalked, hinner⟩
  refine ⟨hwalked, hready.mono ⟨_, rfl, hwalked.continues⟩, hinner, fun hbody => ?_, opened, ?_,
    hopened⟩
  · rw [TreeHistory.bodies_append, hwalked.bodies_eq, List.append_nil] at hbody
    exact Nat.lt_irrefl _ (lt_of_mem_bodies hready.valid hbody)
  · rw [TreeHistory.opened_append]
    exact List.getElem?_concat_length

/-- The parts of a function, and the function itself, which opens a scope. -/
theorem nodes_function_subperm {decl signature : Members}
    (hsignature : nodeOrEmpty (decl.get "type") = .ok signature) :
    ((decl.get "name").nodes ++ ((decl.get "recv").nodes ++ ([decl] ++
      ((signature.get "params").nodes ++ ((signature.get "results").nodes ++ ([] ++
        (decl.get "body").nodes)))))).Subperm (Json.obj decl).nodes := by
  have hkeys := nodesUnder_subperm decl ["name", "recv", "type", "body"] (by decide)
  have htype := (List.subperm_append_right (decl.get "body").nodes).mpr
    (nodes_signature_subperm hsignature)
  rw [List.append_assoc] at htype
  have hparts := ((List.subperm_append_left (decl.get "name").nodes).mpr
    ((List.subperm_append_left (decl.get "recv").nodes).mpr htype)).trans hkeys
  rw [List.nil_append, List.singleton_append, ← List.append_assoc]
  rw [← List.append_assoc (decl.get "name").nodes] at hparts
  exact List.perm_middle.subperm.trans ((List.subperm_cons decl).mpr hparts)

section Functions

variable (halone : ∀ block ∈ src.alone, src.StatesSpan root block.span)

include halone

/-- **A function is declared with a scope of its own as its body.** -/
theorem reads_readFunction {decl : Members} (hkind : decl.hasKind "FuncDecl" = true)
    (hready : Ready src.toSourceText root h 0 (Json.obj decl).nodes) :
    Reads (readFunction src decl 0) h fun _ added =>
      Filed src.toSourceText root h added (Json.obj decl).nodes := by
  have hwalks : ∀ bound, WalksBelow src.toSourceText root (walkTree src.toSourceText) bound :=
    fun _ value _ => walks_walkTree value
  unfold readFunction
  apply Reads.lift_bind
  intro span hspan
  apply Reads.lift_bind
  intro name hname
  refine Reads.bind (walking_recordName hname (hready.inner.get (by decide))) ?_
  rintro _ named ⟨hnamed, hrecorded⟩
  -- The name and the receiver stand in the scope of the file, what follows in that of the function.
  have hready₁ := hready.mono ⟨named, rfl, hnamed.continues⟩
  refine Reads.bind (walking_receiver? (hready₁.inner.get (by decide))) ?_
  rintro receiver received ⟨hreceived, hreceiver⟩
  have hready₂ := hready₁.mono ⟨received, rfl, hreceived.continues⟩
  refine Reads.bind (reads_openBody hkind hready₂ hspan) ?_
  rintro body opening ⟨hopening, hbody₃⟩
  apply Reads.lift_bind
  intro signature hsignature
  refine Reads.bind (walking_declareParameters (hwalks _)
    (((hbody₃.inner.get (by decide)).of_nodeOrEmpty hsignature).get (by decide))) ?_
  rintro params declared ⟨hdeclared, hparams⟩
  have hbody₄ := hbody₃.append hdeclared
  refine Reads.bind (walking_resultTypes (hwalks _)
    (((hbody₄.inner.get (by decide)).of_nodeOrEmpty hsignature).get (by decide))) ?_
  rintro results resulted ⟨hresulted, -⟩
  have hbody₅ := hbody₄.append hresulted
  apply Reads.lift_bind
  intro nameSpan hnameSpan
  -- The function is declared after its signature, so its name has been recorded long before.
  have hobj := eq_obj_of_span hname hnameSpan
  have hnameReady : Ready src.toSourceText root _ 0 (Json.obj name).nodes :=
    hobj ▸ hbody₅.outer.inner.get (by decide)
  have hdocs : ∀ block ∈ (docsAt src span.start.line none).blocks, block ∈ src.alone :=
    mem_alone_of_docsAt (by simp)
  have hdetached : ∀ block ∈ (docsAt src span.start.line none).detached,
      block.span.stop.line < span.start.line := line_lt_of_docsAt
  have hsource : ∃ node ∈ root.nodes, name ∈ node.nameNodes :=
    ⟨decl, hready.mem_nodes List.mem_cons_self, Members.mem_nameNodes_of_name hobj⟩
  have hanchor : Anchored src.toSourceText root span decl.inner :=
    ⟨decl, hready.mem_nodes List.mem_cons_self, hspan, List.Subset.refl _⟩
  refine Reads.bind (reads_declare ⟨hnameReady.holds name List.mem_cons_self, rfl, hnameSpan,
    .inr hsource, ?_, ?_, fun block hblock => hanchor.endsAbove (hdetached block hblock)⟩
    ?_ ?_) ?_
  · refine Declaration.forall_mem_spans.mpr ⟨?_, ?_, ?_, hreceiver, hparams, by simp⟩
    · exact hanchor.statesSpan
    · exact SourceText.statesSpan_of_span (hnameReady.mem_everyNode List.mem_cons_self) hnameSpan
    · exact fun block hblock => halone block (hdocs block hblock)
  · rintro _ ⟨⟩
    exact ⟨hbody₅.fresh, hbody₅.opened⟩
  · dsimp only
    split <;> simp
  · exact fun hident => (((((hrecorded hident).append received).append opening).append
      declared).append resulted)
  rintro _ declaring hdeclaring
  have hreaches₆ : Reaches src.toSourceText root _ _ := ⟨declaring, rfl, hdeclaring.continues⟩
  refine Reads.imp (walking_walkBody (hwalks _) ((hbody₅.inner.mono hreaches₆).get (by decide))) ?_
  rintro _ walked ⟨hwalked, -⟩
  exact ⟨_, Walked.weaken (hnamed.append (hreceived.append (hopening.append (hdeclared.append
    (hresulted.append (hdeclaring.append hwalked)))))) (nodes_function_subperm hsignature)⟩

end Functions

/-! ## Imports -/

theorem flatMap_groupEntries (text : SourceText) (entries : List ImportEntry) :
    (groupEntries text entries).flatMap ImportGroup.entries = entries := by
  induction entries with
  | nil => rfl
  | cons entry entries ih =>
    unfold groupEntries
    split
    · rename_i hgroups
      rw [hgroups] at ih
      rw [← ih]
      rfl
    · rename_i group groups hgroups
      rw [hgroups] at ih
      split
      · rw [List.flatMap_cons, ih]
        rfl
      · rw [← ih]
        rfl

/-- The spans of an import are those of its specification and of the nodes of its path and its
alias. -/
theorem spans_of_importEntry {spec : Members} {entry : ImportEntry}
    (hentry : importEntry src spec = .ok entry) :
    src.span spec = .ok entry.span ∧
      (∃ path, spec.get "path" = .obj path ∧ src.span path = .ok entry.pathSpan) ∧
      ∀ aliasSpan ∈ entry.aliasSpan, ∃ name, spec.get "name" = .obj name ∧
        src.span name = .ok aliasSpan := by
  unfold importEntry at hentry
  split at hentry
  case h_2 => cases hentry
  case h_1 pathNode hpath =>
    obtain ⟨span, hspan, hentry⟩ := bind_eq_ok.mp hentry
    split at hentry
    case h_2 => cases hentry
    case h_1 =>
      obtain ⟨path, -, hentry⟩ := bind_eq_ok.mp hentry
      obtain ⟨pathSpan, hpathSpan, hentry⟩ := bind_eq_ok.mp hentry
      obtain ⟨aliasSpan, haliasSpan, hentry⟩ := bind_eq_ok.mp hentry
      obtain rfl := Except.ok.inj hentry
      refine ⟨hspan, ⟨pathNode, hpath, hpathSpan⟩, fun stated halias => ?_⟩
      -- An alias is named by a node of its own.
      cases halias' : ((spec.get "name").members?).filter (!·.isEmpty) with
      | none =>
        rw [halias'] at haliasSpan
        obtain rfl := Except.ok.inj haliasSpan
        cases halias
      | some node =>
        rw [halias'] at haliasSpan
        obtain ⟨found, hfound, hsome⟩ := bind_eq_ok.mp haliasSpan
        obtain rfl := Except.ok.inj hsome
        obtain rfl := Option.some.inj halias
        exact ⟨node, members?_eq_some.mp (Option.filter_eq_some_iff.mp halias').1, hfound⟩

/-- The spans of an import are those of nodes of the tree. -/
theorem statesSpan_of_importEntry {spec : Members} {entry : ImportEntry}
    (hready : Ready src.toSourceText root h scope (Json.obj spec).nodes)
    (hentry : importEntry src spec = .ok entry) :
    ∀ span ∈ entry.spans, src.StatesSpan root span := by
  have hpart : ∀ {key node span}, key ∉ annotationKeys → spec.get key = .obj node →
      src.span node = .ok span → src.StatesSpan root span := fun hkey hnode hspan =>
    SourceText.statesSpan_of_span
      ((hnode ▸ hready.inner.get hkey).mem_everyNode List.mem_cons_self) hspan
  obtain ⟨hspan, ⟨path, hpath, hpathSpan⟩, hnames⟩ := spans_of_importEntry hentry
  intro stated hmem
  simp only [ImportEntry.spans, List.mem_cons, Option.mem_toList] at hmem
  rcases hmem with rfl | rfl | halias
  · exact SourceText.statesSpan_of_span (hready.mem_everyNode List.mem_cons_self) hspan
  · exact hpart (by decide) hpath hpathSpan
  · obtain ⟨name, hname, hnameSpan⟩ := hnames stated halias
    exact hpart (by decide) hname hnameSpan

theorem aliasFollows_of_importEntry {spec : Members} {entry : ImportEntry}
    (hspec : root.IsImportSpec spec) (hentry : importEntry src spec = .ok entry) :
    src.AliasFollows root entry := by
  obtain ⟨-, ⟨path, hpath, hpathSpan⟩, hnames⟩ := spans_of_importEntry hentry
  intro aliasSpan halias
  obtain ⟨name, hname, hnameSpan⟩ := hnames aliasSpan halias
  exact ⟨spec, name, path, hspec, hname, hpath, hnameSpan, hpathSpan⟩

theorem walking_declareHeading {text : SourceText} {decl : Declaration}
    (hfollows : HeadingFollows text root h decl) :
    Walking text root (declare decl) h [] fun _ h' => TreeEvent.heading decl ∈ h' := by
  refine Reads.ofModify (.heading decl) rfl ⟨⟨?_, ?_, ?_⟩, by simp⟩
  · refine Extends.single hfollows fun role => ?_
    cases role <;> exact List.nil_subperm
  · simp
  · rw [TreeHistory.bodies, List.filterMap_cons]
    simp [TreeEvent.body?, hfollows.body]

theorem walking_recordImport {text : SourceText} {decl : ImportDecl}
    (hfollows : TreeEvent.Follows text root h (.imports decl)) :
    Walking text root (recordImport decl) h [] fun _ _ => True := by
  refine Reads.ofModify (.imports decl) rfl ⟨⟨?_, ?_, ?_⟩, trivial⟩
  · refine Extends.single hfollows fun role => ?_
    cases role <;> exact List.nil_subperm
  · simp
  · rfl

theorem walking_readImports {decl : Members} (hkind : decl.hasKind "GenDecl" = true)
    (htoken : (decl.get "tok").isText "import" = true)
    (hready : Ready src.toSourceText root h 0 (Json.obj decl).nodes) :
    Walking src.toSourceText root (readImports src decl 0) h [] fun _ _ => True := by
  unfold readImports
  apply Walking.lift_bind
  intro span hspan
  apply Walking.lift_bind
  intro parenthesized _
  apply Walking.lift_bind
  intro specs hspecs
  refine (walking_mapM_lift (R := fun entry => (∀ span ∈ entry.spans, src.StatesSpan root span) ∧
    src.AliasFollows root entry) fun spec hspec entry hentry => ?_).bind_of_nil
    fun entries h₁ hreaches₁ hentries => ?_
  · refine ⟨statesSpan_of_importEntry ((hready.inner.get (by decide)).of_nodesIn hspecs hspec)
      hentry, aliasFollows_of_importEntry ?_ hentry⟩
    exact ⟨decl, hready.mem_nodes List.mem_cons_self, hkind, htoken, specs, hspecs, hspec⟩
  have hready₁ := hready.mono hreaches₁
  refine (Walking.forM_of_nil fun entry hentry h' hreaches' => ?_).bind_of_nil fun _ h₂ _ _ => ?_
  · obtain ⟨outer, -, hopener, -⟩ := (hready₁.mono hreaches').holds decl List.mem_cons_self
    have hspans := (hentries entry hentry).1
    refine (walking_declareHeading ⟨?_, rfl, Or.inr rfl, rfl, ?_, rfl⟩).imp
      fun _ _ _ _ => trivial
    · exact List.ne_nil_of_mem (List.mem_of_getElem? hopener)
    · refine Declaration.forall_mem_spans.mpr ⟨?_, ?_, by simp [Declaration.comments], by simp,
        by simp, by simp⟩
      · exact hspans _ (by simp [ImportEntry.spans])
      · cases halias : entry.aliasSpan with
        | none => exact hspans _ (by simp [ImportEntry.spans, halias])
        | some found => exact hspans _ (by simp [ImportEntry.spans, halias])
  · refine walking_recordImport ⟨fun stated hmem => ?_, fun body hbody => ?_,
      fun entry hentry => ?_⟩
    · rw [ImportDecl.spans, ImportDecl.entries, flatMap_groupEntries] at hmem
      rcases List.mem_cons.mp hmem with rfl | hmem
      · exact SourceText.statesSpan_of_span (hready.mem_everyNode List.mem_cons_self) hspan
      · obtain ⟨entry, hentry, hmem⟩ := List.mem_flatMap.mp hmem
        exact (hentries entry hentry).1 stated hmem
    · dsimp only at hbody
      split at hbody
      · exact hbody
      · cases hbody
    · rw [ImportDecl.entries, flatMap_groupEntries] at hentry
      exact (hentries entry hentry).2

/-! ## Files -/

theorem statesSpan_of_packageClause {tree : Members} {clause : PackageClause}
    (h : packageClause src tree = .ok clause) :
    src.StatesSpan (.obj tree) clause.span ∧ src.StatesSpan (.obj tree) clause.nameSpan ∧
      ∀ block ∈ clause.doc, block ∈ src.alone := by
  unfold packageClause at h
  split at h
  case h_2 => cases h
  case h_1 node hnode =>
    obtain ⟨start, hstart, h⟩ := bind_eq_ok.mp h
    obtain ⟨nameSpan, hnameSpan, h⟩ := bind_eq_ok.mp h
    obtain rfl := Except.ok.inj h
    have hmem : node ∈ (Json.obj tree).everyNode := by
      apply everyNode_get_subset tree "package"
      rw [hnode]
      exact List.mem_cons_self
    have hpart : (tree.get "package").nodes ⊆ tree.inner :=
      (nodes_get_subperm (by decide) tree).subset
    have hbelow : node ∈ tree.inner := hpart (hnode ▸ List.mem_cons_self)
    exact ⟨.toInner tree node nameSpan List.mem_cons_self hbelow hnameSpan hstart rfl,
      SourceText.statesSpan_of_span hmem hnameSpan,
      fun block hblock => mem_alone_of_leadingComment? hblock⟩

section Files

variable (halone : ∀ block ∈ src.alone, src.StatesSpan root block.span)

include halone

theorem reads_readDeclaration {decl : Members}
    (hready : Ready src.toSourceText root h 0 (Json.obj decl).nodes) :
    Reads (readDeclaration src 0 decl) h fun _ added =>
      Filed src.toSourceText root h added (Json.obj decl).nodes := by
  -- Only a function declares a body, and everything else is a walk.
  have hwalked : ∀ {step : TreeReader Unit} {nodes : List Members},
      Walking src.toSourceText root step h nodes (fun _ _ => True) →
      nodes.Subperm (Json.obj decl).nodes → Reads step h fun _ added =>
        Filed src.toSourceText root h added (Json.obj decl).nodes :=
    fun hstep hnodes => Reads.imp (hstep.weaken hnodes) fun _ _ hadded => ⟨[], hadded.1⟩
  unfold readDeclaration
  by_cases hgeneral : decl.hasKind "GenDecl" = true
  · rw [if_pos hgeneral]
    split
    · rename_i htoken
      exact hwalked (walking_readImports hgeneral htoken hready) List.nil_subperm
    · exact hwalked (walking_readGeneral halone hready) (inner_sublist_nodes decl).subperm
  · rw [if_neg hgeneral]
    by_cases hfunction : decl.hasKind "FuncDecl" = true
    · rw [if_pos hfunction]
      exact reads_readFunction halone hfunction hready
    · rw [if_neg hfunction]
      exact hwalked ((walks_walkTree _).walking hready) (List.Subperm.refl _)

theorem reads_forM_readDeclaration {decls : List Members}
    (hready : Ready src.toSourceText root h 0 (decls.flatMap fun decl => (Json.obj decl).nodes)) :
    Reads (decls.forM (readDeclaration src 0)) h fun _ added =>
      Filed src.toSourceText root h added (decls.flatMap fun decl => (Json.obj decl).nodes) := by
  induction decls generalizing h with
  | nil => exact Reads.pure ⟨[], Walked.nil⟩
  | cons decl decls ih =>
    rw [List.flatMap_cons] at hready ⊢
    refine Reads.bind (reads_readDeclaration halone
      (hready.subset (List.subset_append_left _ _))) fun _ added hadded => ?_
    have hreaches : Reaches src.toSourceText root h (h ++ added) := by
      obtain ⟨_, hwalked⟩ := hadded
      exact ⟨added, rfl, hwalked.continues⟩
    have hrest := (hready.mono hreaches).subset (List.subset_append_right _ _)
    exact Reads.imp (ih hrest) fun _ later hlater => hadded.append hlater

end Files

/-- The scope of a file. -/
def SourceText.fileScope (text : SourceText) : OpenScope :=
  ⟨.file, text.wholeSpan, none, 0⟩

theorem reads_openFile {text : SourceText} (tree : Members) :
    Reads (openScope .file text.wholeSpan none) [] fun id added =>
      id = 0 ∧ added = [.scope tree text.fileScope] ∧
        Walked text (.obj tree) [] added [tree] [] ∧ Ready text (.obj tree) added 0 tree.inner := by
  have hfollows : TreeEvent.Follows text (.obj tree) [] (.scope tree text.fileScope) :=
    .file rfl rfl rfl
  have hopened : Walked text (.obj tree) [] [.scope tree text.fileScope] [tree] [] := by
    refine ⟨Extends.single hfollows fun role => ?_, by simp, rfl⟩
    cases role with
    | scope => exact List.Subperm.refl _
    | _ => exact List.nil_subperm
  intro id draft hrun
  obtain ⟨rfl, rfl⟩ := Prod.mk.inj (Except.ok.inj hrun)
  exact ⟨_, rfl, rfl, rfl, hopened,
    ⟨hopened.continues, fun node hnode => ⟨tree, List.mem_cons_self, rfl, hnode⟩⟩⟩

/-- The package clause is declared once the scope of the file is open. -/
theorem headingFollows_of_packageClause {tree : Members} {clause : PackageClause}
    (halone : ∀ block ∈ src.alone, src.StatesSpan (.obj tree) block.span)
    (hclause : packageClause src tree = .ok clause) (hopened : h.openers ≠ []) :
    HeadingFollows src.toSourceText (.obj tree) h
      { name := clause.name, kind := .package, exported := false, scope := 0, span := clause.span
        nameSpan := clause.nameSpan, doc := clause.doc } := by
  obtain ⟨hspan, hnameSpan, hdoc⟩ := statesSpan_of_packageClause hclause
  refine ⟨hopened, rfl, Or.inl rfl, rfl, Declaration.forall_mem_spans.mpr
    ⟨hspan, hnameSpan, fun block hblock => halone block (hdoc block ?_), by simp, by simp, by simp⟩,
    rfl⟩
  simpa [Declaration.comments] using hblock

/-- The scope of the file comes first, then the package clause and the declarations. -/
theorem reads_readFile {tree : Members}
    (halone : ∀ block ∈ src.alone, src.StatesSpan (.obj tree) block.span) :
    Reads (readFile src tree) [] fun clause added =>
      Filed src.toSourceText (.obj tree) [] added (Json.obj tree).nodes ∧
        (∃ later, added = .scope tree src.fileScope :: later) ∧
        (∃ decl, TreeEvent.heading decl ∈ added ∧ decl.kind = .package) ∧
        packageClause src tree = .ok clause := by
  unfold readFile
  refine Reads.bind (reads_openFile tree) ?_
  rintro _ _ ⟨rfl, rfl, hopened, hready⟩
  apply Reads.lift_bind
  intro clause hclause
  refine Reads.bind (walking_declareHeading
    (headingFollows_of_packageClause halone hclause (by simp [TreeHistory.openers]))) ?_
  rintro _ heading ⟨hheaded, hheading⟩
  apply Reads.lift_bind
  intro decls hdecls
  have hlisted := flatMap_nodesIn_sublist hdecls
  have hready' : Ready src.toSourceText (.obj tree) _ 0 (tree.get "decls").nodes :=
    (hready.mono ⟨heading, rfl, hheaded.continues⟩).get (by decide)
  refine Reads.bind (reads_forM_readDeclaration halone (hready'.subset hlisted.subset)) ?_
  rintro _ declared ⟨bodies, hdeclared⟩
  refine Reads.pure ⟨⟨bodies, ?_⟩, ⟨_, rfl⟩, ?_, hclause⟩
  · rw [List.append_nil]
    refine (hopened.append (hheaded.append hdeclared)).weaken ?_
    refine (List.subperm_cons tree).mpr (hlisted.subperm.trans ?_)
    exact nodes_get_subperm (by decide) tree
  · rw [← List.append_assoc]
    exact ⟨_, List.mem_append_left _ hheading, rfl⟩

/-! ## The history of a model -/

/-- A history tells how the model of a file came about. -/
structure TreeHistory.Tells (history : TreeHistory) (tree : Members) (unit : SourceUnit) :
    Prop where
  starts : ∃ later, history = .scope tree unit.fileScope :: later
  continues : Continues unit.toSourceText (.obj tree) [] history
  once : ∀ role, (history.filterMap (TreeEvent.source? role)).Subperm (Json.obj tree).nodes
  named : ∀ name decl, TreeEvent.declaration name decl ∈ history → name.hasKind "Ident" = true →
    history.Records name
  declarations : unit.declarations = (Draft.ofHistory history).declarations
  scopes : unit.scopes = (Draft.ofHistory history).scopes
  imports : unit.imports = (Draft.ofHistory history).imports
  identifiers : unit.identifiers =
    sortBy (compareOn (·.span.start.offset)) (Draft.ofHistory history).identifiers
  calls : ∃ file : CommentedText, unit.calls = (Draft.ofHistory history).calls.map (annotated file)
  package : unit.StatesSpan (.obj tree) unit.packageSpan
  clause : ∃ decl ∈ unit.declarations, decl.kind = .package
  comments : ∀ block ∈ unit.packageDoc.toList ++ unit.comments,
    unit.StatesSpan (.obj tree) block.span

/-- **Every model that is read is told by a history.** -/
theorem exists_history_of_readTree {path text : String} {tree : Members} {unit : SourceUnit}
    (h : readTree path text tree = .ok unit) :
    unit.path = path ∧ unit.text = text ∧ ∃ history : TreeHistory, history.Tells tree unit := by
  unfold readTree at h
  dsimp only at h
  split at h
  case isTrue => cases h
  case isFalse =>
    obtain ⟨comments, hcomments, h⟩ := bind_eq_ok.mp h
    obtain ⟨⟨clause, draft⟩, hread, h⟩ := bind_eq_ok.mp h
    obtain rfl := Except.ok.inj h
    have hstated := statesSpan_of_mem_comments hcomments
    have halone : ∀ block ∈ (SourceText.withComments ⟨path, text⟩ comments).alone,
        SourceText.StatesSpan ⟨path, text⟩ (.obj tree) block.span :=
      fun block hblock => hstated block (List.mem_of_mem_filter hblock)
    obtain ⟨history, rfl, ⟨bodies, hwalked⟩, hstarts, ⟨heading, hheading, hkind⟩, hclause⟩ :=
      reads_readFile halone _ _ hread
    obtain ⟨hspan, -, hdoc⟩ := statesSpan_of_packageClause hclause
    refine ⟨rfl, rfl, history, ?_⟩
    exact {
      starts := hstarts
      continues := hwalked.continues
      once := hwalked.once
      named := hwalked.named
      declarations := rfl
      scopes := rfl
      imports := rfl
      identifiers := rfl
      calls := ⟨_, rfl⟩
      package := hspan
      clause := by
        refine ⟨heading, ?_, hkind⟩
        show heading ∈ (Draft.ofHistory history).declarations
        rw [declarations_ofHistory]
        exact List.mem_filterMap.mpr ⟨_, hheading, rfl⟩
      comments := fun block hblock => by
        rcases List.mem_append.mp hblock with hblock | hblock
        · exact halone block (hdoc block (Option.mem_toList.mp hblock))
        · exact hstated block hblock }

end GoConventions
