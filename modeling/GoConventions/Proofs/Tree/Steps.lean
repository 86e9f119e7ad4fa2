import GoConventions.Proofs.Tree.History
import GoConventions.Tree.Walk

/-!
# Steps of a walk

A walk uses the nodes it is given, each at most once, records every name that it declares, and
declares no function.  This module says how such steps are chained and repeated, and describes the
few steps that add something: all else that a walk does is put together from them.

## Main definitions

* `Ready`: nodes may be walked in a scope.
* `Walking`: a step that uses the given nodes only.

## Main results

* `Walking.bind`, `Walking.forM`, `Walking.mapM`: chained and repeated steps.
* `Walking.inScope`: a scope for a node, and the parts of the node in it.
* `Walking.defining`: variables that are declared before their names are recorded.
-/

namespace GoConventions

variable {src : SourceText} {root : Json} {h h' : TreeHistory} {scope : Nat}
  {nodes more : List Members}

theorem TreeHistory.Holds.mem_nodes {node : Members} (hholds : h.Holds root scope node) :
    node ∈ root.nodes := by
  obtain ⟨outer, houter, -, hnode⟩ := hholds
  exact nodes_trans houter hnode

theorem TreeHistory.Records.mono {node : Members} (hnode : h.Records node)
    (hreaches : Reaches src root h h') : h'.Records node := by
  obtain ⟨added, rfl, -⟩ := hreaches
  exact hnode.append added

/-! ## Readiness -/

/-- After a history that obeys the rules, nodes stand in a scope. -/
structure Ready (src : SourceText) (root : Json) (h : TreeHistory) (scope : Nat)
    (nodes : List Members) : Prop where
  valid : Continues src root [] h
  holds : ∀ node ∈ nodes, h.Holds root scope node

namespace Ready

theorem mono (hready : Ready src root h scope nodes) (hreaches : Reaches src root h h') :
    Ready src root h' scope nodes := by
  refine ⟨?_, fun node hnode => (hready.holds node hnode).mono hreaches⟩
  obtain ⟨added, rfl, hadded⟩ := hreaches
  exact continues_append.mpr ⟨hready.valid, hadded⟩

theorem subset (hready : Ready src root h scope nodes) (hsubset : more ⊆ nodes) :
    Ready src root h scope more :=
  ⟨hready.valid, fun node hnode => hready.holds node (hsubset hnode)⟩

theorem mem_nodes (hready : Ready src root h scope nodes) {node : Members} (hnode : node ∈ nodes) :
    node ∈ root.nodes :=
  (hready.holds node hnode).mem_nodes

theorem mem_everyNode (hready : Ready src root h scope nodes) {node : Members}
    (hnode : node ∈ nodes) : node ∈ root.everyNode :=
  nodes_subset_everyNode root (hready.mem_nodes hnode)

/-- What lies below a node that is ready. -/
theorem inner {node : Members} (hready : Ready src root h scope (Json.obj node).nodes) :
    Ready src root h scope node.inner :=
  hready.subset (inner_sublist_nodes node).subset

theorem get {node : Members} {key : String} (hready : Ready src root h scope node.inner)
    (hkey : key ∉ annotationKeys) :
    Ready src root h scope (node.get key).nodes :=
  hready.subset (nodes_get_subperm hkey node).subset

theorem of_nodesIn {value : Json} {listed : List Members} {node : Members}
    (hready : Ready src root h scope value.nodes) (hlisted : nodesIn value = .ok listed)
    (hnode : node ∈ listed) : Ready src root h scope (Json.obj node).nodes := by
  refine hready.subset fun below hbelow => (flatMap_nodesIn_sublist hlisted).subset ?_
  exact List.mem_flatMap.mpr ⟨node, hnode, hbelow⟩

theorem of_nodeOrEmpty {value : Json} {node : Members} (hready : Ready src root h scope value.nodes)
    (hnode : nodeOrEmpty value = .ok node) : Ready src root h scope node.inner :=
  hready.subset (inner_nodeOrEmpty_sublist hnode).subset

/-- The calls so far have their spans from the tree. -/
theorem spans_of_mem_calls (hready : Ready src root h scope nodes) :
    ∀ call ∈ (Draft.ofHistory h).calls, ∀ span ∈ call.spans, src.StatesSpan root span := by
  rw [calls_ofHistory]
  intro call hcall
  obtain ⟨event, hevent, hfound⟩ := List.mem_filterMap.mp hcall
  obtain ⟨before, -, -, hfollows⟩ := follows_of_mem hready.valid hevent
  cases event with
  | call node found =>
    obtain rfl := Option.some.inj hfound
    exact CallFollows.spans hfollows
  | _ => cases hfound

end Ready

/-! ## Walks -/

/-- What a walk adds: it uses the given nodes, has recorded every name that it declares, and
declares functions with the given bodies. -/
structure Walked (src : SourceText) (root : Json) (h added : TreeHistory) (nodes : List Members)
    (bodies : List Nat) : Prop extends Extends src root h added nodes where
  named : ∀ name decl, TreeEvent.declaration name decl ∈ added → name.hasKind "Ident" = true →
    TreeHistory.Records (h ++ added) name
  bodies_eq : added.bodies = bodies

theorem Walked.nil : Walked src root h [] [] [] :=
  ⟨Extends.nil _, by simp, rfl⟩

theorem Walked.append {added later : TreeHistory} {bodies others : List Nat}
    (hadded : Walked src root h added nodes bodies)
    (hlater : Walked src root (h ++ added) later more others) :
    Walked src root h (added ++ later) (nodes ++ more) (bodies ++ others) := by
  refine ⟨hadded.toExtends.append hlater.toExtends, fun name decl hmem hident => ?_, ?_⟩
  · rw [← List.append_assoc]
    rcases List.mem_append.mp hmem with hmem | hmem
    · exact (hadded.named name decl hmem hident).append later
    · exact hlater.named name decl hmem hident
  · rw [TreeHistory.bodies_append, hadded.bodies_eq, hlater.bodies_eq]

theorem Walked.weaken {added : TreeHistory} {bodies : List Nat}
    (hadded : Walked src root h added nodes bodies) (hnodes : nodes.Subperm more) :
    Walked src root h added more bodies :=
  ⟨hadded.toExtends.weaken hnodes, hadded.named, hadded.bodies_eq⟩

/-- A step of a walk that uses the given nodes and declares no function, with what is known of its
answer and of the history after it. -/
def Walking {α : Type} (src : SourceText) (root : Json) (step : TreeReader α) (h : TreeHistory)
    (nodes : List Members) (P : α → TreeHistory → Prop) : Prop :=
  Reads step h fun a added => Walked src root h added nodes [] ∧ P a (h ++ added)

namespace Walking

variable {α β : Type} {step : TreeReader α} {next : α → TreeReader β}
  {P : α → TreeHistory → Prop} {Q : β → TreeHistory → Prop}

/-- A step goes on from the history before it. -/
theorem imp {P' : α → TreeHistory → Prop} (hstep : Walking src root step h nodes P)
    (himp : ∀ a h', Reaches src root h h' → P a h' → P' a h') :
    Walking src root step h nodes P' :=
  Reads.imp hstep fun a added ⟨hwalked, hP⟩ =>
    ⟨hwalked, himp a _ ⟨added, rfl, hwalked.continues⟩ hP⟩

theorem weaken (hstep : Walking src root step h nodes P) (hnodes : nodes.Subperm more) :
    Walking src root step h more P :=
  Reads.imp hstep fun _ _ ⟨hwalked, hP⟩ =>
    ⟨hwalked.weaken hnodes, hP⟩

theorem bind (hstep : Walking src root step h nodes P)
    (hnext : ∀ a h', Reaches src root h h' → P a h' → Walking src root (next a) h' more Q) :
    Walking src root (step >>= next) h (nodes ++ more) Q := by
  refine Reads.bind hstep fun a added ⟨hwalked, hP⟩ => ?_
  have hrest := hnext a (h ++ added) ⟨added, rfl, hwalked.continues⟩ hP
  refine Reads.imp hrest fun b later hlater => ?_
  obtain ⟨hlater, hQ⟩ := hlater
  exact ⟨hwalked.append hlater, by rwa [← List.append_assoc]⟩

/-- A step that uses no nodes, and what follows it. -/
theorem bind_of_nil (hstep : Walking src root step h [] P)
    (hnext : ∀ a h', Reaches src root h h' → P a h' → Walking src root (next a) h' nodes Q) :
    Walking src root (step >>= next) h nodes Q :=
  bind hstep hnext

theorem pure {a : α} (ha : P a h) : Walking src root (Pure.pure a) h [] P :=
  Reads.pure ⟨Walked.nil, by rwa [List.append_nil]⟩

theorem lift {result : TreeResult α} (hresult : ∀ a, result = .ok a → P a h) :
    Walking src root (liftM result) h [] P :=
  Reads.lift fun a ha => ⟨Walked.nil, by rw [List.append_nil]; exact hresult a ha⟩

/-- A look at the tree, and what follows it. -/
theorem lift_bind {result : TreeResult α}
    (hnext : ∀ a, result = .ok a → Walking src root (next a) h nodes Q) :
    Walking src root (liftM result >>= next) h nodes Q :=
  Reads.lift_bind hnext

/-- A look at the draft, and what follows it. -/
theorem get_bind {next : Draft → TreeReader β}
    (hnext : Walking src root (next (Draft.ofHistory h)) h nodes Q) :
    Walking src root (get >>= next) h nodes Q :=
  Reads.get_bind hnext

/-- A step, and an answer that is made of its answer. -/
theorem map {f : α → β} (hstep : Walking src root step h nodes P)
    (hanswer : ∀ a h', P a h' → Q (f a) h') :
    Walking src root (step >>= fun a => Pure.pure (f a)) h nodes Q := by
  rw [← List.append_nil nodes]
  exact hstep.bind fun a h' _ ha => pure (hanswer a h' ha)

/-- **Repeated steps** use the nodes of all elements.  What a step brings about for its element has
to last. -/
theorem forM {γ : Type} {xs : List γ} {f : γ → TreeReader Unit} {ns : γ → List Members}
    {R : γ → TreeHistory → Prop}
    (hmono : ∀ x h' h'', Reaches src root h' h'' → R x h' → R x h'')
    (hf : ∀ x ∈ xs, ∀ h', Reaches src root h h' →
      Walking src root (f x) h' (ns x) fun _ h'' => R x h'') :
    Walking src root (xs.forM f) h (xs.flatMap ns) fun _ h' => ∀ x ∈ xs, R x h' := by
  induction xs generalizing h with
  | nil => exact pure (by simp)
  | cons x xs ih =>
    show Walking src root (f x >>= fun _ => xs.forM f) h ((x :: xs).flatMap ns) _
    rw [List.flatMap_cons]
    refine bind (hf x (by simp) h (Reaches.refl h)) fun _ h' hreaches hx => ?_
    refine (ih fun y hy h'' hlater => hf y (by simp [hy]) h'' (hreaches.trans hlater)).imp ?_
    rintro - h'' hlater hxs y hy
    rcases List.mem_cons.mp hy with rfl | hy
    · exact hmono y h' h'' hlater hx
    · exact hxs y hy

/-- Repeated steps of which nothing is known but the nodes they use. -/
theorem forM_of_forall {γ : Type} {xs : List γ} {f : γ → TreeReader Unit} {ns : γ → List Members}
    (hf : ∀ x ∈ xs, ∀ h', Reaches src root h h' →
      Walking src root (f x) h' (ns x) fun _ _ => True) :
    Walking src root (xs.forM f) h (xs.flatMap ns) fun _ _ => True :=
  (forM (fun _ _ _ _ => id) hf).imp fun _ _ _ _ => trivial

/-- Repeated steps that use no nodes. -/
theorem forM_of_nil {γ : Type} {xs : List γ} {f : γ → TreeReader Unit}
    (hf : ∀ x ∈ xs, ∀ h', Reaches src root h h' →
      Walking src root (f x) h' [] fun _ _ => True) :
    Walking src root (xs.forM f) h [] fun _ _ => True := by
  have hall := forM_of_forall hf
  rwa [List.flatMap_eq_nil_iff.mpr fun _ _ => rfl] at hall

/-- Repeated steps with answers. -/
theorem mapM {γ : Type} {xs : List γ} {f : γ → TreeReader α} {ns : γ → List Members}
    {R : α → Prop}
    (hf : ∀ x ∈ xs, ∀ h', Reaches src root h h' →
      Walking src root (f x) h' (ns x) fun a _ => R a) :
    Walking src root (xs.mapM f) h (xs.flatMap ns) fun as _ => ∀ a ∈ as, R a := by
  induction xs generalizing h with
  | nil =>
    rw [List.mapM_nil]
    exact pure (by simp)
  | cons x xs ih =>
    rw [List.mapM_cons, List.flatMap_cons]
    refine bind (hf x (by simp) h (Reaches.refl h)) fun a h' hreaches ha => ?_
    have hrest := ih fun y hy h'' hlater => hf y (by simp [hy]) h'' (hreaches.trans hlater)
    rw [← List.append_nil (xs.flatMap ns)]
    refine bind hrest fun as h'' _ has => pure ?_
    simpa using ⟨ha, has⟩

end Walking

/-! ## Steps that add something -/

/-- One event that may come next, and that comes from one of the given nodes, if from any. -/
theorem Extends.single {event : TreeEvent} (hfollows : event.Follows src root h)
    (hsource : ∀ role, (event.source? role).toList.Subperm nodes) :
    Extends src root h [event] nodes := by
  refine ⟨⟨hfollows, trivial⟩, fun role => ?_⟩
  have hrole := hsource role
  cases hnode : event.source? role with
  | none =>
    rw [List.filterMap_cons_none hnode]
    exact List.nil_subperm
  | some node =>
    rw [hnode] at hrole
    rw [List.filterMap_cons_some hnode]
    exact hrole

section Adding

variable {α β : Type} {P : β → TreeHistory → Prop}

/-- A declaration by a name that has been recorded. -/
theorem reads_declare {name : Members} {decl : Declaration}
    (hfollows : DeclarationFollows src root h name decl)
    (hkind : decl.kind ≠ .package ∧ decl.kind ≠ .importName)
    (hrecorded : name.hasKind "Ident" = true → h.Records name) :
    Reads (declare decl) h fun _ added => Walked src root h added [] decl.bodyScope.toList := by
  refine Reads.ofModify (.declaration name decl) rfl ⟨?_, ?_, ?_⟩
  · refine Extends.single ⟨hfollows, hkind⟩ fun role => ?_
    cases role <;> exact List.nil_subperm
  · intro other decl' hmem hident
    obtain ⟨rfl, rfl⟩ := TreeEvent.declaration.inj (List.mem_singleton.mp hmem)
    exact (hrecorded hident).append _
  · rw [TreeHistory.bodies, List.filterMap_cons]
    cases hbody : decl.bodyScope <;> simp [TreeEvent.body?, hbody]

theorem walking_declare {name : Members} {decl : Declaration}
    (hfollows : DeclarationFollows src root h name decl)
    (hkind : decl.kind ≠ .package ∧ decl.kind ≠ .importName) (hbody : decl.bodyScope = none)
    (hrecorded : name.hasKind "Ident" = true → h.Records name) :
    Walking src root (declare decl) h [] fun _ _ => True := by
  refine (reads_declare hfollows hkind hrecorded).imp fun _ added hadded => ⟨?_, trivial⟩
  rwa [hbody] at hadded

/-- An identifier, if the value is one. -/
theorem walking_recordIdentifier {value : Json} {selector : Bool}
    (hready : Ready src root h scope value.nodes) :
    Walking src root (recordIdentifier src value selector) h value.nodes fun _ h' =>
      ∀ node, value = .obj node → Members.hasKind node "Ident" = true → selector = false →
        h'.Records node := by
  cases value with
  | obj node =>
    unfold recordIdentifier
    dsimp only
    by_cases hident : Members.hasKind node "Ident" = true
    · rw [if_pos hident]
      refine Walking.lift_bind fun span hspan => ?_
      let identifier : Identifier := ⟨Members.name node, span, selector⟩
      refine Reads.ofModify (.identifier node identifier) rfl ⟨⟨?_, ?_, ?_⟩, ?_⟩
      · refine Extends.single ⟨hready.mem_nodes List.mem_cons_self, hident, rfl, hspan⟩ ?_
        intro role
        cases role with
        | identifier => exact (List.singleton_sublist.mpr List.mem_cons_self).subperm
        | _ => exact List.nil_subperm
      · simp
      · rfl
      · rintro other hother - hselector
        rw [← Json.obj.inj hother]
        exact ⟨identifier, by simp, hselector⟩
    · rw [if_neg hident]
      refine Walking.weaken (Walking.pure ?_) List.nil_subperm
      rintro other hother hother' -
      exact absurd (Json.obj.inj hother ▸ hother') hident
  | _ =>
    refine Walking.weaken (Walking.pure fun node hvalue => ?_) List.nil_subperm
    cases hvalue

/-- A call that stands in a scope. -/
theorem walking_recordCall {node : Members} {call : CallSite}
    (hfollows : CallFollows src root h node call) :
    Walking src root (recordCall call) h [node] fun _ _ => True := by
  refine Reads.ofModify (.call node call) rfl ⟨⟨?_, ?_, ?_⟩, trivial⟩
  · refine Extends.single hfollows fun role => ?_
    cases role with
    | call => exact List.Subperm.refl _
    | _ => exact List.nil_subperm
  · simp
  · rfl

/-- A scope for a node has the next index, and the parts of the node stand in it. -/
theorem reads_openScope {node : Members} {kind : ScopeKind} {span : Span} {deepens : Bool}
    (hready : Ready src root h scope (Json.obj node).nodes) (hspan : src.span node = .ok span)
    (hkind : kind = node.scopeKind) (hdeepens : deepens = !node.isClause) :
    Reads (openScope kind span (some scope) deepens) h fun id added =>
      id = h.opened.length ∧
        (∃ opened : OpenScope, added = [.scope node opened] ∧ opened.kind = kind ∧
          opened.parent = some scope) ∧
        Walked src root h added [node] [] ∧ Ready src root (h ++ added) id node.inner := by
  let opened : OpenScope :=
    ⟨kind, span, some scope, (Draft.ofHistory h).depthIn kind (some scope) deepens⟩
  have hfollows : TreeEvent.Follows src root h (.scope node opened) :=
    .inner scope rfl (hready.holds node List.mem_cons_self) hspan hkind (by rw [← hdeepens])
  have hopened : Walked src root h [.scope node opened] [node] [] := by
    refine ⟨Extends.single hfollows fun role => ?_, by simp, rfl⟩
    cases role with
    | scope => exact List.Subperm.refl _
    | _ => exact List.nil_subperm
  have hinner : Ready src root (h ++ [.scope node opened]) h.opened.length node.inner := by
    refine ⟨continues_append.mpr ⟨hready.valid, hfollows, trivial⟩, fun below hbelow => ?_⟩
    refine ⟨node, hready.mem_nodes List.mem_cons_self, ?_, hbelow⟩
    rw [← h.length_openers, TreeHistory.openers_append]
    exact List.getElem?_concat_length
  intro id draft hrun
  obtain ⟨rfl, rfl⟩ := Prod.mk.inj (Except.ok.inj hrun)
  rw [length_scopes_ofHistory]
  exact ⟨[.scope node opened], (ofHistory_concat h (.scope node opened)).symm, rfl,
    ⟨opened, rfl, rfl, rfl⟩, hopened, hinner⟩

/-- **A scope for a node**, and what is then done with the parts of the node in it. -/
theorem Walking.inScope {node : Members} {kind : ScopeKind} {span : Span} {deepens : Bool}
    {next : Nat → TreeReader β} (hready : Ready src root h scope (Json.obj node).nodes)
    (hspan : src.span node = .ok span) (hkind : kind = node.scopeKind)
    (hdeepens : deepens = !node.isClause)
    (hnext : ∀ inner h', Reaches src root h h' → Ready src root h' inner node.inner →
      Walking src root (next inner) h' more P) :
    Walking src root (openScope kind span (some scope) deepens >>= next) h (node :: more) P := by
  refine Reads.bind (reads_openScope hready hspan hkind hdeepens) ?_
  rintro id added ⟨-, -, hadded, hinner⟩
  refine Reads.imp (hnext id _ ⟨added, rfl, hadded.continues⟩ hinner) ?_
  rintro b later ⟨hlater, hP⟩
  rw [List.append_assoc] at hP
  exact ⟨hadded.append hlater, hP⟩

/-! ## Variables that are declared before they are recorded -/

/-- Declarations by the given nodes, which are identifiers. -/
structure Defined (src : SourceText) (root : Json) (h added : TreeHistory)
    (names : List Members) : Prop extends Extends src root h added [] where
  names : ∀ name decl, TreeEvent.declaration name decl ∈ added → name ∈ names
  bodies_eq : added.bodies = []

theorem Defined.append {added later : TreeHistory} {names others : List Members}
    (hadded : Defined src root h added names)
    (hlater : Defined src root (h ++ added) later others) :
    Defined src root h (added ++ later) (names ++ others) := by
  refine ⟨hadded.toExtends.append hlater.toExtends, fun name decl hmem => ?_, ?_⟩
  · rcases List.mem_append.mp hmem with hmem | hmem
    · exact List.mem_append_left _ (hadded.names name decl hmem)
    · exact List.mem_append_right _ (hlater.names name decl hmem)
  · rw [TreeHistory.bodies_append, hadded.bodies_eq, hlater.bodies_eq]
    rfl

theorem reads_defineVariable {target : Json} (hready : Ready src root h scope target.nodes) :
    Reads (defineVariable src scope target) h fun _ added =>
      Defined src root h added target.members?.toList := by
  have hnone : Defined src root h [] target.members?.toList :=
    ⟨Extends.nil _, by simp, rfl⟩
  cases target with
  | obj node =>
    unfold defineVariable
    dsimp only
    apply Reads.get_bind
    split
    case isFalse => exact Reads.pure hnone
    case isTrue hdefines =>
      apply Reads.lift_bind
      intro span hspan
      have hfollows : DeclarationFollows src root h node
          { name := Members.name node, kind := .variableName, exported := false, scope, span,
            nameSpan := span } := by
        have hmem := hready.mem_everyNode List.mem_cons_self
        have hstated := SourceText.statesSpan_of_span hmem hspan
        refine ⟨hready.holds node List.mem_cons_self, rfl, hspan, .inl ?_, ?_, by simp, by simp⟩
        · simp only [Bool.and_eq_true] at hdefines
          exact hdefines.1.1
        · exact Declaration.forall_mem_spans.mpr
            ⟨hstated, hstated, by simp [Declaration.comments], by simp, by simp, by simp⟩
      refine Reads.ofModify (.declaration node _) ?_ ⟨Extends.single ⟨hfollows, ?_⟩ ?_, ?_, ?_⟩
      · rfl
      · simp
      · intro role
        cases role <;> exact List.nil_subperm
      · intro name decl hmem
        obtain ⟨rfl, -⟩ := TreeEvent.declaration.inj (List.mem_singleton.mp hmem)
        simp [Json.members?]
      · rfl
  | _ => exact Reads.pure hnone

theorem reads_forM_defineVariable {targets : List Json}
    (hready : ∀ target ∈ targets, Ready src root h scope target.nodes) :
    Reads (targets.forM (defineVariable src scope)) h fun _ added =>
      Defined src root h added (targets.filterMap Json.members?) := by
  induction targets generalizing h with
  | nil => exact Reads.pure ⟨Extends.nil _, by simp, rfl⟩
  | cons target targets ih =>
    refine Reads.bind (reads_defineVariable (hready target (by simp))) fun _ added hadded => ?_
    have hreaches : Reaches src root h (h ++ added) := ⟨added, rfl, hadded.continues⟩
    refine Reads.imp (ih fun other hother => (hready other (by simp [hother])).mono hreaches)
      fun _ later hlater => ?_
    have hnames : (target :: targets).filterMap Json.members? =
        target.members?.toList ++ targets.filterMap Json.members? := by
      rw [List.filterMap_cons]
      cases target.members? <;> rfl
    rw [hnames]
    exact hadded.append hlater

/-- **Variables are declared before their names are recorded.**  What follows their declaration has
to record them. -/
theorem Walking.defining {define : TreeReader Unit} {next : TreeReader β} {names : List Members}
    (hdefine : Reads define h fun _ added => Defined src root h added names)
    (hnext : ∀ h', Reaches src root h h' → Walking src root next h' nodes fun b h'' =>
      (∀ name ∈ names, name.hasKind "Ident" = true → h''.Records name) ∧ P b h'') :
    Walking src root (define >>= fun _ => next) h nodes P := by
  refine Reads.bind hdefine fun _ added hadded => ?_
  refine Reads.imp (hnext (h ++ added) ⟨added, rfl, hadded.continues⟩)
    fun b later ⟨hlater, hrecorded, hP⟩ => ?_
  rw [List.append_assoc] at hrecorded hP
  refine ⟨⟨?_, fun name decl hmem hident => ?_, ?_⟩, hP⟩
  · exact hadded.toExtends.append hlater.toExtends
  · rcases List.mem_append.mp hmem with hmem | hmem
    · exact hrecorded name (hadded.names name decl hmem) hident
    · rw [← List.append_assoc]
      exact hlater.named name decl hmem hident
  · rw [TreeHistory.bodies_append, hadded.bodies_eq, hlater.bodies_eq]
    rfl

end Adding

end GoConventions
