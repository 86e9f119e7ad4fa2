import GoConventions.Proofs.Tree.Initialisers
import GoConventions.Proofs.Tree.Specified

/-!
# Steps that link initialisers

A step of the reader *links* a specification of values when, if it comes to this, it declares its
names with their initialisers.  What is to be known of the rest is little: the calls that a step
records are those of call expressions in the values that it walks, and nothing is taken back.

Steps that link are chained and repeated: if one of them comes to the specification, all of them
together have linked it.

## Main definitions

* `Links`: what is added to a draft links a specification.
* `Linking`: a step whose additions do.

## Main results

* `Linking.bind`, `Linking.forM`, `Linking.mapM`: chained and repeated steps.
-/

namespace GoConventions

/-- The calls that are added come from call expressions among some nodes, and if a specification has
been read, the declarations that are added have its initialisers. -/
structure Links (src : SourceText) (nodes : List Members) (spec : Members) (specified : Prop)
    (calls : List CallSite) (decls : List Declaration) : Prop where
  calls_from : ∀ call ∈ calls, call.annotation = none ∧
    ∃ node ∈ nodes, node.hasKind "CallExpr" = true ∧ src.span node = .ok call.span
  initialises : specified → src.SeparatesValues spec → src.Initialises spec calls decls

/-- A step of the reader that links a specification, if it comes to it. -/
def Linking {α : Type} (src : SourceText) (nodes : List Members) (spec : Members)
    (step : TreeReader α) (specified : Prop) : Prop :=
  ∀ draft a later, step.run draft = .ok (a, later) → ∃ calls decls,
    later.calls = draft.calls ++ calls ∧ later.declarations = draft.declarations ++ decls ∧
      Links src nodes spec specified calls decls

variable {src : SourceText} {nodes more : List Members} {spec : Members} {specified others : Prop}
  {calls laterCalls : List CallSite} {decls laterDecls : List Declaration}

namespace Links

theorem of_not (hcalls : ∀ call ∈ calls, call.annotation = none ∧
    ∃ node ∈ nodes, node.hasKind "CallExpr" = true ∧ src.span node = .ok call.span) :
    Links src nodes spec False calls decls :=
  ⟨hcalls, False.elim⟩

theorem append (h : Links src nodes spec specified calls decls)
    (hlater : Links src nodes spec others laterCalls laterDecls) :
    Links src nodes spec (specified ∨ others) (calls ++ laterCalls) (decls ++ laterDecls) := by
  constructor
  · intro call hcall
    rcases List.mem_append.mp hcall with hcall | hcall
    · exact h.calls_from call hcall
    · exact hlater.calls_from call hcall
  · rintro (hspecified | hspecified) hseparates
    · exact (h.initialises hspecified hseparates).subset (List.subset_append_left _ _)
        (List.prefix_append _ _).isInfix
    · exact (hlater.initialises hspecified hseparates).subset (List.subset_append_right _ _)
        (List.suffix_append _ _).isInfix

theorem weaken (h : Links src nodes spec specified calls decls) (hnodes : nodes ⊆ more)
    (himp : others → specified) : Links src more spec others calls decls := by
  refine ⟨fun call hcall => ?_, fun hothers => h.initialises (himp hothers)⟩
  obtain ⟨hbare, node, hnode, hkind, hspan⟩ := h.calls_from call hcall
  exact ⟨hbare, node, hnodes hnode, hkind, hspan⟩

end Links

namespace Linking

variable {α β γ : Type} {step : TreeReader α} {next : α → TreeReader β}

theorem weaken (h : Linking src nodes spec step specified) (hnodes : nodes ⊆ more)
    (himp : others → specified) : Linking src more spec step others := by
  intro draft a later hrun
  obtain ⟨calls, decls, hcalls, hdecls, hlinks⟩ := h draft a later hrun
  exact ⟨calls, decls, hcalls, hdecls, hlinks.weaken hnodes himp⟩

/-- A step links a specification if it does so whenever this is read. -/
theorem imp (h : Linking src nodes spec step specified) (himp : others → specified) :
    Linking src nodes spec step others :=
  h.weaken (List.Subset.refl _) himp

/-- A step that adds neither calls nor declarations. -/
theorem ofSame (hstep : ∀ draft a later, step.run draft = .ok (a, later) →
    later.calls = draft.calls ∧ later.declarations = draft.declarations) :
    Linking src nodes spec step False := by
  intro draft a later hrun
  obtain ⟨hcalls, hdecls⟩ := hstep draft a later hrun
  exact ⟨[], [], by rw [hcalls, List.append_nil], by rw [hdecls, List.append_nil],
    .of_not fun _ hcall => nomatch hcall⟩

theorem pure (a : α) : Linking src nodes spec (Pure.pure a : TreeReader α) False := by
  refine ofSame fun draft b later h => ?_
  obtain ⟨-, rfl⟩ := Prod.mk.inj (Except.ok.inj h)
  exact ⟨rfl, rfl⟩

theorem lift (result : TreeResult α) :
    Linking src nodes spec (liftM result : TreeReader α) False := by
  refine ofSame fun draft a later h => ?_
  rw [(run_lift_eq_ok.mp h).2]
  exact ⟨rfl, rfl⟩

theorem bind (hstep : Linking src nodes spec step specified)
    (hnext : ∀ a, Linking src nodes spec (next a) others) :
    Linking src nodes spec (step >>= next) (specified ∨ others) := by
  intro draft b later h
  obtain ⟨a, middle, hfirst, hrest⟩ := run_bind_eq_ok.mp h
  obtain ⟨calls, decls, hcalls, hdecls, hlinks⟩ := hstep draft a middle hfirst
  obtain ⟨laterCalls, laterDecls, hlaterCalls, hlaterDecls, hlater⟩ :=
    hnext a middle b later hrest
  refine ⟨calls ++ laterCalls, decls ++ laterDecls, ?_, ?_, hlinks.append hlater⟩
  · rw [hlaterCalls, hcalls, List.append_assoc]
  · rw [hlaterDecls, hdecls, List.append_assoc]

/-- A step that does not come to the specification, and what follows it. -/
theorem silent_bind (hstep : Linking src nodes spec step False)
    (hnext : ∀ a, Linking src nodes spec (next a) specified) :
    Linking src nodes spec (step >>= next) specified :=
  (hstep.bind hnext).imp Or.inr

/-- A step, and what follows it without coming to the specification. -/
theorem bind_silent (hstep : Linking src nodes spec step specified)
    (hnext : ∀ a, Linking src nodes spec (next a) False) :
    Linking src nodes spec (step >>= next) specified :=
  (hstep.bind hnext).imp Or.inl

/-- A step, and an answer that is made of its answer. -/
theorem map {f : α → β} (hstep : Linking src nodes spec step specified) :
    Linking src nodes spec (step >>= fun a => Pure.pure (f a)) specified :=
  hstep.bind_silent fun a => pure (f a)

/-- A look at the tree, and what follows it. -/
theorem lift_bind {result : TreeResult α}
    (hnext : ∀ a, result = .ok a → Linking src nodes spec (next a) specified) :
    Linking src nodes spec (liftM result >>= next) specified := by
  intro draft b later h
  obtain ⟨a, ha, hrest⟩ := run_lift_bind_eq_ok.mp h
  exact hnext a ha draft b later hrest

/-- A look at the draft, and what follows it. -/
theorem get_bind {next : Draft → TreeReader β}
    (hnext : ∀ draft, Linking src nodes spec (next draft) specified) :
    Linking src nodes spec (MonadState.get >>= next) specified := by
  intro draft b later h
  obtain ⟨found, middle, hget, hrest⟩ := run_bind_eq_ok.mp h
  obtain ⟨rfl, rfl⟩ := Prod.mk.inj (Except.ok.inj hget)
  exact hnext _ _ b later hrest

theorem forM {xs : List γ} {f : γ → TreeReader Unit} {read : γ → Prop}
    (hf : ∀ x ∈ xs, Linking src nodes spec (f x) (read x)) :
    Linking src nodes spec (xs.forM f) (∃ x ∈ xs, read x) := by
  induction xs with
  | nil => exact (pure PUnit.unit).imp fun ⟨_, hmem, _⟩ => nomatch hmem
  | cons x xs ih =>
    refine ((hf x List.mem_cons_self).bind fun _ =>
      ih fun y hy => hf y (List.mem_cons_of_mem x hy)).imp ?_
    rintro ⟨y, hy, hread⟩
    rcases List.mem_cons.mp hy with rfl | hy
    · exact Or.inl hread
    · exact Or.inr ⟨y, hy, hread⟩

theorem mapM {xs : List γ} {f : γ → TreeReader α} {read : γ → Prop}
    (hf : ∀ x ∈ xs, Linking src nodes spec (f x) (read x)) :
    Linking src nodes spec (xs.mapM f) (∃ x ∈ xs, read x) := by
  induction xs with
  | nil =>
    rw [List.mapM_nil]
    exact (pure []).imp fun ⟨_, hmem, _⟩ => nomatch hmem
  | cons x xs ih =>
    rw [List.mapM_cons]
    refine ((hf x List.mem_cons_self).bind fun y =>
      (ih fun y hy => hf y (List.mem_cons_of_mem x hy)).map).imp ?_
    rintro ⟨y, hy, hread⟩
    rcases List.mem_cons.mp hy with rfl | hy
    · exact Or.inl hread
    · exact Or.inr ⟨y, hy, hread⟩

/-- A loop over steps that do not come to the specification. -/
theorem forM_silent {xs : List γ} {f : γ → TreeReader Unit}
    (hf : ∀ x ∈ xs, Linking src nodes spec (f x) False) :
    Linking src nodes spec (xs.forM f) False :=
  (forM hf).imp False.elim

theorem mapM_silent {xs : List γ} {f : γ → TreeReader α}
    (hf : ∀ x ∈ xs, Linking src nodes spec (f x) False) :
    Linking src nodes spec (xs.mapM f) False :=
  (mapM hf).imp False.elim

end Linking

/-! ## Steps that come to no specification -/

section Silent

variable {scope : Nat}

theorem linking_recordIdentifier (value : Json) (selector : Bool) :
    Linking src nodes spec (recordIdentifier src value selector) False :=
  .ofSame fun _ _ _ h => run_recordIdentifier h

theorem linking_openScope (kind : ScopeKind) (span : Span) (parent : Option Nat)
    (deepens : Bool) : Linking src nodes spec (openScope kind span parent deepens) False := by
  refine .ofSame fun draft a later h => ?_
  obtain ⟨-, rfl⟩ := Prod.mk.inj (Except.ok.inj h)
  exact ⟨rfl, rfl⟩

theorem linking_recordImport (decl : ImportDecl) :
    Linking src nodes spec (recordImport decl) False := by
  refine .ofSame fun draft a later h => ?_
  obtain ⟨-, rfl⟩ := Prod.mk.inj (Except.ok.inj h)
  exact ⟨rfl, rfl⟩

theorem linking_declare (decl : Declaration) :
    Linking src nodes spec (declare decl) False := by
  intro draft a later h
  obtain ⟨-, rfl⟩ := Prod.mk.inj (Except.ok.inj h)
  exact ⟨[], [decl], (List.append_nil _).symm, rfl, .of_not fun _ hcall => nomatch hcall⟩

/-- A call is recorded from its node. -/
theorem linking_recordCall {call : CallSite} {node : Members} (hnode : node ∈ nodes)
    (hkind : node.hasKind "CallExpr" = true) (hspan : src.span node = .ok call.span)
    (hbare : call.annotation = none) : Linking src nodes spec (recordCall call) False := by
  intro draft a later h
  obtain ⟨-, rfl⟩ := Prod.mk.inj (Except.ok.inj h)
  refine ⟨[call], [], rfl, (List.append_nil _).symm, .of_not fun found hfound => ?_⟩
  obtain rfl := List.mem_singleton.mp hfound
  exact ⟨hbare, node, hnode, hkind, hspan⟩

theorem linking_defineVariable (target : Json) :
    Linking src nodes spec (defineVariable src scope target) False := by
  unfold defineVariable
  split
  · refine .get_bind fun draft => ?_
    split
    · exact .lift_bind fun span _ => linking_declare _
    · exact .pure _
  · exact .pure _

theorem linking_declareParameter (typeText : String) (name : Members) :
    Linking src nodes spec (declareParameter src typeText scope name) False := by
  unfold declareParameter
  refine .lift_bind fun span _ => (linking_recordIdentifier _ _).silent_bind fun _ => ?_
  split
  · exact (linking_declare _).map
  · exact .pure _

theorem linking_receiver? (fieldList : Json) :
    Linking src nodes spec (receiver? src fieldList) False := by
  unfold receiver?
  refine .lift_bind fun fields _ => ?_
  split
  · exact .pure _
  · refine .lift_bind fun names _ => .lift_bind fun typeNode _ => ?_
    refine Linking.silent_bind ?_ fun typeName => ?_
    · unfold receiverTypeName
      split
      · split
        · exact (linking_recordIdentifier _ _).map
        · exact .lift _
      · exact .lift _
    · refine (Linking.forM_silent fun name _ =>
        linking_recordIdentifier _ _).silent_bind fun _ => ?_
      exact .lift_bind fun span _ => .pure _

end Silent

end GoConventions
