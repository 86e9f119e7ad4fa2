import GoConventions.Proofs.Tree.Walk
import GoConventions.Tree.File

/-!
# The growth of a draft

A step of the reader only adds to its draft, and what it adds can be described without a word about
the draft before it: a relation between drafts that is kept by each single addition is kept by every
step (`Growth.keeps_walkTree`).  So what is to be known of the additions of one kind is said as such
a relation, and the walk is gone through once for all of them.

A step keeps a relation whatever walk it is given for the parts of a node, as long as that does.
There is one lemma for each function of the reader, and the levels of the walk are tied together as
the walk itself ties them.

## Main definitions

* `Growth`: a relation between drafts that additions keep.
* `Growth.Keeps`: a step whose additions keep it.

## Main results

* `Growth.keeps_walkTree`: a walk keeps every growth.
* `Growth.keeps_walkValueSpec`: so does a specification of values, as far as its own declarations
  do.
-/

namespace GoConventions

/-! ## Runs of a reader -/

section Runs

variable {α β : Type} {draft later : Draft}

theorem run_bind_eq_ok {step : TreeReader α} {next : α → TreeReader β} {b : β} :
    (step >>= next).run draft = .ok (b, later) ↔
      ∃ a middle, step.run draft = .ok (a, middle) ∧ (next a).run middle = .ok (b, later) := by
  rw [StateT.run_bind, bind_eq_ok, Prod.exists]

theorem run_lift_eq_ok {result : TreeResult α} {a : α} :
    (liftM result : TreeReader α).run draft = .ok (a, later) ↔ result = .ok a ∧ later = draft := by
  cases result with
  | error fault => exact iff_of_false nofun nofun
  | ok b =>
    constructor
    · intro h
      obtain ⟨rfl, rfl⟩ := Prod.mk.inj (Except.ok.inj h)
      exact ⟨rfl, rfl⟩
    · rintro ⟨h, rfl⟩
      obtain rfl := Except.ok.inj h
      rfl

/-- A look at the tree, and what follows it. -/
theorem run_lift_bind_eq_ok {result : TreeResult α} {next : α → TreeReader β} {b : β} :
    (liftM result >>= next).run draft = .ok (b, later) ↔
      ∃ a, result = .ok a ∧ (next a).run draft = .ok (b, later) := by
  simp only [run_bind_eq_ok, run_lift_eq_ok, and_assoc, exists_and_left, exists_eq_left]

/-- What is read off each element of a list. -/
theorem run_mapM_lift {f : α → TreeResult β} {xs : List α} {ys : List β}
    (h : (xs.mapM fun x => (f x : TreeReader β)).run draft = .ok (ys, later)) :
    List.Forall₂ (fun x y => f x = .ok y) xs ys := by
  induction xs generalizing ys with
  | nil =>
    rw [List.mapM_nil] at h
    obtain ⟨rfl, -⟩ := Prod.mk.inj (Except.ok.inj h)
    exact .nil
  | cons x xs ih =>
    rw [List.mapM_cons, run_lift_bind_eq_ok] at h
    obtain ⟨y, hfirst, h⟩ := h
    obtain ⟨rest, last, hrest, hdone⟩ := run_bind_eq_ok.mp h
    obtain ⟨rfl, rfl⟩ := Prod.mk.inj (Except.ok.inj hdone)
    exact .cons hfirst (ih hrest)

end Runs

/-! ## Where declarations are anchored -/

/-- A span starts where a node is anchored, or at a node below it. -/
def SourceText.StartsFrom (src : SourceText) (node : Members) (anchor span : Span) : Prop :=
  span.start = anchor.start ∨
    ∃ name ∈ node.inner, ∃ inner, src.span name = .ok inner ∧ span.start = inner.start

/-- A node is the anchor of a declaration: this starts from it, and the comment that is detached
from the declaration is the one that is detached from the line of the node. -/
def CommentedText.Anchors (src : CommentedText) (anchor : Members) (decl : Declaration) : Prop :=
  ∃ span group, src.span anchor = .ok span ∧
    decl.detachedDoc = (docsAt src span.start.line group).detached ∧
    src.StartsFrom anchor span decl.span

/-- The nodes that may be anchors of what a declaration declares: itself and its specifications. -/
def Members.anchors (decl : Members) : List Members :=
  decl :: (nodesIn (decl.get "specs")).toOption.getD []

/-! ## Steps that keep a growth -/

/-- A relation between a draft and a later one that is kept when a scope, an identifier or a call is
added, or one of the declarations in `Declares`; among these are all that have no detached comment,
as those of parameters and of statements. -/
structure Growth where
  Grows : Draft → Draft → Prop
  Declares : Declaration → Prop
  refl : ∀ draft, Grows draft draft
  trans : ∀ {draft middle later}, Grows draft middle → Grows middle later → Grows draft later
  scope : ∀ (draft : Draft) opened, Grows draft (draft.withScope opened)
  identifier : ∀ (draft : Draft) found,
    Grows draft { draft with identifiers := draft.identifiers ++ [found] }
  call : ∀ (draft : Draft) found, Grows draft { draft with calls := draft.calls ++ [found] }
  declaration : ∀ (draft : Draft) decl, Declares decl → Grows draft (draft.withDeclaration decl)
  undetached : ∀ decl : Declaration, decl.detachedDoc = none → Declares decl

namespace Growth

variable {G : Growth}

/-- A step of the reader whose additions keep a growth. -/
def Keeps {α : Type} (G : Growth) (step : TreeReader α) : Prop :=
  ∀ draft a later, step.run draft = .ok (a, later) → G.Grows draft later

namespace Keeps

variable {α β γ : Type} {step : TreeReader α} {next : α → TreeReader β}

theorem pure (a : α) : G.Keeps (Pure.pure a : TreeReader α) := by
  intro draft b later h
  obtain ⟨-, rfl⟩ := Prod.mk.inj (Except.ok.inj h)
  exact G.refl draft

theorem lift (result : TreeResult α) : G.Keeps (liftM result : TreeReader α) := by
  intro draft a later h
  rw [(run_lift_eq_ok.mp h).2]
  exact G.refl draft

theorem get : G.Keeps (MonadState.get : TreeReader Draft) := by
  intro draft a later h
  obtain ⟨-, rfl⟩ := Prod.mk.inj (Except.ok.inj h)
  exact G.refl draft

theorem ofModify {change : Draft → Draft} (hchange : ∀ draft, G.Grows draft (change draft)) :
    G.Keeps (modify change : TreeReader PUnit) := by
  intro draft a later h
  obtain ⟨-, rfl⟩ := Prod.mk.inj (Except.ok.inj h)
  exact hchange draft

theorem bind (hstep : G.Keeps step) (hnext : ∀ a, G.Keeps (next a)) :
    G.Keeps (step >>= next) := by
  intro draft b later h
  obtain ⟨a, middle, hfirst, hrest⟩ := run_bind_eq_ok.mp h
  exact G.trans (hstep draft a middle hfirst) (hnext a middle b later hrest)

/-- What is found in the tree, and what follows it. -/
theorem found_bind {result : TreeResult α} (hnext : ∀ a, result = .ok a → G.Keeps (next a)) :
    G.Keeps (liftM result >>= next) := by
  intro draft b later h
  obtain ⟨a, ha, hrest⟩ := run_lift_bind_eq_ok.mp h
  exact hnext a ha draft b later hrest

/-- A look at the tree, and what follows it. -/
theorem lift_bind {result : TreeResult α} (hnext : ∀ a, G.Keeps (next a)) :
    G.Keeps (liftM result >>= next) :=
  found_bind fun a _ => hnext a

theorem forM {xs : List γ} {f : γ → TreeReader Unit} (hf : ∀ x ∈ xs, G.Keeps (f x)) :
    G.Keeps (xs.forM f) := by
  induction xs with
  | nil => exact pure PUnit.unit
  | cons x xs ih =>
    exact (hf x List.mem_cons_self).bind fun _ =>
      ih fun y hy => hf y (List.mem_cons_of_mem x hy)

theorem mapM {xs : List γ} {f : γ → TreeReader α} (hf : ∀ x ∈ xs, G.Keeps (f x)) :
    G.Keeps (xs.mapM f) := by
  induction xs with
  | nil =>
    rw [List.mapM_nil]
    exact pure []
  | cons x xs ih =>
    rw [List.mapM_cons]
    refine (hf x List.mem_cons_self).bind fun _ => bind (ih ?_) fun _ => pure _
    exact fun y hy => hf y (List.mem_cons_of_mem x hy)

end Keeps

/-! ## Signatures and names -/

theorem keeps_declare {decl : Declaration} (hdecl : G.Declares decl) : G.Keeps (declare decl) :=
  .ofModify fun draft => G.declaration draft decl hdecl

theorem keeps_recordCall (call : CallSite) : G.Keeps (recordCall call) :=
  .ofModify fun draft => G.call draft call

theorem keeps_openScope (kind : ScopeKind) (span : Span) (parent : Option Nat)
    (deepens : Bool) : G.Keeps (openScope kind span parent deepens) := by
  intro draft id later h
  obtain ⟨-, rfl⟩ := Prod.mk.inj (Except.ok.inj h)
  exact G.scope draft _

section Walk

variable {src : SourceText} {walk : TreeWalk} {scope : Nat} {context : CallContext}

theorem keeps_recordIdentifier (value : Json) (selector : Bool) :
    G.Keeps (recordIdentifier src value selector) := by
  unfold recordIdentifier
  split
  · dsimp only
    split
    · exact .lift_bind fun span => .ofModify fun draft => G.identifier draft _
    · exact .pure _
  · exact .pure _

theorem keeps_defineVariable (target : Json) :
    G.Keeps (defineVariable src scope target) := by
  unfold defineVariable
  split
  · refine Keeps.get.bind fun draft => ?_
    split
    · exact .lift_bind fun span => keeps_declare (G.undetached _ rfl)
    · exact .pure _
  · exact .pure _

theorem keeps_declareParameter (typeText : String) (name : Members) :
    G.Keeps (declareParameter src typeText scope name) := by
  unfold declareParameter
  refine .lift_bind fun span => (keeps_recordIdentifier _ _).bind fun _ => ?_
  split
  · exact (keeps_declare (G.undetached _ rfl)).bind fun _ => .pure _
  · exact .pure _

/-- A value is declared with the comments of its specification, and starts where this does or at a
name in it. -/
theorem keeps_declareValue {spec : Members} {kind : DeclKind} {anchor : Span} {docs : DocComments}
    (hdeclares : ∀ decl : Declaration, decl.detachedDoc = docs.detached →
      src.StartsFrom spec anchor decl.span → G.Declares decl)
    (calls : List CallSite) (index : Nat) {name : Members} (hname : name ∈ spec.inner)
    (value : Option Members) :
    G.Keeps (declareValue src kind scope anchor docs calls index name value) := by
  have hdeclared : ∀ initCall, G.Keeps (do
      let nameSpan ← src.span name
      declare {
        name := name.name, kind, exported := scope == 0 && isExported name.name, scope
        span := if index = 0 then anchor else ⟨nameSpan.start, anchor.stop⟩
        nameSpan, doc := docs.doc, detachedDoc := docs.detached, groupDoc := docs.group
        initCall }) := by
    refine fun initCall => .found_bind fun nameSpan hspan => keeps_declare (hdeclares _ rfl ?_)
    dsimp only
    split
    · exact .inl rfl
    · exact .inr ⟨name, hname, nameSpan, hspan, rfl⟩
  unfold declareValue
  refine (keeps_recordIdentifier _ _).bind fun _ => ?_
  split
  · cases value with
    | some value => exact .lift_bind hdeclared
    | none => exact (Keeps.pure _).bind hdeclared
  · exact .pure _

theorem keeps_receiver? (fieldList : Json) : G.Keeps (receiver? src fieldList) := by
  unfold receiver?
  refine .lift_bind fun fields => ?_
  split
  · exact .pure _
  · refine .lift_bind fun names => .lift_bind fun typeNode => ?_
    refine Keeps.bind ?_ fun typeName => ?_
    · unfold receiverTypeName
      split
      · split
        · exact (keeps_recordIdentifier _ _).bind fun _ => .pure _
        · exact .lift _
      · exact .lift _
    · refine (Keeps.forM fun name _ => keeps_recordIdentifier _ _).bind fun _ => ?_
      exact .lift_bind fun span => .pure _

/-! ## The walk of statements and expressions -/

section Parts

variable (hwalk : ∀ value scope context, G.Keeps (walk value scope context))

include hwalk

theorem keeps_declareParameters (fieldList : Json) :
    G.Keeps (declareParameters src walk fieldList scope) := by
  unfold declareParameters
  refine .lift_bind fun fields => (Keeps.mapM fun field _ => ?_).bind fun _ => .pure _
  unfold parametersOfField
  refine .lift_bind fun typeText => (hwalk _ _ _).bind fun _ => .lift_bind fun names => ?_
  split
  · exact .lift_bind fun span => .pure _
  · exact .mapM fun name _ => keeps_declareParameter _ _

theorem keeps_resultTypes (fieldList : Json) :
    G.Keeps (resultTypes src walk fieldList scope) := by
  unfold resultTypes
  refine .lift_bind fun fields => (Keeps.mapM fun field _ => ?_).bind fun _ => .pure _
  unfold resultsOfField
  refine .lift_bind fun typeText => (hwalk _ _ _).bind fun _ => .lift_bind fun names => ?_
  exact (Keeps.forM fun name _ => keeps_recordIdentifier _ _).bind fun _ => .pure _

theorem keeps_walkBlock (block : Members) :
    G.Keeps (walkBlock src walk block scope) :=
  .lift_bind fun _ => .lift_bind fun _ => .forM fun _ _ => hwalk _ _ _

theorem keeps_walkBody (body : Json) : G.Keeps (walkBody src walk body scope) := by
  unfold walkBody
  split
  · exact keeps_walkBlock hwalk _
  · exact .pure _

theorem keeps_walkCall (node : Members) (targets : List Members) :
    G.Keeps (walkCall src walk node scope context targets) := by
  unfold walkCall
  refine (hwalk _ _ _).bind fun _ => .lift_bind fun args => ?_
  refine (Keeps.mapM fun arg _ => ?_).bind fun args => ?_
  · exact .lift_bind fun argument => (hwalk _ _ _).bind fun _ => .pure _
  · refine .lift_bind fun callee => .lift_bind fun span => ?_
    refine (Keeps.mapM fun target _ => .lift _).bind fun names => ?_
    exact (Keeps.mapM fun target _ => .lift _).bind fun spans => keeps_recordCall _

/-- A value is walked as a call or as any other expression. -/
theorem keeps_walkValue (value : Members) (targets : List Members) :
    G.Keeps (if value.hasKind "CallExpr" then walkCall src walk value scope context targets
      else walk (.obj value) scope .other) := by
  split
  · exact keeps_walkCall hwalk value targets
  · exact hwalk _ _ _

theorem keeps_walkAssigned (targets values : List Members) :
    G.Keeps (walkAssigned src walk scope context targets values) := by
  unfold walkAssigned
  split
  · exact keeps_walkValue hwalk _ _
  · split
    · exact .forM fun pair _ => keeps_walkValue hwalk _ _
    · exact .forM fun value _ => hwalk _ _ _

theorem keeps_walkAssignment (node : Members) :
    G.Keeps (walkAssignment src walk node scope) := by
  unfold walkAssignment
  refine .lift_bind fun targets => .lift_bind fun values => ?_
  dsimp only
  cases (node.get "tok").isText ":=" with
  | true =>
    refine (Keeps.forM fun target _ => keeps_defineVariable _).bind fun _ => ?_
    refine (Keeps.forM fun target _ => hwalk _ _ _).bind fun _ => ?_
    exact keeps_walkAssigned hwalk _ _
  | false =>
    refine (Keeps.forM fun target _ => hwalk _ _ _).bind fun _ => ?_
    exact keeps_walkAssigned hwalk _ _

/-- **A specification of values keeps a growth**, as far as its own declarations do. -/
theorem keeps_walkValueSpec {spec : Members} {token : Json} {anchor : Span} {docs : DocComments}
    (hdeclares : ∀ decl : Declaration, decl.detachedDoc = docs.detached →
      src.StartsFrom spec anchor decl.span → G.Declares decl) :
    G.Keeps (walkValueSpec src walk spec token scope anchor docs) := by
  unfold walkValueSpec
  refine .found_bind fun names hnames => .lift_bind fun values => (hwalk _ _ _).bind fun _ => ?_
  refine Keeps.get.bind fun before => ?_
  refine (Keeps.forM fun value _ => hwalk _ _ _).bind fun _ => ?_
  -- The calls in between are looked up in the two drafts, which does not change them.
  refine Keeps.get.bind fun after => .forM fun entry hentry => ?_
  obtain ⟨name, index⟩ := entry
  have hname : name ∈ names := List.fst_mem_of_mem_zipIdx hentry
  exact keeps_declareValue hdeclares _ _
    (nodes_subset_inner (by decide) hnames hname List.mem_cons_self) _

theorem keeps_walkDeclaration (node : Members) :
    G.Keeps (walkDeclaration src walk node scope) := by
  unfold walkDeclaration
  refine .lift_bind fun decl => .lift_bind fun specs => .forM fun spec _ => ?_
  split
  · exact .lift_bind fun span =>
      keeps_walkValueSpec hwalk fun decl hdetached _ => G.undetached decl hdetached
  · exact hwalk _ _ _

theorem keeps_walkFunctionLiteral (node : Members) (span : Span) :
    G.Keeps (walkFunctionLiteral src walk node span scope) :=
  (keeps_openScope _ _ _ _).bind fun _ => .lift_bind fun _ =>
    (keeps_declareParameters hwalk _).bind fun _ =>
      (keeps_resultTypes hwalk _).bind fun _ => keeps_walkBody hwalk _

theorem keeps_walkConditional (node : Members) (span : Span) :
    G.Keeps (walkConditional src walk node span scope) := by
  unfold walkConditional
  refine (keeps_openScope _ _ _ _).bind fun inner => (hwalk _ _ _).bind fun _ => ?_
  refine (hwalk _ _ _).bind fun _ => (keeps_walkBody hwalk _).bind fun _ => ?_
  split
  · dsimp only
    split
    · exact hwalk _ _ _
    · split
      · exact .lift_bind fun span => (keeps_openScope _ _ _ _).bind fun _ =>
          keeps_walkBlock hwalk _
      · exact .pure _
  · exact .pure _

theorem keeps_walkScoped (node : Members) :
    G.Keeps (walkScoped src walk node scope) := by
  refine .forM fun part _ => ?_
  dsimp only
  split
  · exact keeps_walkBlock hwalk _
  · exact hwalk _ _ _

/-- **A node of any kind keeps a growth**, as far as the walk of its parts does. -/
theorem keeps_walkNode (node : Members) :
    G.Keeps (walkNode src walk node scope context) := by
  unfold walkNode
  refine .lift_bind fun span => .lift_bind fun kind => ?_
  have hopened : ∀ {next : Nat → TreeReader Unit} (deepens : Bool),
      (∀ inner, G.Keeps (next inner)) →
        G.Keeps (openScope .block span (some scope) deepens >>= next) :=
    fun deepens hnext => (keeps_openScope _ _ _ _).bind hnext
  cases kind with
  | identifier => exact keeps_recordIdentifier _ _
  | selector => exact (hwalk _ _ _).bind fun _ => keeps_recordIdentifier _ _
  | call => exact keeps_walkCall hwalk _ _
  | block => exact hopened true fun _ => keeps_walkBlock hwalk _
  | functionLiteral => exact keeps_walkFunctionLiteral hwalk _ _
  | conditional => exact keeps_walkConditional hwalk _ _
  | rangeLoop =>
    refine hopened true fun inner => ?_
    dsimp only
    split
    · exact (Keeps.forM fun _ _ => keeps_defineVariable _).bind fun _ =>
        keeps_walkScoped hwalk _
    · exact keeps_walkScoped hwalk _
  | «scoped» => exact hopened true fun _ => keeps_walkScoped hwalk _
  | clause =>
    exact hopened false fun _ => (hwalk _ _ _).bind fun _ => (hwalk _ _ _).bind fun _ =>
      hwalk _ _ _
  | assignment => exact keeps_walkAssignment hwalk _
  | declaration => exact keeps_walkDeclaration hwalk _
  | plain context => exact .forM fun _ _ => hwalk _ _ _
  | other => exact .forM fun _ _ => hwalk _ _ _

theorem keeps_walkStep (value : Json) :
    G.Keeps (walkStep src walk value scope context) := by
  unfold walkStep
  split
  · exact .forM fun _ _ => hwalk _ _ _
  · split
    · exact .pure _
    · exact keeps_walkNode hwalk _
  · exact .pure _

end Parts

/-- **A walk keeps a growth**, over however many levels. -/
theorem keeps_walkWithin (levels : Nat) : ∀ value scope context,
    G.Keeps (walkWithin src levels value scope context) := by
  induction levels with
  | zero => exact fun _ _ _ => .pure _
  | succ levels ih => exact fun value _ _ => keeps_walkStep ih value

theorem keeps_walkTree (value : Json) (scope : Nat) (context : CallContext) :
    G.Keeps (walkTree src value scope context) :=
  keeps_walkWithin value.height value scope context

end Walk

/-! ## Declarations of a file -/

section Files

variable {src : CommentedText} {root : Nat} {decl : Members}

theorem keeps_readGeneral (hdeclares : ∀ anchor ∈ decl.anchors, ∀ declared,
    src.Anchors anchor declared → G.Declares declared) : G.Keeps (readGeneral src decl root) := by
  unfold readGeneral
  refine .found_bind fun span hspan => .found_bind fun specs hspecs => .lift_bind fun grouped => ?_
  refine .forM fun spec hspec => .found_bind fun specSpan hspecSpan => ?_
  have hlisted : spec ∈ decl.anchors := by
    rw [Members.anchors, hspecs]
    exact List.mem_cons_of_mem _ hspec
  have hread : ∀ anchor group, (∀ declared : Declaration,
      declared.detachedDoc = (docsAt src anchor.start.line group).detached →
        src.StartsFrom spec anchor declared.span → G.Declares declared) →
      G.Keeps (if (decl.get "tok").isText "type" then
          readTypeSpec src spec root anchor (docsAt src anchor.start.line group)
        else walkValueSpec src.toSourceText (walkTree src.toSourceText) spec (decl.get "tok") root
          anchor (docsAt src anchor.start.line group)) := by
    intro anchor group hdeclared
    split
    · -- A type is declared at its anchor.
      unfold readTypeSpec
      refine (keeps_recordIdentifier _ _).bind fun _ => (keeps_walkTree _ _ _).bind fun _ => ?_
      refine .lift_bind fun name => .lift_bind fun nameSpan => keeps_declare ?_
      exact hdeclared _ rfl (.inl rfl)
    · exact keeps_walkValueSpec keeps_walkTree hdeclared
  -- In parentheses each specification is an anchor of its own, else the declaration is.
  cases grouped with
  | true =>
    exact hread specSpan _ fun declared hdetached hstarts =>
      hdeclares spec hlisted declared ⟨specSpan, _, hspecSpan, hdetached, hstarts⟩
  | false =>
    refine hread span _ fun declared hdetached hstarts =>
      hdeclares decl List.mem_cons_self declared ⟨span, _, hspan, hdetached, ?_⟩
    exact hstarts.imp_right fun ⟨name, hname, hinner⟩ => ⟨name,
      nodes_subset_inner (by decide) hspecs hspec (List.mem_cons_of_mem _ hname), hinner⟩

theorem keeps_readFunction
    (hdeclares : ∀ declared, src.Anchors decl declared → G.Declares declared) :
    G.Keeps (readFunction src decl root) := by
  unfold readFunction
  refine .found_bind fun span hspan => .lift_bind fun name => ?_
  refine (keeps_recordIdentifier _ _).bind fun _ => ?_
  refine (keeps_receiver? _).bind fun receiver => ?_
  refine (keeps_openScope _ _ _ _).bind fun body => .lift_bind fun signature => ?_
  refine (keeps_declareParameters keeps_walkTree _).bind fun params => ?_
  refine (keeps_resultTypes keeps_walkTree _).bind fun results => ?_
  refine .lift_bind fun nameSpan => (keeps_declare ?_).bind fun _ => ?_
  · exact hdeclares _ ⟨span, none, hspan, rfl, .inl rfl⟩
  · exact keeps_walkBody keeps_walkTree _

/-- Imports are declared without comments, and beside that their declaration is recorded. -/
theorem keeps_readImports (hrecord : ∀ found, G.Keeps (recordImport found)) :
    G.Keeps (readImports src decl root) := by
  unfold readImports
  refine .lift_bind fun span => .lift_bind fun parenthesized => .lift_bind fun specs => ?_
  refine (Keeps.mapM fun spec _ => .lift _).bind fun entries => ?_
  refine (Keeps.forM fun entry _ => ?_).bind fun _ => hrecord _
  exact keeps_declare (G.undetached _ rfl)

end Files

end Growth

end GoConventions
