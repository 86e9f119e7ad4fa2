import GoConventions.Proofs.Source.Spans
import GoConventions.Tree.Imports
import Mathlib.Data.List.Induction

/-!
# The history of a reading

Reading a tree only ever adds to a draft, so a reading is told by the list of what it has added: its
*history*.  Every event of a history names the node that it comes from, and obeys one rule that
looks back at the events before it (`TreeEvent.Follows`).  The rules are all that a proof about a
finished model needs to know of the walk.

A step of the reader is described by a relation between the history before it and the events that
it adds (`Reads`), and such descriptions are chained with `Reads.bind`.

## Main definitions

* `TreeEvent`, `TreeHistory`, `Draft.ofHistory`: what is added to a draft, and the draft that comes
  of adding it.
* `TreeHistory.opened`: the scopes of a history as they have been opened.
* `TreeEvent.Follows`, `Continues`: which event may come next, and which events may.
* `Extends`: events that may come next and that use every node at most once.
* `Reads`: what a step of the reader adds and answers.
-/

namespace GoConventions

/-- What a reading adds to a draft, with the node that it comes from. -/
inductive TreeEvent where
  | scope (opener : Members) (scope : OpenScope)
  /-- A declaration by a name node. -/
  | declaration (name : Members) (decl : Declaration)
  /-- The declaration of the package clause or of an import, which no identifier names. -/
  | heading (decl : Declaration)
  | identifier (node : Members) (identifier : Identifier)
  | call (node : Members) (call : CallSite)
  | imports (decl : ImportDecl)

/-- What a reading has added so far. -/
abbrev TreeHistory := List TreeEvent

/-- What a node is visited for. -/
inductive VisitRole where
  | scope
  | identifier
  | call
  deriving DecidableEq, Repr

namespace TreeEvent

@[simp]
def scope? : TreeEvent → Option OpenScope
  | .scope _ opened => some opened
  | _ => none

@[simp]
def declaration? : TreeEvent → Option Declaration
  | .declaration _ decl => some decl
  | .heading decl => some decl
  | _ => none

@[simp]
def identifier? : TreeEvent → Option Identifier
  | .identifier _ found => some found
  | _ => none

@[simp]
def call? : TreeEvent → Option CallSite
  | .call _ found => some found
  | _ => none

@[simp]
def imports? : TreeEvent → Option ImportDecl
  | .imports decl => some decl
  | _ => none

/-- The scope that an event declares to be the body of a function. -/
def body? (event : TreeEvent) : Option Nat :=
  event.declaration?.bind (·.bodyScope)

/-- The node that an event in a role comes from. -/
@[simp]
def source? : VisitRole → TreeEvent → Option Members
  | .scope, .scope opener _ => some opener
  | .identifier, .identifier node _ => some node
  | .call, .call node _ => some node
  | _, _ => none

end TreeEvent

/-- The scopes of a history as they have been opened. -/
def TreeHistory.opened (h : TreeHistory) : List OpenScope :=
  h.filterMap TreeEvent.scope?

/-- The nodes that have opened the scopes of a history, in the order of the scopes. -/
def TreeHistory.openers (h : TreeHistory) : List Members :=
  h.filterMap (TreeEvent.source? .scope)

/-- The scopes that have been declared to be the bodies of functions. -/
def TreeHistory.bodies (h : TreeHistory) : List Nat :=
  h.filterMap TreeEvent.body?

/-- A name node has been recorded as an identifier that is no selector. -/
def TreeHistory.Records (h : TreeHistory) (node : Members) : Prop :=
  ∃ identifier, TreeEvent.identifier node identifier ∈ h ∧ identifier.selector = false

theorem TreeHistory.Records.append {h : TreeHistory} {node : Members} (hnode : h.Records node)
    (added : TreeHistory) : TreeHistory.Records (h ++ added) node :=
  hnode.imp fun _ hrecorded => ⟨List.mem_append_left added hrecorded.1, hrecorded.2⟩

/-! ## The draft of a history -/

/-- The draft with what an event adds. -/
def Draft.add (draft : Draft) : TreeEvent → Draft
  | .scope _ opened => draft.withScope opened
  | .declaration _ decl => draft.withDeclaration decl
  | .heading decl => draft.withDeclaration decl
  | .identifier _ found => { draft with identifiers := draft.identifiers ++ [found] }
  | .call _ found => { draft with calls := draft.calls ++ [found] }
  | .imports decl => { draft with imports := draft.imports ++ [decl] }

/-- The draft that comes of a history. -/
def Draft.ofHistory (h : TreeHistory) : Draft :=
  h.foldl Draft.add {}

/-- What a scope has been opened with. -/
def Scope.opened (scope : Scope) : OpenScope :=
  ⟨scope.kind, scope.span, scope.parent, scope.depth⟩

theorem ofHistory_concat (h : TreeHistory) (event : TreeEvent) :
    Draft.ofHistory (h ++ [event]) = (Draft.ofHistory h).add event := by
  rw [Draft.ofHistory, List.foldl_append]
  rfl

/-- What every event adds at the end of a part of the draft stands there in the order of the
events. -/
theorem part_ofHistory {α : Type} {part : Draft → List α} {adds : TreeEvent → Option α}
    (hempty : part {} = [])
    (hadd : ∀ draft event, part (Draft.add draft event) = part draft ++ (adds event).toList)
    (h : TreeHistory) : part (Draft.ofHistory h) = h.filterMap adds := by
  induction h using List.reverseRecOn with
  | nil => exact hempty
  | append_singleton h event ih =>
    rw [ofHistory_concat, hadd, ih, List.filterMap_append, List.filterMap_cons]
    cases adds event <;> rfl

theorem declarations_ofHistory (h : TreeHistory) :
    (Draft.ofHistory h).declarations = h.filterMap TreeEvent.declaration? :=
  part_ofHistory rfl (fun draft event => by
    cases event <;> simp [Draft.add, Draft.withScope, Draft.withDeclaration]) h

theorem identifiers_ofHistory (h : TreeHistory) :
    (Draft.ofHistory h).identifiers = h.filterMap TreeEvent.identifier? :=
  part_ofHistory rfl (fun draft event => by
    cases event <;> simp [Draft.add, Draft.withScope, Draft.withDeclaration]) h

theorem calls_ofHistory (h : TreeHistory) :
    (Draft.ofHistory h).calls = h.filterMap TreeEvent.call? :=
  part_ofHistory rfl (fun draft event => by
    cases event <;> simp [Draft.add, Draft.withScope, Draft.withDeclaration]) h

theorem imports_ofHistory (h : TreeHistory) :
    (Draft.ofHistory h).imports = h.filterMap TreeEvent.imports? :=
  part_ofHistory rfl (fun draft event => by
    cases event <;> simp [Draft.add, Draft.withScope, Draft.withDeclaration]) h

/-- What is listed in a scope later does not touch what it has been opened with. -/
theorem map_opened_modify {change : Scope → Scope}
    (hchange : ∀ scope, (change scope).opened = scope.opened) (scopes : List Scope) (id : Nat) :
    (scopes.modify id change).map Scope.opened = scopes.map Scope.opened := by
  refine List.ext_getElem? fun i => ?_
  rw [List.getElem?_map, List.getElem?_map, List.getElem?_modify]
  cases scopes[i]? with
  | none => rfl
  | some scope =>
    by_cases hid : id = i
    · simp [hid, hchange]
    · simp [hid]

theorem map_opened_withScope (draft : Draft) (opened : OpenScope) :
    (draft.withScope opened).scopes.map Scope.opened =
      draft.scopes.map Scope.opened ++ [opened] := by
  have hadded : (draft.scopes ++ [opened.empty draft.scopes.length]).map Scope.opened =
      draft.scopes.map Scope.opened ++ [opened] := List.map_append
  unfold Draft.withScope
  dsimp only
  split
  · rw [map_opened_modify fun _ => by rfl, hadded]
  · exact hadded

theorem map_opened_withDeclaration (draft : Draft) (decl : Declaration) :
    (draft.withDeclaration decl).scopes.map Scope.opened = draft.scopes.map Scope.opened :=
  map_opened_modify (fun _ => by rfl) _ _

/-- **A draft has the scopes that its history has opened.** -/
theorem map_opened_ofHistory (h : TreeHistory) :
    (Draft.ofHistory h).scopes.map Scope.opened = h.opened :=
  @part_ofHistory _ (fun draft => draft.scopes.map Scope.opened) _ rfl (fun draft event => by
    cases event <;> simp [Draft.add, map_opened_withScope, map_opened_withDeclaration]) h

theorem length_scopes_ofHistory (h : TreeHistory) :
    (Draft.ofHistory h).scopes.length = h.opened.length := by
  rw [← map_opened_ofHistory, List.length_map]

/-- Every scope has been opened by a node. -/
theorem TreeHistory.length_openers (h : TreeHistory) : h.openers.length = h.opened.length := by
  induction h with
  | nil => rfl
  | cons event h ih =>
    simp only [TreeHistory.openers, TreeHistory.opened] at ih ⊢
    cases event <;> simpa [List.filterMap_cons] using ih

theorem TreeHistory.opened_append (h added : TreeHistory) :
    TreeHistory.opened (h ++ added) = h.opened ++ added.opened :=
  List.filterMap_append

theorem TreeHistory.bodies_append (h added : TreeHistory) :
    TreeHistory.bodies (h ++ added) = h.bodies ++ added.bodies :=
  List.filterMap_append

theorem TreeHistory.openers_append (h added : TreeHistory) :
    TreeHistory.openers (h ++ added) = h.openers ++ added.openers :=
  List.filterMap_append

/-! ## Which events may come next -/

/-- The kind of the scope that a node opens. -/
def Members.scopeKind (node : Members) : ScopeKind :=
  if node.hasKind "FuncDecl" || node.hasKind "FuncLit" then .function else .block

/-- Whether a node is a clause of a switch or select statement. -/
def Members.isClause (node : Members) : Bool :=
  node.hasKind "CaseClause" || node.hasKind "CommClause"

/-- The nodes under the keys of names. -/
def Members.nameNodes (node : Members) : List Members :=
  (node.get "name").members?.toList ++ (nodesIn (node.get "names")).toOption.getD []

theorem Members.mem_nameNodes_of_name {node name : Members} (h : node.get "name" = .obj name) :
    name ∈ node.nameNodes := by
  refine List.mem_append_left _ ?_
  rw [h]
  exact List.mem_singleton_self name

theorem Members.mem_nameNodes_of_names {node name : Members} {names : List Members}
    (h : nodesIn (node.get "names") = .ok names) (hname : name ∈ names) :
    name ∈ node.nameNodes := by
  refine List.mem_append_right _ ?_
  rw [h]
  exact hname

section Rules

variable (src : SourceText) (root : Json) (h : TreeHistory)

/-- A place in a scope: below the node that has opened it. -/
def TreeHistory.Holds (scope : Nat) (node : Members) : Prop :=
  ∃ outer ∈ root.nodes, h.openers[scope]? = some outer ∧ node ∈ outer.inner

/-- Which scope may be opened next: first that of the file, and then scopes in scopes. -/
inductive ScopeFollows (opener : Members) (scope : OpenScope) : Prop where
  | file (hfirst : h = []) (hroot : root = .obj opener)
      (hscope : scope = ⟨.file, src.wholeSpan, none, 0⟩)
  | inner (parent : Nat) (hparent : scope.parent = some parent)
      (hholds : h.Holds root parent opener) (hspan : src.span opener = .ok scope.span)
      (hkind : scope.kind = opener.scopeKind)
      (hdepth : scope.depth =
        (Draft.ofHistory h).depthIn scope.kind (some parent) !opener.isClause)

/-- A specification of an import declaration. -/
def Json.IsImportSpec (root : Json) (spec : Members) : Prop :=
  ∃ decl ∈ root.nodes, decl.hasKind "GenDecl" = true ∧ (decl.get "tok").isText "import" = true ∧
    ∃ specs, nodesIn (decl.get "specs") = .ok specs ∧ spec ∈ specs

/-- An import with an alias has the place of its alias and that of its path from the nodes of a
specification. -/
def SourceText.AliasFollows (entry : ImportEntry) : Prop :=
  ∀ aliasSpan ∈ entry.aliasSpan, ∃ spec name path : Members, root.IsImportSpec spec ∧
    spec.get "name" = .obj name ∧ spec.get "path" = .obj path ∧
    src.span name = .ok aliasSpan ∧ src.span path = .ok entry.pathSpan

/-- Which declaration of a name node may come next: one whose name stands in its scope.  The name of
a variable that a statement defines is an identifier, and any other stands under a key of names.
The body of a function is the scope of a function in the file scope, and of no function before
it.  A comment that is detached from the declaration ends above it. -/
structure DeclarationFollows (name : Members) (decl : Declaration) : Prop where
  holds : h.Holds root decl.scope name
  name_eq : decl.name = name.name
  nameSpan : src.span name = .ok decl.nameSpan
  source : name.hasKind "Ident" = true ∨ ∃ node ∈ root.nodes, name ∈ node.nameNodes
  spans : ∀ span ∈ decl.spans, src.StatesSpan root span
  body : ∀ body, decl.bodyScope = some body → body ∉ h.bodies ∧
    ∃ opened, h.opened[body]? = some opened ∧ opened.kind = .function ∧ opened.parent = some 0
  detached : ∀ block ∈ decl.detachedDoc, src.EndsAbove root block.span decl.span

/-- Which package clause or import may be declared next: one in the file scope. -/
structure HeadingFollows (decl : Declaration) : Prop where
  opened : h.openers ≠ []
  scope : decl.scope = 0
  kind : decl.kind = .package ∨ decl.kind = .importName
  body : decl.bodyScope = none
  spans : ∀ span ∈ decl.spans, src.StatesSpan root span
  detached : decl.detachedDoc = none

/-- Which call may come next: one in a scope that has been opened.  Its string literals are not
empty, since they have quotes. -/
structure CallFollows (node : Members) (call : CallSite) : Prop where
  holds : h.Holds root call.scope node
  spans : ∀ span ∈ call.spans, src.StatesSpan root span
  literals : ∀ arg ∈ call.args, arg.literal?.isSome = true → arg.text ≠ ""

/-- **Which event may come next.** -/
def TreeEvent.Follows : TreeEvent → Prop
  | .scope opener opened => ScopeFollows src root h opener opened
  | .declaration name decl =>
    DeclarationFollows src root h name decl ∧ decl.kind ≠ .package ∧ decl.kind ≠ .importName
  | .heading decl => HeadingFollows src root h decl
  | .identifier node found =>
    node ∈ root.nodes ∧ node.hasKind "Ident" = true ∧ found.name = node.name ∧
      src.span node = .ok found.span
  | .call node found => CallFollows src root h node found
  | .imports decl => (∀ span ∈ decl.spans, src.StatesSpan root span) ∧
    (∀ body, decl.bodySpan = some body → parenthesizedBody? src decl.span = some body) ∧
    ∀ entry ∈ decl.entries, src.AliasFollows root entry

/-- Events that may come after a history, one after the other. -/
def Continues (h : TreeHistory) : TreeHistory → Prop
  | [] => True
  | event :: later => event.Follows src root h ∧ Continues (h ++ [event]) later

end Rules

variable {src : SourceText} {root : Json} {h : TreeHistory}

theorem continues_append {added later : TreeHistory} :
    Continues src root h (added ++ later) ↔
      Continues src root h added ∧ Continues src root (h ++ added) later := by
  induction added generalizing h with
  | nil => simp [Continues]
  | cons event added ih =>
    rw [List.cons_append, Continues, Continues, ih, and_assoc, List.append_assoc]
    rfl

/-- Every event obeys its rule at the events before it. -/
theorem follows_of_continues {before after : TreeHistory} {event : TreeEvent}
    (hvalid : Continues src root [] (before ++ event :: after)) :
    event.Follows src root before :=
  (continues_append.mp hvalid).2.1

theorem follows_of_mem {event : TreeEvent} (hvalid : Continues src root [] h) (hevent : event ∈ h) :
    ∃ before after, h = before ++ event :: after ∧ event.Follows src root before := by
  obtain ⟨before, after, rfl⟩ := List.append_of_mem hevent
  exact ⟨before, after, rfl, follows_of_continues hvalid⟩

/-- A history that another one goes on from. -/
def Reaches (src : SourceText) (root : Json) (h h' : TreeHistory) : Prop :=
  ∃ added, h' = h ++ added ∧ Continues src root h added

theorem Reaches.refl (h : TreeHistory) : Reaches src root h h :=
  ⟨[], (List.append_nil h).symm, trivial⟩

theorem Reaches.trans {h' h'' : TreeHistory} (hfirst : Reaches src root h h')
    (hsecond : Reaches src root h' h'') : Reaches src root h h'' := by
  obtain ⟨added, rfl, hadded⟩ := hfirst
  obtain ⟨later, rfl, hlater⟩ := hsecond
  exact ⟨added ++ later, List.append_assoc h added later, continues_append.mpr ⟨hadded, hlater⟩⟩

/-- What stands in a scope stands there ever after. -/
theorem TreeHistory.Holds.mono {scope : Nat} {node : Members} {h' : TreeHistory}
    (hholds : h.Holds root scope node) (hreaches : Reaches src root h h') :
    h'.Holds root scope node := by
  obtain ⟨outer, houter, hopener, hnode⟩ := hholds
  obtain ⟨added, rfl, -⟩ := hreaches
  refine ⟨outer, houter, ?_, hnode⟩
  rw [TreeHistory.openers_append, List.getElem?_append_left, hopener]
  exact (List.getElem?_eq_some_iff.mp hopener).1

/-! ## Nodes that are used once -/

/-- Events that may come next and that use the given nodes, in each role at most once. -/
structure Extends (src : SourceText) (root : Json) (h added : TreeHistory) (nodes : List Members) :
    Prop where
  continues : Continues src root h added
  once : ∀ role, (added.filterMap (TreeEvent.source? role)).Subperm nodes

theorem Extends.nil (nodes : List Members) : Extends src root h [] nodes :=
  ⟨trivial, fun _ => List.nil_subperm⟩

theorem Extends.append {added later : TreeHistory} {nodes more : List Members}
    (hadded : Extends src root h added nodes) (hlater : Extends src root (h ++ added) later more) :
    Extends src root h (added ++ later) (nodes ++ more) := by
  refine ⟨continues_append.mpr ⟨hadded.continues, hlater.continues⟩, fun role => ?_⟩
  rw [List.filterMap_append]
  exact (hadded.once role).append (hlater.once role)

theorem Extends.weaken {added : TreeHistory} {nodes more : List Members}
    (hadded : Extends src root h added nodes) (hnodes : nodes.Subperm more) :
    Extends src root h added more :=
  ⟨hadded.continues, fun role => (hadded.once role).trans hnodes⟩

/-! ## Steps of the reader -/

/-- What a step of the reader adds to a history, and what it answers, when it does not fail. -/
def Reads {α : Type} (step : TreeReader α) (h : TreeHistory) (P : α → TreeHistory → Prop) : Prop :=
  ∀ a draft, step.run (Draft.ofHistory h) = .ok (a, draft) →
    ∃ added, draft = Draft.ofHistory (h ++ added) ∧ P a added

namespace Reads

variable {α β : Type} {P : α → TreeHistory → Prop} {Q : β → TreeHistory → Prop}

theorem imp {step : TreeReader α} {P' : α → TreeHistory → Prop} (hstep : Reads step h P)
    (himp : ∀ a added, P a added → P' a added) : Reads step h P' := by
  intro a draft hrun
  obtain ⟨added, hdraft, hP⟩ := hstep a draft hrun
  exact ⟨added, hdraft, himp a added hP⟩

/-- **Steps are chained**: the second goes on where the first has stopped. -/
theorem bind {step : TreeReader α} {next : α → TreeReader β} (hstep : Reads step h P)
    (hnext : ∀ a added, P a added →
      Reads (next a) (h ++ added) fun b later => Q b (added ++ later)) :
    Reads (step >>= next) h Q := by
  intro b draft hrun
  rw [StateT.run_bind] at hrun
  obtain ⟨⟨a, middle⟩, hfirst, hrest⟩ := bind_eq_ok.mp hrun
  obtain ⟨added, rfl, hP⟩ := hstep a middle hfirst
  obtain ⟨later, rfl, hQ⟩ := hnext a added hP b draft hrest
  exact ⟨added ++ later, by rw [List.append_assoc], hQ⟩

theorem pure {a : α} (ha : P a []) : Reads (Pure.pure a) h P := by
  intro b draft hrun
  obtain ⟨rfl, rfl⟩ := Prod.mk.inj (Except.ok.inj hrun)
  exact ⟨[], by rw [List.append_nil], ha⟩

/-- A step that only looks at the tree. -/
theorem lift {result : TreeResult α} (hresult : ∀ a, result = .ok a → P a []) :
    Reads (liftM result) h P := by
  intro a draft hrun
  cases result with
  | error fault => simp [liftM, monadLift, MonadLift.monadLift, StateT.lift, StateT.run] at hrun
  | ok b =>
    obtain ⟨rfl, rfl⟩ := Prod.mk.inj (Except.ok.inj hrun)
    exact ⟨[], by rw [List.append_nil], hresult b rfl⟩

theorem get {P : Draft → TreeHistory → Prop} (hdraft : P (Draft.ofHistory h) []) :
    Reads (MonadState.get : TreeReader Draft) h P := by
  intro a draft hrun
  obtain ⟨rfl, rfl⟩ := Prod.mk.inj (Except.ok.inj hrun)
  exact ⟨[], by rw [List.append_nil], hdraft⟩

/-- A look at the tree, and what follows it. -/
theorem lift_bind {result : TreeResult α} {next : α → TreeReader β}
    (hnext : ∀ a, result = .ok a → Reads (next a) h Q) : Reads (liftM result >>= next) h Q := by
  refine bind (P := fun a added => result = .ok a ∧ added = []) (lift fun _ ha => ⟨ha, rfl⟩) ?_
  rintro a _ ⟨ha, rfl⟩
  rw [List.append_nil]
  exact hnext a ha

/-- A look at the draft, and what follows it. -/
theorem get_bind {next : Draft → TreeReader β} (hnext : Reads (next (Draft.ofHistory h)) h Q) :
    Reads (MonadState.get >>= next) h Q := by
  refine bind (P := fun draft added => draft = Draft.ofHistory h ∧ added = []) (get ⟨rfl, rfl⟩) ?_
  rintro _ _ ⟨rfl, rfl⟩
  rw [List.append_nil]
  exact hnext

/-- A step that adds one event. -/
theorem ofModify {change : Draft → Draft} (event : TreeEvent) {P : PUnit → TreeHistory → Prop}
    (hchange : change (Draft.ofHistory h) = (Draft.ofHistory h).add event)
    (hevent : P ⟨⟩ [event]) : Reads (modify change : TreeReader PUnit) h P := by
  intro a draft hrun
  obtain ⟨-, rfl⟩ := Prod.mk.inj (Except.ok.inj hrun)
  exact ⟨[event], hchange.trans (ofHistory_concat h event).symm, hevent⟩

end Reads

end GoConventions
