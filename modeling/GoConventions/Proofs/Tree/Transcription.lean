import GoConventions.Proofs.Tree.Mentions
import GoConventions.Proofs.Tree.Walk

/-!
# Steps that record nodes

A history *transcribes* nodes when its identifiers and calls are those that the nodes mention, each
once, with the names and the spans that the tree gives.  Steps of the reader that transcribe nodes
are chained and repeated, and the nodes add up.

A call is recorded after the calls in its function expression and in its arguments.  What a step
adds says so of all calls in it (`Transcribed.nested`), wherever the step stands.

## Main definitions

* `Transcribed`: events that record what some nodes mention.
* `Transcribes`: a step of the reader that records what some nodes mention.

## Main results

* `Transcribed.call`: a call is recorded after all calls below it.
* `Transcribes.bind`, `Transcribes.forM`, `Transcribes.mapM`: chained and repeated steps.
* `transcribes_identifier`, `transcribes_selected`: an identifier is recorded once.
-/

namespace GoConventions

/-! ## Events that record nodes -/

/-- The node that an event records for a mention. -/
def TreeEvent.mention? : Mention → TreeEvent → Option Members
  | .identifier, .identifier node _ => some node
  | .selected, .identifier node found => if found.selector then some node else none
  | .call, .call node _ => some node
  | _, _ => none

/-- The nodes that a history records for a mention. -/
def TreeHistory.mentions (mention : Mention) (h : TreeHistory) : List Members :=
  h.filterMap (TreeEvent.mention? mention)

/-- An identifier has the name and the span of the node it comes from; a call has the span, and no
annotation yet. -/
def TreeEvent.IsFaithful (src : SourceText) : TreeEvent → Prop
  | .identifier node found => found.name = node.name ∧ src.span node = .ok found.span
  | .call node found => src.span node = .ok found.span ∧ found.annotation = none
  | _ => True

/-- The calls in the function expression and the arguments of a call. -/
def Members.nestedCalls (node : Members) : List Members :=
  mentionsIn .call (node.nodesUnder ["fun", "args"])

theorem TreeHistory.mentions_append (mention : Mention) (h later : TreeHistory) :
    TreeHistory.mentions mention (h ++ later) = h.mentions mention ++ later.mentions mention :=
  List.filterMap_append

/-- An event of two histories in a row is one of the first or one of the second. -/
theorem TreeHistory.append_eq_append_cons {first second before after : TreeHistory}
    {event : TreeEvent} (h : first ++ second = before ++ event :: after) :
    (∃ middle, before = first ++ middle ∧ second = middle ++ event :: after) ∨
      ∃ middle, first = before ++ event :: middle := by
  rcases List.append_eq_append_iff.mp h with hsecond | ⟨middle, rfl, hrest⟩
  · exact Or.inl hsecond
  · cases middle with
    | nil => exact Or.inl ⟨[], by simp, hrest.symm⟩
    | cons other middle =>
      obtain ⟨rfl, -⟩ := List.cons.inj hrest
      exact Or.inr ⟨middle, rfl⟩

/-- Events that record what some nodes mention, each node once, and every call after the calls
nested in it. -/
structure Transcribed (src : SourceText) (added : TreeHistory) (nodes : List Members) : Prop where
  mentions : ∀ mention, (added.mentions mention).Perm (mentionsIn mention nodes)
  faithful : ∀ event ∈ added, event.IsFaithful src
  nested : ∀ before node call after, added = before ++ .call node call :: after →
    node.nestedCalls.Subperm (TreeHistory.mentions .call before)

variable {src : SourceText} {h : TreeHistory} {nodes more : List Members}

namespace Transcribed

theorem nil : Transcribed src [] [] :=
  ⟨fun _ => List.Perm.refl _, by simp, by simp⟩

theorem of_same {added : TreeHistory} (hadded : Transcribed src added nodes)
    (hsame : SameMentions nodes more) : Transcribed src added more :=
  ⟨fun mention => (hadded.mentions mention).trans (hsame mention), hadded.faithful, hadded.nested⟩

theorem append {added later : TreeHistory} (hadded : Transcribed src added nodes)
    (hlater : Transcribed src later more) : Transcribed src (added ++ later) (nodes ++ more) := by
  refine ⟨fun mention => ?_, fun event hevent => ?_, fun before node call after heq => ?_⟩
  · rw [TreeHistory.mentions_append, mentionsIn_append]
    exact (hadded.mentions mention).append (hlater.mentions mention)
  · exact (List.mem_append.mp hevent).elim (hadded.faithful event) (hlater.faithful event)
  · rcases TreeHistory.append_eq_append_cons heq with ⟨middle, rfl, hrest⟩ | ⟨middle, hfirst⟩
    · rw [TreeHistory.mentions_append]
      exact (hlater.nested _ _ _ _ hrest).trans (List.sublist_append_right _ _).subperm
    · exact hadded.nested before node call middle hfirst

/-- One event that is no call. -/
theorem single {event : TreeEvent} (hfaithful : event.IsFaithful src) (hcall : event.call? = none)
    (hmentions : ∀ mention, (event.mention? mention).toList.Perm (mentionsIn mention nodes)) :
    Transcribed src [event] nodes := by
  refine ⟨fun mention => ?_, by simpa using hfaithful, fun before node call after heq => ?_⟩
  · have hmention := hmentions mention
    rw [TreeHistory.mentions, List.filterMap_cons]
    cases hnode : event.mention? mention with
    | none => rwa [hnode] at hmention
    | some node => rwa [hnode] at hmention
  · cases before with
    | nil =>
      obtain ⟨rfl, -⟩ := List.cons.inj heq
      cases hcall
    | cons other before => simp at heq

/-- **A call after its parts**: the calls nested in it have been recorded with them. -/
theorem call {added : TreeHistory} {node : Members} {found : CallSite}
    (hadded : Transcribed src added (node.nodesUnder ["fun", "args"]))
    (hfaithful : src.span node = .ok found.span ∧ found.annotation = none)
    (hkind : node.hasKind "CallExpr" = true) :
    Transcribed src (added ++ [.call node found]) (node :: node.nodesUnder ["fun", "args"]) := by
  refine ⟨fun mention => ?_, fun event hevent => ?_, fun before other call after heq => ?_⟩
  · rw [TreeHistory.mentions_append, mentionsIn_cons]
    refine List.perm_append_comm.trans (List.Perm.append (List.Perm.of_eq ?_)
      (hadded.mentions mention))
    have hident := hasKind_unique hkind (show "CallExpr" ≠ "Ident" by simp)
    have hselector := hasKind_unique hkind (show "CallExpr" ≠ "SelectorExpr" by simp)
    cases mention <;>
      simp [TreeHistory.mentions, TreeEvent.mention?, Members.mention?, hkind, hident, hselector]
  · rcases List.mem_append.mp hevent with hevent | hevent
    · exact hadded.faithful event hevent
    · rw [List.mem_singleton.mp hevent]
      exact hfaithful
  · rcases TreeHistory.append_eq_append_cons heq with ⟨middle, rfl, hrest⟩ | ⟨middle, hfirst⟩
    · -- It is the call itself, or there would be an event after it.
      cases middle with
      | nil =>
        obtain ⟨hevent, -⟩ := List.cons.inj hrest
        obtain ⟨rfl, -⟩ := TreeEvent.call.inj hevent
        rw [List.append_nil]
        exact (hadded.mentions .call).symm.subperm
      | cons event middle => simp at hrest
    · exact hadded.nested before other call middle hfirst

end Transcribed

/-! ## Steps that record nodes -/

/-- A step of the reader that records what some nodes mention. -/
def Transcribes {α : Type} (src : SourceText) (step : TreeReader α) (nodes : List Members) : Prop :=
  ∀ h, Reads step h fun _ added => Transcribed src added nodes

namespace Transcribes

variable {α β γ : Type} {step : TreeReader α} {next : α → TreeReader β}

theorem of_same (hstep : Transcribes src step nodes) (hsame : SameMentions nodes more) :
    Transcribes src step more :=
  fun h => (hstep h).imp fun _ _ hadded => hadded.of_same hsame

theorem pure (a : α) : Transcribes src (Pure.pure a) [] :=
  fun _ => Reads.pure Transcribed.nil

theorem lift (result : TreeResult α) : Transcribes src (liftM result : TreeReader α) [] :=
  fun _ => Reads.lift fun _ _ => Transcribed.nil

theorem bind (hstep : Transcribes src step nodes) (hnext : ∀ a, Transcribes src (next a) more) :
    Transcribes src (step >>= next) (nodes ++ more) := by
  refine fun h => Reads.bind (hstep h) fun a added hadded => ?_
  exact (hnext a (h ++ added)).imp fun _ _ hlater => hadded.append hlater

/-- A step that records nothing, and what follows it. -/
theorem bind_of_nil (hstep : Transcribes src step [])
    (hnext : ∀ a, Transcribes src (next a) nodes) :
    Transcribes src (step >>= next) nodes :=
  hstep.bind hnext

/-- A step, and an answer that is made of its answer. -/
theorem map {f : α → β} (hstep : Transcribes src step nodes) :
    Transcribes src (step >>= fun a => Pure.pure (f a)) nodes := by
  rw [← List.append_nil nodes]
  exact hstep.bind fun a => pure (f a)

theorem lift_bind {result : TreeResult α}
    (hnext : ∀ a, result = .ok a → Transcribes src (next a) nodes) :
    Transcribes src (liftM result >>= next) nodes :=
  fun h => Reads.lift_bind fun a ha => hnext a ha h

theorem get_bind {next : Draft → TreeReader β}
    (hnext : ∀ draft, Transcribes src (next draft) nodes) :
    Transcribes src (get >>= next) nodes :=
  fun h => Reads.get_bind (hnext _ h)

theorem forM {xs : List γ} {f : γ → TreeReader Unit} {ns : γ → List Members}
    (hf : ∀ x ∈ xs, Transcribes src (f x) (ns x)) :
    Transcribes src (xs.forM f) (xs.flatMap ns) := by
  induction xs with
  | nil => exact pure PUnit.unit
  | cons x xs ih =>
    rw [List.flatMap_cons]
    exact (hf x (by simp)).bind fun _ => ih fun y hy => hf y (by simp [hy])

theorem forM_of_nil {xs : List γ} {f : γ → TreeReader Unit}
    (hf : ∀ x ∈ xs, Transcribes src (f x) []) : Transcribes src (xs.forM f) [] := by
  have hall := forM hf
  rwa [List.flatMap_eq_nil_iff.mpr fun _ _ => rfl] at hall

theorem mapM {xs : List γ} {f : γ → TreeReader α} {ns : γ → List Members}
    (hf : ∀ x ∈ xs, Transcribes src (f x) (ns x)) :
    Transcribes src (xs.mapM f) (xs.flatMap ns) := by
  induction xs with
  | nil =>
    rw [List.mapM_nil]
    exact pure []
  | cons x xs ih =>
    rw [List.mapM_cons, List.flatMap_cons]
    exact (hf x (by simp)).bind fun _ => (ih fun y hy => hf y (by simp [hy])).map

theorem mapM_lift {xs : List γ} {f : γ → TreeResult α} :
    Transcribes src (xs.mapM fun x => (f x : TreeReader α)) [] := by
  have hall : Transcribes src (xs.mapM fun x => (f x : TreeReader α)) (xs.flatMap fun _ => []) :=
    mapM fun x _ => lift (f x)
  rwa [List.flatMap_eq_nil_iff.mpr fun _ _ => rfl] at hall

end Transcribes

/-! ## Steps that add something -/

/-- A step that adds an event that is neither an identifier nor a call. -/
theorem transcribes_modify {change : Draft → Draft} (event : TreeEvent)
    (hchange : ∀ draft, change draft = draft.add event)
    (hcall : event.call? = none) (hident : event.identifier? = none) :
    Transcribes src (modify change : TreeReader PUnit) [] := by
  refine fun h => Reads.ofModify event (hchange _) (Transcribed.single ?_ hcall fun mention => ?_)
  · cases event with
    | identifier node found => cases hident
    | call node found => cases hcall
    | _ => trivial
  · cases event with
    | identifier node found => cases hident
    | call node found => cases hcall
    | _ => cases mention <;> exact List.Perm.refl _

theorem transcribes_declare (decl : Declaration) : Transcribes src (declare decl) [] :=
  transcribes_modify (.heading decl) (fun _ => rfl) rfl rfl

theorem transcribes_recordImport (decl : ImportDecl) : Transcribes src (recordImport decl) [] :=
  transcribes_modify (.imports decl) (fun _ => rfl) rfl rfl

theorem reads_recordCall (node : Members) {call : CallSite} {P : Unit → TreeHistory → Prop}
    (hcall : P ⟨⟩ [.call node call]) : Reads (recordCall call) h P :=
  Reads.ofModify (.call node call) rfl hcall

theorem transcribes_openScope (kind : ScopeKind) (span : Span) (parent : Option Nat)
    (deepens : Bool) : Transcribes src (openScope kind span parent deepens) [] := by
  intro h id draft hrun
  obtain ⟨-, rfl⟩ := Prod.mk.inj (Except.ok.inj hrun)
  let opened : OpenScope :=
    ⟨kind, span, parent, (Draft.ofHistory h).depthIn kind parent deepens⟩
  refine ⟨[.scope [] opened], (ofHistory_concat h (.scope [] opened)).symm, ?_⟩
  exact Transcribed.single trivial rfl fun mention => by cases mention <;> exact List.Perm.refl _

theorem transcribes_defineVariable (scope : Nat) (target : Json) :
    Transcribes src (defineVariable src scope target) [] := by
  unfold defineVariable
  cases target with
  | obj node =>
    refine Transcribes.get_bind fun draft => ?_
    split
    · exact Transcribes.lift_bind fun span _ => transcribes_declare _
    · exact Transcribes.pure _
  | _ => exact Transcribes.pure _

/-- An identifier stands for itself: nothing lies below it. -/
theorem sameMentions_identifier {node : Members} (hident : node.hasKind "Ident" = true)
    (hdoc : (Json.obj node).Documented) : SameMentions [node] (Json.obj node).nodes :=
  (sameMentions_nodesUnder [] hdoc hident rfl rfl (by decide)).cons node

theorem mention?_identifier {node : Members} (hident : node.hasKind "Ident" = true)
    (mention : Mention) :
    node.mention? mention = if mention = .identifier then some node else none := by
  have hselector := hasKind_unique hident (show "Ident" ≠ "SelectorExpr" by simp)
  have hcall := hasKind_unique hident (show "Ident" ≠ "CallExpr" by simp)
  cases mention <;> simp [Members.mention?, hident, hselector, hcall]

theorem mentionsIn_call_of_identifiers {nodes : List Members}
    (h : ∀ node ∈ nodes, node.hasKind "Ident" = true) : mentionsIn .call nodes = [] := by
  refine List.filterMap_eq_nil_iff.mpr fun node hnode => ?_
  rw [mention?_identifier (h node hnode)]
  rfl

theorem transcribes_recordNode {node : Members} (hident : node.hasKind "Ident" = true)
    (selector : Bool) (hmentions : ∀ mention span,
      (TreeEvent.mention? mention (.identifier node ⟨node.name, span, selector⟩)).toList.Perm
        (mentionsIn mention nodes)) :
    Transcribes src (recordIdentifier src (.obj node) selector) nodes := by
  unfold recordIdentifier
  dsimp only
  rw [if_pos hident]
  refine Transcribes.lift_bind fun span hspan h => ?_
  exact Reads.ofModify (.identifier node ⟨Members.name node, span, selector⟩)
    rfl (Transcribed.single ⟨rfl, hspan⟩ rfl fun mention =>
      hmentions mention span)

/-- **An identifier is recorded once.** -/
theorem transcribes_identifier {node : Members} (hident : node.hasKind "Ident" = true)
    (hdoc : (Json.obj node).Documented) :
    Transcribes src (recordIdentifier src (.obj node)) (Json.obj node).nodes := by
  refine Transcribes.of_same (transcribes_recordNode hident false fun mention span => ?_)
    (sameMentions_identifier hident hdoc)
  rw [mentionsIn_cons, mention?_identifier hident]
  cases mention <;> exact List.Perm.refl _

/-- A name that is an identifier, or left out. -/
theorem transcribes_name {value : Json} (hdoc : value.Documented)
    (hform : (PartForm.node (some ["Ident"])).admits value = true) :
    Transcribes src (recordIdentifier src value) value.nodes := by
  rcases admits_only hform with hnone | ⟨node, rfl, hident⟩
  · rw [hnone]
    cases value with
    | obj node => exact absurd hnone (List.cons_ne_nil _ _)
    | _ => exact Transcribes.pure _
  · exact transcribes_identifier hident hdoc

/-- **The identifier of a selection is recorded as selected.** -/
theorem transcribes_selected {node : Members} (hdoc : (Json.obj node).Documented)
    (hkind : node.hasKind "SelectorExpr" = true) :
    Transcribes src (recordIdentifier src (node.get "sel") true)
      (node :: (node.get "sel").nodes) := by
  have hident := hasKind_unique hkind (show "SelectorExpr" ≠ "Ident" by simp)
  have hcall := hasKind_unique hkind (show "SelectorExpr" ≠ "CallExpr" by simp)
  have hform : (PartForm.node (some ["Ident"])).admits (node.get "sel") = true :=
    hdoc.admits hkind rfl
  rcases admits_only hform with hnone | ⟨selected, hsel, hselected⟩
  · have hmembers := members?_eq_none hnone
    have hsame : SameMentions [] (node :: (node.get "sel").nodes) := by
      rw [hnone]
      intro mention
      cases mention <;> simp [mentionsIn, Members.mention?, hident, hcall, hmembers]
    refine Transcribes.of_same ?_ hsame
    cases hsel : node.get "sel" with
    | obj selected => rw [hsel] at hmembers; cases hmembers
    | _ => exact Transcribes.pure _
  · have hseldoc : (Json.obj selected).Documented := hsel ▸ hdoc.get "sel" (by decide)
    have hmention : node.mention? .selected = some selected := by
      rw [Members.mention?, if_pos hkind, hsel]
      exact Option.filter_eq_some_iff.mpr ⟨rfl, hselected⟩
    rw [hsel]
    refine Transcribes.of_same (transcribes_recordNode hselected true fun mention span => ?_)
      ((sameMentions_identifier hselected hseldoc).cons node)
    rw [mentionsIn_cons, mentionsIn_cons, mention?_identifier hselected]
    cases mention with
    | identifier => simp [TreeEvent.mention?, mentionsIn, Members.mention?, hident]
    | selected => simp [TreeEvent.mention?, mentionsIn, hmention]
    | call => simp [TreeEvent.mention?, mentionsIn, Members.mention?, hcall]

end GoConventions
