import GoConventions.Proofs.Tree.Standing

/-!
# Recording where calls stand

A call is recorded in the context that its standing calls for: the whole of a statement, and an
operand in it, with the context of the statement, and what is assigned with the names of the
targets.  What a declaration of variables binds is recorded without targets, like a value that is
bound to nothing.

A step of the reader *registers* calls with their standings when it records a call for each of them
and no others.  Steps that register calls are chained and repeated, and the calls add up.

## Main definitions

* `CallSite.StandsFor`: a recorded call is that of a node with a standing.
* `Registers`: a step that records the calls with certain standings.

## Main results

* `Registers.bind`, `Registers.forM`, `Registers.mapM`: chained and repeated steps.
* `registers_of_transcribes`: a step that records no call node registers nothing.
-/

namespace GoConventions

variable {src : SourceText}

/-! ## Calls that stand for nodes -/

/-- A standing is handed down in a context. -/
def Standing.ShownBy (standing : Standing) (context : CallContext) : Prop :=
  match standing with
  | .whole | .operand => context = .statement ∨ context = .go
  | .declared _ | .other => context ∉ [.statement, .go, .define, .assign]
  | _ => False

/-- A call with a standing is recorded in a context and with targets. -/
def Standing.RecordedAs (standing : Standing) (context : CallContext) (targets : List Members) :
    Prop :=
  match standing with
  | .assigned _ names => (context = .define ∨ context = .assign) ∧ targets = names
  | standing => standing.ShownBy context

/-- A recorded call is that of a node with a standing. -/
structure CallSite.StandsFor (src : SourceText) (entry : Members × Standing) (call : CallSite) :
    Prop where
  span_eq : src.span entry.1 = .ok call.span
  callee_eq : GoConventions.callee src (entry.1.get "fun") = .ok call.callee
  results_eq : call.results = statedResults entry.1
  recorded : ∃ targets, entry.2.RecordedAs call.context targets ∧
    List.Forall₂ (fun target name => targetName src target = .ok name) targets call.targets

/-- The calls among some events are those with certain standings. -/
structure Registered (src : SourceText) (added : TreeHistory)
    (entries : Set (Members × Standing)) : Prop where
  sound : ∀ call ∈ (Draft.ofHistory added).calls, ∃ entry ∈ entries, call.StandsFor src entry
  complete : ∀ entry ∈ entries, ∃ call ∈ (Draft.ofHistory added).calls, call.StandsFor src entry

theorem Standing.ShownBy.recordedAs {standing : Standing} {context : CallContext}
    (h : standing.ShownBy context) (targets : List Members) :
    standing.RecordedAs context targets := by
  cases standing with
  | assigned => cases h
  | _ => exact h

/-- What a plain place hands down. -/
theorem Standing.shownBy_other : Standing.other.ShownBy .other := by
  unfold Standing.ShownBy
  decide

/-- A node that is walked binds nothing, unless it is an assignment. -/
theorem Standing.ShownBy.binding?_eq_none {standing : Standing} {context : CallContext}
    {node : Members} (h : standing.ShownBy context) (hassign : node.hasKind "AssignStmt" = false) :
    node.binding? standing = none := by
  unfold Members.binding?
  rw [hassign]
  cases standing with
  | specified => cases h
  | _ => rfl

theorem Registered.nil : Registered src [] ∅ :=
  ⟨by simp [calls_ofHistory], by simp⟩

theorem Registered.append {added later : TreeHistory} {entries more : Set (Members × Standing)}
    (hadded : Registered src added entries) (hlater : Registered src later more) :
    Registered src (added ++ later) (entries ∪ more) := by
  have hcalls : (Draft.ofHistory (added ++ later)).calls =
      (Draft.ofHistory added).calls ++ (Draft.ofHistory later).calls := by
    simp only [calls_ofHistory, List.filterMap_append]
  constructor
  · intro call hcall
    rw [hcalls] at hcall
    rcases List.mem_append.mp hcall with hcall | hcall
    · obtain ⟨entry, hentry, h⟩ := hadded.sound call hcall
      exact ⟨entry, Or.inl hentry, h⟩
    · obtain ⟨entry, hentry, h⟩ := hlater.sound call hcall
      exact ⟨entry, Or.inr hentry, h⟩
  · rw [hcalls]
    rintro entry (hentry | hentry)
    · obtain ⟨call, hcall, h⟩ := hadded.complete entry hentry
      exact ⟨call, List.mem_append_left _ hcall, h⟩
    · obtain ⟨call, hcall, h⟩ := hlater.complete entry hentry
      exact ⟨call, List.mem_append_right _ hcall, h⟩

/-! ## Steps that register calls -/

/-- A step of the reader that records the calls with certain standings, and no others. -/
def Registers {α : Type} (src : SourceText) (step : TreeReader α)
    (entries : Set (Members × Standing)) : Prop :=
  ∀ h, Reads step h fun _ added => Registered src added entries

/-- A step that records a call. -/
theorem registers_recordCall {entry : Members × Standing} {call : CallSite}
    (hcall : call.StandsFor src entry) : Registers src (recordCall call) {entry} := by
  have hcalls : (Draft.ofHistory [.call entry.1 call]).calls = [call] := calls_ofHistory _
  refine fun h => reads_recordCall entry.1 ⟨fun other hother => ?_, fun other hother => ?_⟩
  · obtain rfl := List.mem_singleton.mp (hcalls ▸ hother)
    exact ⟨entry, rfl, hcall⟩
  · obtain rfl := Set.mem_singleton_iff.mp hother
    exact ⟨call, hcalls ▸ List.mem_singleton_self _, hcall⟩

/-- Identifiers are no calls. -/
theorem registers_recordIdentifier (value : Json) (selector : Bool) :
    Registers src (recordIdentifier src value selector) ∅ := by
  have hnone : ∀ node found, Registered src [.identifier node found] ∅ := fun node found =>
    ⟨by simp [calls_ofHistory], by simp⟩
  intro h
  unfold recordIdentifier
  split
  case h_2 => exact Reads.pure .nil
  case h_1 node =>
    dsimp only
    split
    case isTrue =>
      refine Reads.lift_bind fun span _ => ?_
      exact Reads.ofModify (.identifier node ⟨Members.name node, span, selector⟩)
        rfl (hnone _ _)
    case isFalse => exact Reads.pure .nil

/-- A step that records nodes among which there is no call. -/
theorem registers_of_transcribes {α : Type} {step : TreeReader α} {nodes : List Members}
    (hstep : Transcribes src step nodes) (hnone : mentionsIn .call nodes = []) :
    Registers src step ∅ := by
  refine fun h => (hstep h).imp fun _ added hadded => ?_
  -- Every recorded call is mentioned, and the mentions are those of the nodes.
  have hmentions := hadded.mentions .call
  rw [hnone, List.perm_nil] at hmentions
  have hcalls : (Draft.ofHistory added).calls = [] := by
    rw [calls_ofHistory]
    refine List.filterMap_eq_nil_iff.mpr fun event hevent => ?_
    have hmention := List.filterMap_eq_nil_iff.mp hmentions event hevent
    cases event with
    | call node found => cases hmention
    | _ => rfl
  exact ⟨by simp [hcalls], by simp⟩

namespace Registers

variable {α β γ : Type} {step : TreeReader α} {next : α → TreeReader β}
  {entries more : Set (Members × Standing)}

theorem pure (a : α) : Registers src (Pure.pure a) ∅ :=
  fun _ => Reads.pure .nil

theorem lift (result : TreeResult α) : Registers src (liftM result : TreeReader α) ∅ :=
  fun _ => Reads.lift fun _ _ => .nil

theorem bind (hstep : Registers src step entries) (hnext : ∀ a, Registers src (next a) more) :
    Registers src (step >>= next) (entries ∪ more) := by
  refine fun h => Reads.bind (hstep h) fun a added hadded => ?_
  exact (hnext a (h ++ added)).imp fun _ _ hlater => hadded.append hlater

/-- A step that records no call, and what follows it. -/
theorem bind_of_empty (hstep : Registers src step ∅) (hnext : ∀ a, Registers src (next a) entries) :
    Registers src (step >>= next) entries := by
  rw [← Set.empty_union entries]
  exact hstep.bind hnext

/-- A step, and an answer that is made of its answer. -/
theorem map {f : α → β} (hstep : Registers src step entries) :
    Registers src (step >>= fun a => Pure.pure (f a)) entries := by
  rw [← Set.union_empty entries]
  exact hstep.bind fun a => pure (f a)

theorem lift_bind {result : TreeResult α}
    (hnext : ∀ a, result = .ok a → Registers src (next a) entries) :
    Registers src (liftM result >>= next) entries :=
  fun h => Reads.lift_bind fun a ha => hnext a ha h

theorem get_bind {next : Draft → TreeReader β}
    (hnext : ∀ draft, Registers src (next draft) entries) :
    Registers src (get >>= next) entries :=
  fun h => Reads.get_bind (hnext _ h)

/-- What is read off each element of a list, and what follows it. -/
theorem mapM_lift_bind {f : γ → TreeResult α} {xs : List γ} {next : List α → TreeReader β}
    (hnext : ∀ ys, List.Forall₂ (fun x y => f x = .ok y) xs ys → Registers src (next ys) entries) :
    Registers src ((xs.mapM fun x => (f x : TreeReader α)) >>= next) entries := by
  -- The first answer becomes part of what follows, so this has to be general.
  induction xs generalizing next with
  | nil =>
    rw [List.mapM_nil, pure_bind]
    exact hnext [] .nil
  | cons x xs ih =>
    rw [List.mapM_cons, bind_assoc]
    refine lift_bind fun y hy => ?_
    rw [bind_assoc]
    refine ih fun ys hys => ?_
    rw [pure_bind]
    exact hnext (y :: ys) (.cons hy hys)

theorem forM {xs : List γ} {f : γ → TreeReader Unit} {found : γ → Set (Members × Standing)}
    (hf : ∀ x ∈ xs, Registers src (f x) (found x)) :
    Registers src (xs.forM f) (⋃ x ∈ xs, found x) := by
  induction xs with
  | nil => simpa using pure PUnit.unit
  | cons x xs ih =>
    have hall := (hf x List.mem_cons_self).bind fun _ =>
      ih fun y hy => hf y (List.mem_cons_of_mem x hy)
    simpa [List.mem_cons, Set.iUnion_or, Set.iUnion_union_distrib] using hall

/-- A loop over what is made of the elements of a list. -/
theorem forM_map {δ : Type} {g : δ → γ} {xs : List δ} {f : γ → TreeReader Unit}
    {found : δ → Set (Members × Standing)} (hf : ∀ x ∈ xs, Registers src (f (g x)) (found x)) :
    Registers src ((xs.map g).forM f) (⋃ x ∈ xs, found x) := by
  have hloop : (xs.map g).forM f = xs.forM fun x => f (g x) := List.forM_map
  rw [hloop]
  exact forM hf

theorem forM_of_empty {xs : List γ} {f : γ → TreeReader Unit}
    (hf : ∀ x ∈ xs, Registers src (f x) ∅) : Registers src (xs.forM f) ∅ := by
  simpa using forM hf

theorem mapM {xs : List γ} {f : γ → TreeReader α} {found : γ → Set (Members × Standing)}
    (hf : ∀ x ∈ xs, Registers src (f x) (found x)) :
    Registers src (xs.mapM f) (⋃ x ∈ xs, found x) := by
  induction xs with
  | nil =>
    rw [List.mapM_nil]
    simpa using pure []
  | cons x xs ih =>
    rw [List.mapM_cons]
    have hall := (hf x List.mem_cons_self).bind fun y =>
      (ih fun y hy => hf y (List.mem_cons_of_mem x hy)).map (f := (y :: ·))
    simpa [List.mem_cons, Set.iUnion_or, Set.iUnion_union_distrib] using hall

theorem mapM_of_empty {xs : List γ} {f : γ → TreeReader α}
    (hf : ∀ x ∈ xs, Registers src (f x) ∅) : Registers src (xs.mapM f) ∅ := by
  simpa using mapM hf

end Registers

end GoConventions
