import GoConventions.Proofs.Tree.Calls
import GoConventions.Proofs.Tree.Growth

/-!
# Initialisers

A declared value is given the call that its initialiser is.  The reader finds this call by where it
starts, and that is not a key: in `f(x)(y)` or `a.New().B()` a call and the calls in its function
expression start at one place.  It is the order in which calls are recorded that decides.  A call is
recorded after all calls in it, so of the calls in one value its own is the last; and the calls of
the values after it start elsewhere, as long as the values have no character in common, calls are
not empty, and nodes lie within the nodes around them (`SourceText.SeparatesValues`).

## Main definitions

* `Span.Apart`, `SourceText.SeparatesValues`: values that do not get into each other's way.
* `CallSite.IsCallOf`: a recorded call is that of a call expression.
* `Declaration.InitialisedBy`, `SourceText.Initialises`: declarations with the initialisers that a
  specification gives to their names.

## Main results

* `initialCall_eq_some`: the call that is found for a value.
* `run_forM_declareValue`: what the names of a specification are declared with.
* `SourceText.SeparatesValues.start_ne`: the calls of later values start elsewhere.
-/

namespace GoConventions

/-! ## Values and their calls -/

/-- Two ranges have no character in common. -/
def Span.Apart (s t : Span) : Prop :=
  min s.stop.offset t.stop.offset ≤ max s.start.offset t.start.offset

instance (s t : Span) : Decidable (s.Apart t) :=
  inferInstanceAs (Decidable (_ ≤ _))

section Statement

variable (src : SourceText) (spec : Members)

/-- A specification has a value for each name, no two values have a character in common, no call in
a value is empty, and the nodes of a value lie within the nodes around them, as they do when each
lies within its parent. -/
structure SourceText.SeparatesValues : Prop where
  paired : (spec.nodesAt "values").length = (spec.nodesAt "names").length
  apart : (spec.nodesAt "values").Pairwise fun value other =>
    ∀ s, src.span value = .ok s → ∀ t, src.span other = .ok t → s.Apart t
  nonempty : ∀ value ∈ spec.nodesAt "values", ∀ node ∈ (Json.obj value).nodes,
    node.hasKind "CallExpr" = true →
      ∀ s, src.span node = .ok s → s.start.offset < s.stop.offset
  nested : ∀ value ∈ spec.nodesAt "values", ∀ outer ∈ (Json.obj value).nodes,
    ∀ inner ∈ outer.inner, ∀ s, src.span outer = .ok s → ∀ t, src.span inner = .ok t →
      s.contains t = true

instance : Decidable (src.SeparatesValues spec) :=
  decidable_of_iff
    ((spec.nodesAt "values").length = (spec.nodesAt "names").length ∧
      ((spec.nodesAt "values").Pairwise fun value other =>
        ∀ s, src.span value = .ok s → ∀ t, src.span other = .ok t → s.Apart t) ∧
      (∀ value ∈ spec.nodesAt "values", ∀ node ∈ (Json.obj value).nodes,
        node.hasKind "CallExpr" = true →
          ∀ s, src.span node = .ok s → s.start.offset < s.stop.offset) ∧
      ∀ value ∈ spec.nodesAt "values", ∀ outer ∈ (Json.obj value).nodes,
        ∀ inner ∈ outer.inner, ∀ s, src.span outer = .ok s → ∀ t, src.span inner = .ok t →
          s.contains t = true)
    ⟨fun ⟨paired, apart, nonempty, nested⟩ => ⟨paired, apart, nonempty, nested⟩,
      fun h => ⟨h.paired, h.apart, h.nonempty, h.nested⟩⟩

/-- A recorded call is that of a call expression: it has its span, its callee and its arguments. -/
structure CallSite.IsCallOf (call : CallSite) (node : Members) : Prop where
  span_eq : src.span node = .ok call.span
  callee_eq : GoConventions.callee src (node.get "fun") = .ok call.callee
  args_eq : List.Forall₂ (fun arg argument => argumentOf src arg = .ok argument)
    (node.nodesAt "args") call.args

/-- A declaration has the initialiser that its value calls for: if that is a call, the one that has
been recorded for it in the scope of the declaration, and otherwise none. -/
def Declaration.InitialisedBy (decl : Declaration) (calls : List CallSite) :
    Option Members → Prop
  | some value =>
    if value.hasKind "CallExpr" then
      ∃ call ∈ calls, call.IsCallOf src value ∧ call.scope = decl.scope ∧
        decl.initCall = some call.bare
    else decl.initCall = none
  | none => decl.initCall = none

/-- The names of a specification that are not blank, with their places. -/
def Members.namedPlaces : List (Members × Nat) :=
  (spec.nodesAt "names").zipIdx.filter fun place => place.1.name != "_"

/-- A declaration is that of the name at a place of a specification, with its initialiser. -/
structure Declaration.Names (decl : Declaration) (calls : List CallSite) (place : Members × Nat) :
    Prop where
  name_eq : decl.name = place.1.name
  nameSpan_eq : src.span place.1 = .ok decl.nameSpan
  initialised : decl.InitialisedBy src calls (spec.nodesAt "values")[place.2]?

/-- Among some declarations stand those of a specification, one for each name that is not blank, and
each has the initialiser of its name. -/
def SourceText.Initialises (calls : List CallSite) (decls : List Declaration) : Prop :=
  ∃ block, block <:+: decls ∧
    List.Forall₂ (fun place decl => decl.Names src spec calls place) spec.namedPlaces block

end Statement

variable {src : SourceText} {spec : Members} {calls : List CallSite} {decls : List Declaration}

/-- An annotation makes no difference to what a call is. -/
theorem CallSite.IsCallOf.of_bare_eq {call found : CallSite} {node : Members}
    (h : call.IsCallOf src node) (hbare : found.bare = call.bare) : found.IsCallOf src node := by
  have hspan : found.span = call.span := (congrArg CallSite.span hbare :)
  have hcallee : found.callee = call.callee := (congrArg CallSite.callee hbare :)
  have hargs : found.args = call.args := (congrArg CallSite.args hbare :)
  exact ⟨hspan ▸ h.span_eq, hcallee ▸ h.callee_eq, hargs ▸ h.args_eq⟩

theorem Declaration.InitialisedBy.mono {decl : Declaration} {value : Option Members}
    {more : List CallSite} (h : decl.InitialisedBy src calls value)
    (hcalls : ∀ call ∈ calls, ∃ found ∈ more, found.bare = call.bare) :
    decl.InitialisedBy src more value := by
  cases value with
  | none => exact h
  | some value =>
    simp only [InitialisedBy] at h ⊢
    split
    case isFalse hother => rwa [if_neg hother] at h
    case isTrue hcall =>
      rw [if_pos hcall] at h
      obtain ⟨call, hmem, his, hscope, hinit⟩ := h
      obtain ⟨found, hfound, hbare⟩ := hcalls call hmem
      have hsame : found.scope = call.scope := (congrArg CallSite.scope hbare :)
      exact ⟨found, hfound, his.of_bare_eq hbare, hsame.trans hscope, by rw [hinit, hbare]⟩

/-- Annotated calls and more declarations around them change nothing. -/
theorem SourceText.Initialises.mono {more : List CallSite} {others : List Declaration}
    (h : src.Initialises spec calls decls)
    (hcalls : ∀ call ∈ calls, ∃ found ∈ more, found.bare = call.bare)
    (hdecls : decls <:+: others) : src.Initialises spec more others := by
  obtain ⟨block, hblock, hnames⟩ := h
  exact ⟨block, hblock.trans hdecls, hnames.imp fun _ _ hdecl =>
    ⟨hdecl.name_eq, hdecl.nameSpan_eq, hdecl.initialised.mono hcalls⟩⟩

theorem SourceText.Initialises.subset {more : List CallSite} {others : List Declaration}
    (h : src.Initialises spec calls decls) (hcalls : calls ⊆ more) (hdecls : decls <:+: others) :
    src.Initialises spec more others :=
  h.mono (fun call hcall => ⟨call, hcalls hcall, rfl⟩) hdecls

/-! ## Which call starts where a value starts -/

/-- What starts where a value starts lies apart from no value that holds it. -/
theorem not_apart_of_contains {s t inner : Span} (hs : s.start.offset < s.stop.offset)
    (hinner : inner.start.offset < inner.stop.offset) (hcontains : t.contains inner = true)
    (hstart : inner.start.offset = s.start.offset) : ¬ s.Apart t := by
  unfold Span.contains at hcontains
  rw [Bool.and_eq_true, decide_eq_true_iff, decide_eq_true_iff] at hcontains
  unfold Span.Apart
  omega

/-- **The calls of a later value start elsewhere** than a value that is a call. -/
theorem SourceText.SeparatesValues.start_ne (h : src.SeparatesValues spec)
    {before after : List Members} {value other node : Members} {s t inner : Span}
    (hvalues : spec.nodesAt "values" = before ++ value :: after) (hother : other ∈ after)
    (hkind : value.hasKind "CallExpr" = true) (hs : src.span value = .ok s)
    (ht : src.span other = .ok t) (hnode : node ∈ (Json.obj other).nodes)
    (hcall : node.hasKind "CallExpr" = true) (hinner : src.span node = .ok inner) :
    inner.start.offset ≠ s.start.offset := by
  have hvalue : value ∈ spec.nodesAt "values" := by rw [hvalues]; simp
  have hmem : other ∈ spec.nodesAt "values" := by rw [hvalues]; simp [hother]
  have hapart := h.apart
  rw [hvalues, List.pairwise_append, List.pairwise_cons] at hapart
  have hcontains : t.contains inner = true := by
    rcases List.mem_cons.mp hnode with rfl | hbelow
    · obtain rfl := Except.ok.inj (ht.symm.trans hinner)
      simp [Span.contains]
    · exact h.nested other hmem other List.mem_cons_self node hbelow t ht inner hinner
  intro hstart
  exact not_apart_of_contains (h.nonempty value hvalue value List.mem_cons_self hkind s hs)
    (h.nonempty other hmem node hnode hcall inner hinner) hcontains hstart
    (hapart.2.1.1 other hother s hs t ht)

/-- **The call that is found for a value** is the last one that starts where the value starts. -/
theorem initialCall_eq_some {value : Members} {call : CallSite} {before after : List CallSite}
    {found : Option CallSite} (h : initialCall src calls value = .ok found)
    (hkind : value.hasKind "CallExpr" = true) (hcalls : calls = before ++ call :: after)
    (hspan : src.span value = .ok call.span)
    (hafter : ∀ other ∈ after, other.span.start.offset ≠ call.span.start.offset) :
    found = some call := by
  obtain ⟨start, hstart, hrest⟩ := bind_eq_ok.mp hspan
  obtain ⟨stop, -, hdone⟩ := bind_eq_ok.mp hrest
  have hcallStart : call.span.start = start :=
    congrArg Span.start (Except.ok.inj hdone).symm
  rw [initialCall, if_pos hkind] at h
  obtain ⟨position, hposition, hfound⟩ := bind_eq_ok.mp h
  obtain rfl := Except.ok.inj (hstart.symm.trans hposition)
  have hnone : (after.filter fun other => other.span.start.offset == start.offset) = [] :=
    List.filter_eq_nil_iff.mpr fun other hother => by
      simpa [hcallStart] using hafter other hother
  rw [← Except.ok.inj hfound, hcalls, List.filter_append,
    List.filter_cons_of_pos (by simp [hcallStart]), hnone, List.getLast?_append]
  rfl

/-- A value that is no call has none. -/
theorem initialCall_eq_none {value : Members} {found : Option CallSite}
    (h : initialCall src calls value = .ok found) (hkind : value.hasKind "CallExpr" = false) :
    found = none := by
  rw [initialCall, hkind] at h
  exact (Except.ok.inj h).symm

/-! ## Declaring the names of a specification -/

section Names

variable {kind : DeclKind} {scope : Nat} {anchor : Span} {docs : DocComments}
  {draft later : Draft}

/-- A declaration of the name at a place, with the call that is looked up for its value. -/
structure Declaration.FoundFor (decl : Declaration) (src : SourceText) (calls : List CallSite)
    (scope : Nat) (name : Members) (value : Option Members) : Prop where
  name_eq : decl.name = name.name
  nameSpan_eq : src.span name = .ok decl.nameSpan
  scope_eq : decl.scope = scope
  found : ∀ v, value = some v → initialCall src calls v = .ok decl.initCall
  absent : value = none → decl.initCall = none

theorem run_recordIdentifier {value : Json} {selector : Bool}
    (h : (recordIdentifier src value selector).run draft = .ok ((), later)) :
    later.calls = draft.calls ∧ later.declarations = draft.declarations := by
  unfold recordIdentifier at h
  split at h
  case h_2 => exact (Prod.mk.inj (Except.ok.inj h)).2 ▸ ⟨rfl, rfl⟩
  case h_1 node =>
    dsimp only at h
    split at h
    case isFalse => exact (Prod.mk.inj (Except.ok.inj h)).2 ▸ ⟨rfl, rfl⟩
    case isTrue =>
      obtain ⟨span, -, h⟩ := run_lift_bind_eq_ok.mp h
      exact (Prod.mk.inj (Except.ok.inj h)).2 ▸ ⟨rfl, rfl⟩

/-- A name is declared, unless it is blank. -/
theorem run_declareValue {index : Nat} {name : Members} {value : Option Members}
    (h : (declareValue src kind scope anchor docs calls index name value).run draft =
      .ok ((), later)) :
    later.calls = draft.calls ∧
      if name.name != "_" then ∃ decl : Declaration, decl.FoundFor src calls scope name value ∧
        later.declarations = draft.declarations ++ [decl]
      else later.declarations = draft.declarations := by
  unfold declareValue at h
  obtain ⟨_, recorded, hrecord, h⟩ := run_bind_eq_ok.mp h
  obtain ⟨hcalls, hdecls⟩ := run_recordIdentifier hrecord
  rw [← hcalls, ← hdecls]
  split
  case isFalse hblank =>
    rw [if_neg hblank] at h
    exact (Prod.mk.inj (Except.ok.inj h)).2 ▸ ⟨rfl, rfl⟩
  case isTrue hnamed =>
    rw [if_pos hnamed] at h
    have hdeclared : ∀ initCall, (do
        let nameSpan ← src.span name
        declare {
          name := name.name, kind, exported := scope == 0 && isExported name.name, scope
          span := if index = 0 then anchor else ⟨nameSpan.start, anchor.stop⟩
          nameSpan, doc := docs.doc, detachedDoc := docs.detached, groupDoc := docs.group
          initCall } : TreeReader Unit).run recorded = .ok ((), later) →
        (∀ v, value = some v → initialCall src calls v = .ok initCall) →
        (value = none → initCall = none) → later.calls = recorded.calls ∧ ∃ decl : Declaration,
          decl.FoundFor src calls scope name value ∧
            later.declarations = recorded.declarations ++ [decl] := by
      intro initCall hrun hfound habsent
      obtain ⟨nameSpan, hspan, hrun⟩ := run_lift_bind_eq_ok.mp hrun
      obtain ⟨-, rfl⟩ := Prod.mk.inj (Except.ok.inj hrun)
      exact ⟨rfl, _, ⟨rfl, hspan, rfl, hfound, habsent⟩, rfl⟩
    cases value with
    | some value =>
      obtain ⟨initCall, hfound, h⟩ := run_lift_bind_eq_ok.mp h
      exact hdeclared initCall h (fun v hv => Option.some.inj hv ▸ hfound) nofun
    | none => exact hdeclared none h nofun fun _ => rfl

/-- **The names of a specification are declared** one after the other, each with the call that is
looked up for its value. -/
theorem run_forM_declareValue {places : List (Members × Nat)} (value : Nat → Option Members)
    (h : (places.forM fun (name, index) =>
      declareValue src kind scope anchor docs calls index name (value index)).run draft =
        .ok ((), later)) :
    later.calls = draft.calls ∧ ∃ block, later.declarations = draft.declarations ++ block ∧
      List.Forall₂ (fun place decl => decl.FoundFor src calls scope place.1 (value place.2))
        (places.filter fun place => place.1.name != "_") block := by
  induction places generalizing draft with
  | nil => exact (Prod.mk.inj (Except.ok.inj h)).2 ▸ ⟨rfl, [], (List.append_nil _).symm, .nil⟩
  | cons place places ih =>
    obtain ⟨name, index⟩ := place
    obtain ⟨_, middle, hfirst, hrest⟩ := run_bind_eq_ok.mp h
    obtain ⟨hcalls, hdeclared⟩ := run_declareValue hfirst
    obtain ⟨hlater, block, hblock, hnames⟩ := ih hrest
    refine ⟨hlater.trans hcalls, ?_⟩
    by_cases hnamed : (name.name != "_") = true
    · rw [if_pos hnamed] at hdeclared
      obtain ⟨decl, hdecl, hdecls⟩ := hdeclared
      refine ⟨decl :: block, by rw [hblock, hdecls, List.append_assoc]; rfl, ?_⟩
      rw [List.filter_cons, if_pos hnamed]
      exact .cons hdecl hnames
    · rw [if_neg hnamed] at hdeclared
      refine ⟨block, by rw [hblock, hdeclared], ?_⟩
      rwa [List.filter_cons, if_neg hnamed]

end Names

end GoConventions
