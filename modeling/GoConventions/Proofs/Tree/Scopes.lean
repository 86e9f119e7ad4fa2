import GoConventions.Proofs.Tree.File
import GoConventions.Proofs.Tree.ScopeLists

/-!
# The scopes of a model

The scopes of every model that is read form a proper tree (`properScopes_of_readTree`): the scope of
the file is the root, parents come before their children, depths count the blocks within a function,
and every declaration lies in its scope.  The lists of children and declarations are those that the
walk has kept (`listsContents_ofHistory`).  Going up the parents from a scope therefore ends, and
finds the nearest function (`SourceUnit.Encloses`).

## Main definitions

* `SourceUnit.ScopeOpeners`: the nodes that have opened the scopes of a model.
* `SourceUnit.ProperScopes`: the scopes of a model form a proper tree.
* `SourceUnit.Encloses`: what going up the parents from a scope finds, without a bound on the steps.

## Main results

* `properScopes_of_readTree`: the scopes of a model that has been read are such a tree, and
  `enclosingFunction?` is what going up finds.
-/

namespace GoConventions

/-! ## Proper trees of scopes -/

namespace SourceUnit

variable (unit : SourceUnit)

/-- The nodes that have opened the scopes of a model, each node at most one scope: every scope but
that of the file stands in a scope opened around its node, and its depth counts the blocks around it
within its function.  A clause adds none, since its statement has been counted. -/
structure ScopeOpeners (tree : Members) (openers : List Members) : Prop where
  length_eq : openers.length = unit.scopes.length
  subperm : openers.Subperm (Json.obj tree).nodes
  stands : ∀ (id : Nat) (scope : Scope) (opener : Members),
    unit.scopes[id]? = some scope → openers[id]? = some opener → id ≠ 0 →
    ∃ above parent outer, scope.parent = some above ∧ unit.scopes[above]? = some parent ∧
      openers[above]? = some outer ∧ opener ∈ outer.inner ∧
      unit.span opener = .ok scope.span ∧ scope.kind = opener.scopeKind ∧
      scope.depth = if scope.kind = .function then 0 else
        if opener.isClause then parent.depth else parent.depth + 1

/-- The scopes of a model form a proper tree, and each declaration lies in one of them. -/
structure ProperScopes (tree : Members) : Prop where
  id_eq : ∀ (id : Nat) (scope : Scope), unit.scopes[id]? = some scope → scope.id = id
  /-- The first scope is that of the file. -/
  file : ∃ root, unit.scopes[0]? = some root ∧ root.kind = .file ∧ root.parent = none ∧
    root.depth = 0
  /-- Every other scope has a parent before it, which lists it once. -/
  parents : ∀ (id : Nat) (scope : Scope), unit.scopes[id]? = some scope → id ≠ 0 →
    ∃ above parent, scope.parent = some above ∧ above < id ∧ unit.scopes[above]? = some parent ∧
      parent.children.count id = 1
  /-- The children of a scope are in ascending order, and it is their parent. -/
  children : ∀ (id : Nat) (scope : Scope), unit.scopes[id]? = some scope →
    scope.children.Pairwise (· < ·) ∧
    ∀ child ∈ scope.children, ∃ inner, unit.scopes[child]? = some inner ∧ inner.parent = some id
  opened : ∃ openers, unit.ScopeOpeners tree openers
  /-- The declarations of a scope are in ascending order. -/
  declarations : ∀ (id : Nat) (scope : Scope), unit.scopes[id]? = some scope →
    scope.declarations.Pairwise (· < ·) ∧
    ∀ index ∈ scope.declarations, index < unit.declarations.length
  /-- A declaration is listed by its scope and by no other. -/
  owners : ∀ (index : Nat) (decl : Declaration), unit.declarations[index]? = some decl →
    (∃ owner, unit.scopes[decl.scope]? = some owner ∧ owner.declarations.count index = 1) ∧
      ∀ (id : Nat) (scope : Scope), unit.scopes[id]? = some scope →
        index ∈ scope.declarations → id = decl.scope
  /-- The bodies are distinct scopes of functions in the scope of the file. -/
  bodies : (unit.declarations.filterMap (·.bodyScope)).Nodup ∧
    ∀ decl ∈ unit.declarations, ∀ body, decl.bodyScope = some body →
      ∃ scope, unit.scopes[body]? = some scope ∧ scope.kind = .function ∧ scope.parent = some 0

/-- What going up the parents from a scope finds: the first function scope on the way, the scope
itself included, or none. -/
inductive Encloses : Nat → Option Scope → Prop where
  | found {id : Nat} {scope : Scope} (hscope : unit.scopes[id]? = some scope)
      (hkind : scope.kind = .function) : Encloses id (some scope)
  | outermost {id : Nat} {scope : Scope} (hscope : unit.scopes[id]? = some scope)
      (hkind : scope.kind ≠ .function) (hparent : scope.parent = none) : Encloses id none
  | up {id above : Nat} {scope : Scope} {result : Option Scope}
      (hscope : unit.scopes[id]? = some scope) (hkind : scope.kind ≠ .function)
      (hparent : scope.parent = some above) (habove : Encloses above result) : Encloses id result

end SourceUnit

/-! ## Going up -/

section Ancestry

variable {unit : SourceUnit}

/-- One step upwards: the scope itself if it is that of a function, and else what going up from its
parent finds. -/
theorem SourceUnit.encloses_iff {id : Nat} {scope : Scope} {result : Option Scope}
    (hscope : unit.scopes[id]? = some scope) :
    unit.Encloses id result ↔
      (scope.kind = .function ∧ result = some scope) ∨
      (scope.kind ≠ .function ∧ scope.parent = none ∧ result = none) ∨
      (scope.kind ≠ .function ∧ ∃ above, scope.parent = some above ∧
        unit.Encloses above result) := by
  constructor
  · intro h
    cases h with
    | found hfound hkind =>
      obtain rfl := Option.some.inj (hscope.symm.trans hfound)
      exact .inl ⟨hkind, rfl⟩
    | outermost hfound hkind hparent =>
      obtain rfl := Option.some.inj (hscope.symm.trans hfound)
      exact .inr (.inl ⟨hkind, hparent, rfl⟩)
    | up hfound hkind hparent habove =>
      obtain rfl := Option.some.inj (hscope.symm.trans hfound)
      exact .inr (.inr ⟨hkind, _, hparent, habove⟩)
  · rintro (⟨hkind, rfl⟩ | ⟨hkind, hparent, rfl⟩ | ⟨hkind, above, hparent, habove⟩)
    · exact .found hscope hkind
    · exact .outermost hscope hkind hparent
    · exact .up hscope hkind hparent habove

/-- Going up finds one thing only. -/
theorem SourceUnit.Encloses.unique {id : Nat} {result other : Option Scope}
    (h : unit.Encloses id result) (hother : unit.Encloses id other) : result = other := by
  induction h generalizing other with
  | found hscope hkind =>
    rw [SourceUnit.encloses_iff hscope] at hother
    simp only [hkind, ne_eq, not_true_eq_false, false_and, or_false, true_and] at hother
    exact hother.symm
  | outermost hscope hkind hparent =>
    rw [SourceUnit.encloses_iff hscope] at hother
    simp only [hkind, hparent, ne_eq, not_false_eq_true, true_and, false_and, false_or,
      reduceCtorEq, exists_false, or_false] at hother
    exact hother.symm
  | up hscope hkind hparent _ ih =>
    rw [SourceUnit.encloses_iff hscope] at hother
    simp only [hkind, hparent, ne_eq, not_false_eq_true, true_and, false_and, false_or,
      reduceCtorEq, Option.some.injEq, exists_eq_left'] at hother
    exact ih hother

/-- When parents come before their children, a scope's index bounds the steps upwards. -/
theorem encloses_find?_ancestryWithin
    (hparents : ∀ (id : Nat) (scope : Scope), unit.scopes[id]? = some scope →
      ∀ above, scope.parent = some above → above < id ∧ above < unit.scopes.length) (id : Nat) :
    ∀ steps, id < steps → id < unit.scopes.length →
      unit.Encloses id ((unit.ancestryWithin steps id).find? (·.kind == .function)) := by
  induction id using Nat.strongRecOn with
  | ind id ih =>
    intro steps hsteps hid
    obtain ⟨steps, rfl⟩ : ∃ rest, steps = rest + 1 := ⟨steps - 1, by omega⟩
    have hscope := List.getElem?_eq_getElem hid
    rw [SourceUnit.ancestryWithin, hscope]
    dsimp only
    by_cases hkind : (unit.scopes[id]).kind = .function
    · rw [List.find?_cons_of_pos (by simpa using hkind)]
      exact .found hscope hkind
    · rw [List.find?_cons_of_neg (by simpa using hkind)]
      cases hparent : (unit.scopes[id]).parent with
      | none => exact .outermost hscope hkind hparent
      | some above =>
        obtain ⟨hlt, habove⟩ := hparents id _ hscope above hparent
        exact .up hscope hkind hparent (ih above hlt steps (by omega) habove)

end Ancestry

/-! ## Scopes in a history -/

section Histories

variable {src : SourceText} {tree : Members} {history : TreeHistory}

/-- An entry of a filtered list comes after as many entries as its index says. -/
theorem exists_append_of_getElem?_filterMap {α β : Type} {f : α → Option β} {xs : List α}
    {index : Nat} {b : β}
    (h : (xs.filterMap f)[index]? = some b) :
    ∃ before x after, xs = before ++ x :: after ∧ f x = some b ∧
      (before.filterMap f).length = index := by
  induction xs generalizing index with
  | nil => cases h
  | cons x xs ih =>
    cases hx : f x with
    | none =>
      rw [List.filterMap_cons_none hx] at h
      obtain ⟨before, y, after, rfl, hy, hlength⟩ := ih h
      exact ⟨x :: before, y, after, rfl, hy, by rwa [List.filterMap_cons_none hx]⟩
    | some c =>
      rw [List.filterMap_cons_some hx] at h
      cases index with
      | zero =>
        rw [List.getElem?_cons_zero] at h
        exact ⟨[], x, xs, rfl, hx.trans h, rfl⟩
      | succ index =>
        rw [List.getElem?_cons_succ] at h
        obtain ⟨before, y, after, rfl, hy, hlength⟩ := ih h
        refine ⟨x :: before, y, after, rfl, hy, ?_⟩
        rw [List.filterMap_cons_some hx, List.length_cons, hlength]

/-- The rule under which a scope has been opened, at the events before it. -/
theorem scopeFollows_of_getElem? {id : Nat} {opened : OpenScope}
    (hvalid : Continues src (.obj tree) [] history)
    (hopened : history.opened[id]? = some opened) :
    ∃ before opener after, history = before ++ .scope opener opened :: after ∧
      before.opened.length = id ∧ ScopeFollows src (.obj tree) before opener opened := by
  obtain ⟨before, event, after, rfl, hevent, hlength⟩ := exists_append_of_getElem?_filterMap hopened
  have hfollows := follows_of_continues hvalid
  cases event with
  | scope opener found =>
    obtain rfl := Option.some.inj hevent
    exact ⟨before, opener, after, rfl, hlength, hfollows⟩
  | _ => cases hevent

/-- The scopes of a draft are those that have been opened. -/
theorem getElem?_opened (history : TreeHistory) (id : Nat) :
    history.opened[id]? = (Draft.ofHistory history).scopes[id]?.map Scope.opened := by
  rw [← map_opened_ofHistory, List.getElem?_map]

theorem depthIn_ofHistory {kind : ScopeKind} {above : Nat} {parent : OpenScope} {deepens : Bool}
    (hparent : history.opened[above]? = some parent) :
    (Draft.ofHistory history).depthIn kind (some above) deepens =
      if kind = .function then 0 else if deepens then parent.depth + 1 else parent.depth := by
  rw [getElem?_opened] at hparent
  obtain ⟨scope, hscope, rfl⟩ := Option.map_eq_some_iff.mp hparent
  unfold Draft.depthIn
  cases kind <;> cases deepens <;> simp [hscope, Scope.opened]

/-- Every scope but the first stands in one before it. -/
theorem stands_of_getElem? {id : Nat} {opened : OpenScope} {opener : Members}
    (hvalid : Continues src (.obj tree) [] history) (hid : id ≠ 0)
    (hopened : history.opened[id]? = some opened)
    (hopener : history.openers[id]? = some opener) :
    ∃ above parent outer, opened.parent = some above ∧ above < id ∧
      history.opened[above]? = some parent ∧
      history.openers[above]? = some outer ∧ opener ∈ outer.inner ∧
      src.span opener = .ok opened.span ∧ opened.kind = opener.scopeKind ∧
      opened.depth = if opened.kind = .function then 0 else
        if opener.isClause then parent.depth else parent.depth + 1 := by
  obtain ⟨before, node, after, rfl, hlength, hfollows⟩ := scopeFollows_of_getElem? hvalid hopened
  have hnode : node = opener := by
    have hindex : before.openers.length = id := before.length_openers.trans hlength
    rw [TreeHistory.openers_append, List.getElem?_append_right (Nat.le_of_eq hindex), hindex,
      Nat.sub_self] at hopener
    exact Option.some.inj hopener
  subst hnode
  cases hfollows with
  | file hfirst _ _ =>
    rw [hfirst] at hlength
    exact absurd hlength.symm hid
  | inner above hparent hholds hspan hkind hdepth =>
    obtain ⟨outer, -, houter, hinner⟩ := hholds
    have hlt : above < id := by
      rw [← hlength, ← before.length_openers]
      exact (List.getElem?_eq_some_iff.mp houter).1
    obtain ⟨parent, hparentScope⟩ : ∃ parent, before.opened[above]? = some parent :=
      ⟨_, List.getElem?_eq_getElem (by rwa [hlength])⟩
    refine ⟨above, parent, outer, hparent, hlt, ?_, ?_, hinner, hspan, hkind, ?_⟩
    · rw [TreeHistory.opened_append, List.getElem?_append_left (by rwa [hlength])]
      exact hparentScope
    · rw [TreeHistory.openers_append,
        List.getElem?_append_left (by rwa [before.length_openers, hlength])]
      exact houter
    · rw [hdepth, depthIn_ofHistory hparentScope]
      cases node.isClause <;> rfl

/-- The bodies of functions are distinct. -/
theorem nodup_bodies (hvalid : Continues src (.obj tree) [] history) : history.bodies.Nodup := by
  induction history using List.reverseRecOn with
  | nil => exact List.nodup_nil
  | append_singleton history event ih =>
    obtain ⟨hhistory, hfollows, -⟩ := continues_append.mp hvalid
    rw [TreeHistory.bodies_append]
    refine (ih hhistory).append ?_ ?_
    · cases hbody : event.body? with
      | none =>
        rw [TreeHistory.bodies, List.filterMap_cons_none hbody]
        exact List.nodup_nil
      | some body =>
        rw [TreeHistory.bodies, List.filterMap_cons_some hbody]
        exact List.nodup_singleton body
    · -- A function is declared with a body that no function before it has.
      intro body hearlier hnew
      obtain ⟨event, hevent, hbody⟩ := List.mem_filterMap.mp hnew
      obtain rfl := List.mem_singleton.mp hevent
      cases event with
      | declaration name decl => exact (hfollows.1.body body hbody).1 hearlier
      | heading decl =>
        have hnone : decl.bodyScope = none := HeadingFollows.body hfollows
        rw [TreeEvent.body?, TreeEvent.declaration?, Option.bind_some, hnone] at hbody
        cases hbody
      | _ => cases hbody

/-- The body that a declaration declares is the scope of a function in that of the file. -/
theorem exists_body_of_mem_declarations {decl : Declaration}
    (hvalid : Continues src (.obj tree) [] history)
    (hdecl : decl ∈ (Draft.ofHistory history).declarations) {body : Nat}
    (hbody : decl.bodyScope = some body) :
    ∃ opened, history.opened[body]? = some opened ∧
      opened.kind = .function ∧ opened.parent = some 0 := by
  rw [declarations_ofHistory] at hdecl
  obtain ⟨event, hevent, hdeclared⟩ := List.mem_filterMap.mp hdecl
  obtain ⟨before, after, rfl, hfollows⟩ := follows_of_mem hvalid hevent
  cases event with
  | declaration name found =>
    obtain rfl := Option.some.inj hdeclared
    obtain ⟨-, opened, hopened, hfunction⟩ := hfollows.1.body body hbody
    refine ⟨opened, ?_, hfunction⟩
    rw [TreeHistory.opened_append,
      List.getElem?_append_left (List.getElem?_eq_some_iff.mp hopened).1]
    exact hopened
  | heading found =>
    obtain rfl := Option.some.inj hdeclared
    have hheading : HeadingFollows src (.obj tree) before found := hfollows
    rw [hheading.body] at hbody
    cases hbody
  | _ => cases hdeclared

end Histories

/-! ## The scopes of a model -/

section Models

variable {path text : String} {tree : Members} {unit : SourceUnit} {history : TreeHistory}

theorem getElem?_opened_of_tells (htells : history.Tells tree unit) (id : Nat) :
    history.opened[id]? = unit.scopes[id]?.map Scope.opened := by
  rw [getElem?_opened, htells.scopes]

theorem exists_scope_of_opened (htells : history.Tells tree unit) {id : Nat} {opened : OpenScope}
    (h : history.opened[id]? = some opened) :
    ∃ scope, unit.scopes[id]? = some scope ∧ scope.opened = opened := by
  rw [getElem?_opened_of_tells htells] at h
  exact Option.map_eq_some_iff.mp h

theorem scopeOpeners_of_tells (htells : history.Tells tree unit) :
    unit.ScopeOpeners tree history.openers := by
  refine ⟨?_, htells.once .scope, ?_⟩
  · rw [history.length_openers, htells.scopes, length_scopes_ofHistory]
  · intro id scope opener hscope hopener hid
    have hopened : history.opened[id]? = some scope.opened := by
      rw [getElem?_opened_of_tells htells, hscope]
      rfl
    obtain ⟨above, parent, outer, hparent, -, habove, houter, hinner, hspan, hkind, hdepth⟩ :=
      stands_of_getElem? htells.continues hid hopened hopener
    obtain ⟨found, hfound, rfl⟩ := exists_scope_of_opened htells habove
    exact ⟨above, found, outer, hparent, hfound, houter, hinner, hspan, hkind, hdepth⟩

section Lists

variable (htells : history.Tells tree unit) {id : Nat} {scope : Scope}
include htells

/-- The lists that the walk has kept are those of the model. -/
theorem listsContents_of_tells : (Draft.ofHistory history).ListsContents :=
  listsContents_ofHistory htells.continues

theorem children_of_tells (h : unit.scopes[id]? = some scope) :
    scope.children =
      indexesWhere (fun other => other.parent == some id) (unit.scopes.map Scope.opened) := by
  rw [htells.scopes] at h ⊢
  exact (listsContents_of_tells htells).children_eq id scope h

theorem declarations_of_tells (h : unit.scopes[id]? = some scope) :
    scope.declarations = indexesWhere (fun decl => decl.scope == id) unit.declarations := by
  rw [htells.scopes] at h
  rw [htells.declarations]
  exact (listsContents_of_tells htells).declarations_eq id scope h

theorem mem_children_of_tells (h : unit.scopes[id]? = some scope) {child : Nat} :
    child ∈ scope.children ↔
      ∃ inner, unit.scopes[child]? = some inner ∧ inner.parent = some id := by
  rw [children_of_tells htells h, mem_indexesWhere]
  simp only [List.getElem?_map, Option.map_eq_some_iff, beq_iff_eq]
  constructor
  · rintro ⟨_, ⟨inner, hinner, rfl⟩, hparent⟩
    exact ⟨inner, hinner, hparent⟩
  · rintro ⟨inner, hinner, hparent⟩
    exact ⟨inner.opened, ⟨inner, hinner, rfl⟩, hparent⟩

theorem mem_declarations_of_tells (h : unit.scopes[id]? = some scope) {index : Nat} :
    index ∈ scope.declarations ↔
      ∃ decl, unit.declarations[index]? = some decl ∧ decl.scope = id := by
  rw [declarations_of_tells htells h, mem_indexesWhere]
  simp only [beq_iff_eq]

/-- Every scope but that of the file has a parent before it, which lists it once. -/
theorem exists_parent_of_tells (h : unit.scopes[id]? = some scope) (hid : id ≠ 0) :
    ∃ above parent, scope.parent = some above ∧ above < id ∧ unit.scopes[above]? = some parent ∧
      parent.children.count id = 1 := by
  have hlt := (List.getElem?_eq_some_iff.mp h).1
  obtain ⟨openers, hopeners⟩ : ∃ openers, unit.ScopeOpeners tree openers :=
    ⟨_, scopeOpeners_of_tells htells⟩
  have hopener := List.getElem?_eq_getElem (hopeners.length_eq ▸ hlt)
  obtain ⟨above, parent, outer, hparent, habove, -⟩ := hopeners.stands id scope _ h hopener hid
  have hbefore : above < id := by
    rw [htells.scopes] at h
    exact (listsContents_of_tells htells).parent_lt id scope h above hparent
  refine ⟨above, parent, hparent, hbefore, habove, ?_⟩
  have hmem : id ∈ parent.children := (mem_children_of_tells htells habove).mpr ⟨scope, h, hparent⟩
  rw [children_of_tells htells habove] at hmem ⊢
  exact count_indexesWhere_eq_one hmem

/-- A declaration is listed once by its scope. -/
theorem exists_owner_of_tells {index : Nat} {decl : Declaration}
    (hdecl : unit.declarations[index]? = some decl) :
    ∃ owner, unit.scopes[decl.scope]? = some owner ∧ owner.declarations.count index = 1 := by
  have hlt : decl.scope < unit.scopes.length := by
    rw [htells.scopes]
    rw [htells.declarations] at hdecl
    exact (listsContents_of_tells htells).scope_lt decl (List.mem_of_getElem? hdecl)
  have howner := List.getElem?_eq_getElem hlt
  refine ⟨_, howner, ?_⟩
  have hmem := (mem_declarations_of_tells htells howner).mpr ⟨decl, hdecl, rfl⟩
  rw [declarations_of_tells htells howner] at hmem ⊢
  exact count_indexesWhere_eq_one hmem

end Lists

/-- The bodies of functions are those of the history. -/
theorem filterMap_bodyScope_of_tells (htells : history.Tells tree unit) :
    unit.declarations.filterMap (·.bodyScope) = history.bodies := by
  rw [htells.declarations, declarations_ofHistory]
  exact List.filterMap_filterMap

theorem properScopes_of_tells (htells : history.Tells tree unit) : unit.ProperScopes tree := by
  constructor
  case id_eq =>
    intro id scope h
    rw [htells.scopes] at h
    exact (listsContents_of_tells htells).id_eq id scope h
  case file =>
    obtain ⟨later, hstarts⟩ := htells.starts
    have hopened : history.opened[0]? = some unit.fileScope := by
      rw [hstarts]
      rfl
    obtain ⟨root, hroot, hfile⟩ := exists_scope_of_opened htells hopened
    exact ⟨root, hroot, congrArg OpenScope.kind hfile, congrArg OpenScope.parent hfile,
      congrArg OpenScope.depth hfile⟩
  case parents => exact fun id scope h hid => exists_parent_of_tells htells h hid
  case children =>
    intro id scope h
    refine ⟨?_, fun child hchild => (mem_children_of_tells htells h).mp hchild⟩
    rw [children_of_tells htells h]
    exact pairwise_indexesWhere _ _
  case opened => exact ⟨history.openers, scopeOpeners_of_tells htells⟩
  case declarations =>
    intro id scope h
    refine ⟨?_, fun index hindex => ?_⟩
    · rw [declarations_of_tells htells h]
      exact pairwise_indexesWhere _ _
    · obtain ⟨decl, hdecl, -⟩ := (mem_declarations_of_tells htells h).mp hindex
      exact (List.getElem?_eq_some_iff.mp hdecl).1
  case owners =>
    intro index decl hdecl
    refine ⟨exists_owner_of_tells htells hdecl, fun id scope h hindex => ?_⟩
    obtain ⟨other, hother, hid⟩ := (mem_declarations_of_tells htells h).mp hindex
    obtain rfl := Option.some.inj (hdecl.symm.trans hother)
    exact hid.symm
  case bodies =>
    refine ⟨?_, fun decl hdecl body hbody => ?_⟩
    · rw [filterMap_bodyScope_of_tells htells]
      exact nodup_bodies htells.continues
    · rw [htells.declarations] at hdecl
      obtain ⟨opened, hopened, hkind, hparent⟩ :=
        exists_body_of_mem_declarations htells.continues hdecl hbody
      obtain ⟨scope, hscope, rfl⟩ := exists_scope_of_opened htells hopened
      exact ⟨scope, hscope, hkind, hparent⟩

/-- **The scopes of a model form a proper tree**: the scope of the file is its root, every other
scope follows its parent, which lists it once, depths count the blocks within a function, every
declaration is listed by its own scope alone, and the bodies of functions are distinct scopes in
that of the file.  Going up from a scope ends, and finds the nearest function. -/
theorem properScopes_of_readTree (h : readTree path text tree = .ok unit) :
    unit.ProperScopes tree ∧ ∀ id < unit.scopes.length, ∀ result,
      unit.Encloses id result ↔ result = unit.enclosingFunction? id := by
  obtain ⟨-, -, history, htells⟩ := exists_history_of_readTree h
  have hproper := properScopes_of_tells htells
  refine ⟨hproper, fun id hid result => ?_⟩
  have hencloses : unit.Encloses id (unit.enclosingFunction? id) := by
    refine encloses_find?_ancestryWithin (fun inner scope hscope above hparent => ?_) id (id + 1)
      (Nat.lt_succ_self id) hid
    by_cases hinner : inner = 0
    · -- The scope of the file has no parent.
      obtain ⟨root, hroot, -, hnone, -⟩ := hproper.file
      rw [hinner, hroot] at hscope
      rw [← Option.some.inj hscope, hnone] at hparent
      cases hparent
    · obtain ⟨other, parent, hother, hlt, hmem, -⟩ := hproper.parents inner scope hscope hinner
      obtain rfl : other = above := Option.some.inj (hother.symm.trans hparent)
      exact ⟨hlt, (List.getElem?_eq_some_iff.mp hmem).1⟩
  constructor
  · exact fun hresult => hresult.unique hencloses
  · rintro rfl
    exact hencloses

end Models

/-! ## A small file -/

/-- A function with a switch of one clause. -/
def clauseText : String := "package p; func f() { switch { case g(): } }"

def clauseTree : Members :=
  lineNode "File" 0 44 [
    ("package", .obj (lineNode "Ident" 8 9 [("name", .str "p")])),
    ("decls", .arr [.obj (lineNode "FuncDecl" 11 44 [
      ("name", .obj (lineNode "Ident" 16 17 [("name", .str "f")])),
      ("type", .obj (lineNode "FuncType" 11 19 [])),
      ("body", .obj (lineNode "BlockStmt" 20 44 [
        ("list", .arr [.obj (lineNode "SwitchStmt" 22 42 [
          ("body", .obj (lineNode "BlockStmt" 29 42 [
            ("list", .arr [.obj (lineNode "CaseClause" 31 40 [
              ("list", .arr [.obj (lineNode "CallExpr" 36 39 [
                ("fun", .obj (lineNode "Ident" 36 37 [("name", .str "g")]))])])])])]))])])]))])])]

/-- The clause lies as deep as its statement, in the function that encloses both. -/
theorem properScopes_clauseTree :
    ∃ unit, readTree "p.go" clauseText clauseTree = .ok unit ∧
      unit.scopes.map (·.depth) = [0, 0, 1, 1] ∧ unit.ProperScopes clauseTree ∧
      ∀ id < unit.scopes.length, ∀ result,
        unit.Encloses id result ↔ result = unit.enclosingFunction? id := by
  have hdepths : ((readTree "p.go" clauseText clauseTree).toOption.map fun unit =>
      unit.scopes.map (·.depth)) = some [0, 0, 1, 1] := by decide +kernel
  cases h : readTree "p.go" clauseText clauseTree with
  | error fault =>
    rw [h] at hdepths
    cases hdepths
  | ok unit =>
    rw [h] at hdepths
    exact ⟨unit, rfl, Option.some.inj hdepths, properScopes_of_readTree h⟩

end GoConventions
