import GoConventions.Proofs.Tree.History
import Mathlib.Data.List.Nodup

/-!
# What the scopes of a draft list

While a tree is read, every scope keeps two lists: the indexes of the scopes opened in it, and those
of the declarations made in it.  An entry is added to a list where a scope is opened or a
declaration is made, long before the walk has come to its end, and by steps that do not look at what
the list holds.  At every point of the walk these lists are nevertheless what could be read off the
parents and the scopes named by all that has been added (`Draft.ListsContents`): opening a scope
keeps this if its parent has been opened before (`ListsContents.withScope`), a declaration keeps it
if its scope has been (`ListsContents.withDeclaration`), and nothing else touches it.

## Main definitions

* `indexesWhere`: where the elements of a list stand that have a property.
* `Draft.ListsContents`: each scope of a draft lists the scopes and declarations in it, and no
  others.

## Main results

* `listsContents_ofHistory`: so it is in every draft that comes of a walk.
-/

namespace GoConventions

/-! ## Indexes in lists -/

section Indexes

variable {α : Type}

/-- The indexes of the elements of a list that satisfy `p`, in ascending order. -/
def indexesWhere (p : α → Bool) (xs : List α) : List Nat :=
  (xs.zipIdx.filter fun entry => p entry.1).map (·.2)

theorem pairwise_indexesWhere (p : α → Bool) (xs : List α) :
    (indexesWhere p xs).Pairwise (· < ·) := by
  unfold indexesWhere
  have hsublist := (List.filter_sublist (p := fun entry => p entry.1) (l := xs.zipIdx)).map Prod.snd
  rw [List.zipIdx_map_snd] at hsublist
  exact List.Pairwise.sublist hsublist List.pairwise_lt_range'

theorem mem_indexesWhere {p : α → Bool} {xs : List α} {index : Nat} :
    index ∈ indexesWhere p xs ↔ ∃ x, xs[index]? = some x ∧ p x = true := by
  unfold indexesWhere
  simp only [List.mem_map, List.mem_filter, List.mem_zipIdx_iff_getElem?]
  constructor
  · rintro ⟨⟨x, i⟩, ⟨hx, hp⟩, rfl⟩
    exact ⟨x, hx, hp⟩
  · rintro ⟨x, hx, hp⟩
    exact ⟨(x, index), ⟨hx, hp⟩, rfl⟩

theorem indexesWhere_concat (p : α → Bool) (xs : List α) (x : α) :
    indexesWhere p (xs ++ [x]) = indexesWhere p xs ++ if p x then [xs.length] else [] := by
  unfold indexesWhere
  rw [List.zipIdx_append, List.filter_append, List.map_append]
  cases hx : p x <;> simp [hx]

theorem indexesWhere_eq_nil {p : α → Bool} {xs : List α} (h : ∀ x ∈ xs, p x = false) :
    indexesWhere p xs = [] := by
  refine List.eq_nil_iff_forall_not_mem.mpr fun index hindex => ?_
  obtain ⟨x, hx, hp⟩ := mem_indexesWhere.mp hindex
  simp [h x (List.mem_of_getElem? hx)] at hp

/-- In ascending order nothing is listed twice. -/
theorem count_indexesWhere_eq_one {p : α → Bool} {xs : List α} {index : Nat}
    (hindex : index ∈ indexesWhere p xs) : (indexesWhere p xs).count index = 1 :=
  List.count_eq_one_of_mem ((pairwise_indexesWhere p xs).imp Nat.ne_of_lt) hindex

end Indexes

/-! ## One step -/

namespace Draft

/-- Every scope of a draft lists the scopes of which it is the parent and the declarations that
stand in it, each once and in order.  Parents come before their children, and declarations stand in
scopes that there are. -/
structure ListsContents (draft : Draft) : Prop where
  id_eq : ∀ (id : Nat) (scope : Scope), draft.scopes[id]? = some scope → scope.id = id
  parent_lt : ∀ (id : Nat) (scope : Scope), draft.scopes[id]? = some scope →
    ∀ above, scope.parent = some above → above < id
  children_eq : ∀ (id : Nat) (scope : Scope), draft.scopes[id]? = some scope →
    scope.children =
      indexesWhere (fun other => other.parent == some id) (draft.scopes.map Scope.opened)
  scope_lt : ∀ decl ∈ draft.declarations, decl.scope < draft.scopes.length
  declarations_eq : ∀ (id : Nat) (scope : Scope), draft.scopes[id]? = some scope →
    scope.declarations = indexesWhere (fun decl => decl.scope == id) draft.declarations

variable {draft : Draft} {id : Nat}

theorem length_withScope (draft : Draft) (opened : OpenScope) :
    (draft.withScope opened).scopes.length = draft.scopes.length + 1 := by
  simpa using congrArg List.length (map_opened_withScope draft opened)

theorem length_withDeclaration (draft : Draft) (decl : Declaration) :
    (draft.withDeclaration decl).scopes.length = draft.scopes.length := by
  simp [withDeclaration]

/-- Opening a scope adds it at the end and tells its parent. -/
theorem getElem?_withScope {opened : OpenScope}
    (hparent : ∀ above, opened.parent = some above → above < draft.scopes.length) (id : Nat) :
    (draft.withScope opened).scopes[id]? =
      if id = draft.scopes.length then some (opened.empty id) else
        draft.scopes[id]?.map fun scope =>
          if opened.parent = some id then scope.withChild draft.scopes.length else scope := by
  have hadded : (draft.scopes ++ [opened.empty draft.scopes.length])[id]? =
      if id = draft.scopes.length then some (opened.empty id) else draft.scopes[id]? := by
    rw [List.getElem?_append]
    split
    case isTrue hlt => rw [if_neg (Nat.ne_of_lt hlt)]
    case isFalse hle =>
      by_cases hid : id = draft.scopes.length
      · simp [hid]
      · rw [if_neg hid, List.getElem?_eq_none (by simp; omega), List.getElem?_eq_none (by omega)]
  unfold withScope
  dsimp only
  cases habove : opened.parent with
  | none => simp [hadded]
  | some above =>
    dsimp only
    rw [List.getElem?_modify, hadded]
    by_cases hid : id = draft.scopes.length
    · have hne : above ≠ id := hid ▸ Nat.ne_of_lt (hparent above habove)
      simp [hid, hid ▸ hne]
    · rw [if_neg hid, if_neg hid]
      by_cases heq : above = id <;> simp [heq]

theorem getElem?_withDeclaration (decl : Declaration) (id : Nat) :
    (draft.withDeclaration decl).scopes[id]? = draft.scopes[id]?.map fun scope =>
      if decl.scope = id then scope.withDeclaration draft.declarations.length else scope := by
  rw [withDeclaration, List.getElem?_modify]
  split <;> simp [*]

/-- No scope of the draft has the next scope as its parent. -/
theorem ListsContents.parent_ne_length (h : draft.ListsContents) {other : OpenScope}
    (hother : other ∈ draft.scopes.map Scope.opened) :
    other.parent ≠ some draft.scopes.length := by
  obtain ⟨scope, hscope, rfl⟩ := List.mem_map.mp hother
  obtain ⟨i, hi⟩ := List.getElem?_of_mem hscope
  intro hparent
  have hlt : i < draft.scopes.length := (List.getElem?_eq_some_iff.mp hi).1
  exact Nat.lt_asymm hlt (h.parent_lt i scope hi _ hparent)

/-- **Opening a scope keeps the lists** when its parent has been opened before. -/
theorem ListsContents.withScope (h : draft.ListsContents) {opened : OpenScope}
    (hparent : ∀ above, opened.parent = some above → above < draft.scopes.length) :
    (draft.withScope opened).ListsContents := by
  have hlast : opened.parent ≠ some draft.scopes.length := fun heq =>
    Nat.lt_irrefl _ (hparent _ heq)
  -- A scope of the new draft is the new one, or one of the old with what has been added to it.
  have hcases : ∀ id scope, (draft.withScope opened).scopes[id]? = some scope →
      (id = draft.scopes.length ∧ scope = opened.empty id) ∨
      ∃ old, draft.scopes[id]? = some old ∧ id < draft.scopes.length ∧
        scope = if opened.parent = some id then old.withChild draft.scopes.length else old := by
    intro id scope hscope
    rw [getElem?_withScope hparent] at hscope
    split at hscope
    case isTrue hid => exact .inl ⟨hid, (Option.some.inj hscope).symm⟩
    case isFalse hid =>
      obtain ⟨old, hold, rfl⟩ := Option.map_eq_some_iff.mp hscope
      exact .inr ⟨old, hold, (List.getElem?_eq_some_iff.mp hold).1, rfl⟩
  constructor
  case id_eq =>
    intro id scope hscope
    rcases hcases id scope hscope with ⟨rfl, rfl⟩ | ⟨old, hold, -, rfl⟩
    · rfl
    · split <;> exact h.id_eq id old hold
  case parent_lt =>
    intro id scope hscope above habove
    rcases hcases id scope hscope with ⟨rfl, rfl⟩ | ⟨old, hold, -, rfl⟩
    · exact hparent above habove
    · refine h.parent_lt id old hold above ?_
      split at habove <;> exact habove
  case children_eq =>
    intro id scope hscope
    rw [map_opened_withScope, indexesWhere_concat, List.length_map]
    rcases hcases id scope hscope with ⟨rfl, rfl⟩ | ⟨old, hold, -, rfl⟩
    · rw [indexesWhere_eq_nil fun other hother => by simpa using h.parent_ne_length hother,
        if_neg (by simpa using hlast)]
      rfl
    · rw [← h.children_eq id old hold]
      by_cases heq : opened.parent = some id <;> simp [heq, Scope.withChild]
  case scope_lt =>
    intro decl hdecl
    rw [length_withScope]
    exact Nat.lt_succ_of_lt (h.scope_lt decl hdecl)
  case declarations_eq =>
    intro id scope hscope
    rcases hcases id scope hscope with ⟨rfl, rfl⟩ | ⟨old, hold, -, rfl⟩
    · refine (indexesWhere_eq_nil fun decl hdecl => ?_).symm
      simpa using Nat.ne_of_lt (h.scope_lt decl hdecl)
    · split <;> exact h.declarations_eq id old hold

/-- **A declaration keeps the lists** when its scope has been opened before. -/
theorem ListsContents.withDeclaration (h : draft.ListsContents) {decl : Declaration}
    (hscope : decl.scope < draft.scopes.length) : (draft.withDeclaration decl).ListsContents := by
  have hcases : ∀ id scope, (draft.withDeclaration decl).scopes[id]? = some scope →
      ∃ old, draft.scopes[id]? = some old ∧ scope =
        if decl.scope = id then old.withDeclaration draft.declarations.length else old := by
    intro id scope hscope
    rw [getElem?_withDeclaration] at hscope
    obtain ⟨old, hold, rfl⟩ := Option.map_eq_some_iff.mp hscope
    exact ⟨old, hold, rfl⟩
  constructor
  case id_eq =>
    intro id scope hscope
    obtain ⟨old, hold, rfl⟩ := hcases id scope hscope
    split <;> exact h.id_eq id old hold
  case parent_lt =>
    intro id scope hscope above habove
    obtain ⟨old, hold, rfl⟩ := hcases id scope hscope
    refine h.parent_lt id old hold above ?_
    split at habove <;> exact habove
  case children_eq =>
    intro id scope hscope
    obtain ⟨old, hold, rfl⟩ := hcases id scope hscope
    rw [map_opened_withDeclaration, ← h.children_eq id old hold]
    split <;> rfl
  case scope_lt =>
    intro other hother
    rw [length_withDeclaration]
    rcases List.mem_append.mp hother with hother | hother
    · exact h.scope_lt other hother
    · exact List.mem_singleton.mp hother ▸ hscope
  case declarations_eq =>
    intro id scope hscope
    obtain ⟨old, hold, rfl⟩ := hcases id scope hscope
    have hadded : (draft.withDeclaration decl).declarations = draft.declarations ++ [decl] := rfl
    rw [hadded, indexesWhere_concat, ← h.declarations_eq id old hold]
    by_cases heq : decl.scope = id <;> simp [heq, Scope.withDeclaration]

end Draft

/-! ## The whole walk -/

section Walk

variable {src : SourceText} {root : Json} {h : TreeHistory} {draft : Draft}

theorem lt_length_of_holds {scope : Nat} {node : Members} (hholds : h.Holds root scope node) :
    scope < (Draft.ofHistory h).scopes.length := by
  obtain ⟨outer, -, hopener, -⟩ := hholds
  rw [length_scopes_ofHistory, ← h.length_openers]
  exact (List.getElem?_eq_some_iff.mp hopener).1

/-- An event keeps the lists if it obeys its rule. -/
theorem Draft.ListsContents.add {event : TreeEvent} (hlists : (Draft.ofHistory h).ListsContents)
    (hfollows : event.Follows src root h) : ((Draft.ofHistory h).add event).ListsContents := by
  cases event with
  | scope opener opened =>
    refine hlists.withScope fun above habove => ?_
    have hscope : ScopeFollows src root h opener opened := hfollows
    cases hscope with
    | file hfirst hroot hopened =>
      rw [hopened] at habove
      cases habove
    | inner parent hparent hholds hspan hkind hdepth =>
      obtain rfl := Option.some.inj (hparent.symm.trans habove)
      exact lt_length_of_holds hholds
  | declaration name decl => exact hlists.withDeclaration (lt_length_of_holds hfollows.1.holds)
  | heading decl =>
    have hheading : HeadingFollows src root h decl := hfollows
    refine hlists.withDeclaration ?_
    rw [hheading.scope, length_scopes_ofHistory, ← h.length_openers]
    exact List.length_pos_of_ne_nil hheading.opened
  | identifier node found => exact { hlists with }
  | call node found => exact { hlists with }
  | imports decl => exact { hlists with }

/-- **In every draft that comes of a walk each scope lists what is in it.** -/
theorem listsContents_ofHistory (hvalid : Continues src root [] h) :
    (Draft.ofHistory h).ListsContents := by
  -- The last event is the one that has been added last.
  induction h using List.reverseRecOn with
  | nil => constructor <;> simp [Draft.ofHistory]
  | append_singleton h event ih =>
    obtain ⟨hearlier, hfollows, -⟩ := continues_append.mp hvalid
    rw [ofHistory_concat]
    exact (ih hearlier).add hfollows

end Walk

end GoConventions
