import GoConventions.Proofs.Order.Sorted
import GoConventions.Proofs.Tree.Scopes

/-!
# The identifiers of a model

A reader records an identifier node at most once, so the identifiers of a model have the spans of
different nodes (`subperm_identSpans`).  In a tree whose identifier nodes have places of their own,
the identifiers of the model therefore follow each other (`pairwise_identifiers`), and the name of
every declaration is one of them, in the scope that the declaration belongs to.

## Main definitions

* `SourceText.identSpans`: the spans of the identifier nodes of a tree.
* `SourceUnit.WellPlaced`: nodes lie inside each other, names are identifiers, and identifiers have
  places of their own.

## Main results

* `pairwise_identifiers`: each identifier ends before the next one begins.
* `exists_identifier_of_mem_declarations`: the name of a declaration is recorded.
* `contains_nameSpan_of_mem_declarations`: the scope of a declaration holds its name.
-/

namespace GoConventions

/-- The span of an identifier node. -/
def SourceText.identSpan? (src : SourceText) (node : Members) : Option Span :=
  if node.hasKind "Ident" then (src.span node).toOption else none

/-- The spans of the identifier nodes of a tree, in the order of a walk. -/
def SourceText.identSpans (src : SourceText) (root : Json) : List Span :=
  root.nodes.filterMap src.identSpan?

/-- Whether a node lies inside another one, as far as both have a place. -/
def SourceText.liesIn (src : SourceText) (below node : Members) : Bool :=
  match src.span node, src.span below with
  | .ok outer, .ok inner => outer.contains inner
  | _, _ => true

/-- The tree of a model is laid out like the text: nodes lie inside the nodes above them, comments
left aside, the names of declarations are identifiers, and identifiers have places of their own. -/
structure SourceUnit.WellPlaced (unit : SourceUnit) (tree : Members) : Prop where
  nested : ∀ node ∈ (Json.obj tree).nodes, ∀ below ∈ node.inner, unit.liesIn below node = true
  named : ∀ node ∈ (Json.obj tree).nodes, ∀ name ∈ node.nameNodes,
    (∃ decl ∈ unit.declarations, decl.name = name.name ∧ unit.span name = .ok decl.nameSpan) →
      name.hasKind "Ident" = true
  nonempty : ∀ span ∈ unit.identSpans (.obj tree), span.start.offset < span.stop.offset
  disjoint : (unit.identSpans (.obj tree)).Pairwise fun s t => s.overlaps t = false

theorem SourceText.contains_of_liesIn {src : SourceText} {below node : Members}
    {outer inner : Span} (h : src.liesIn below node = true) (houter : src.span node = .ok outer)
    (hinner : src.span below = .ok inner) : outer.contains inner = true := by
  rwa [SourceText.liesIn, houter, hinner] at h

variable {src : SourceText} {tree : Members} {unit : SourceUnit} {history : TreeHistory}

/-! ## Recorded once -/

/-- Identifiers have the spans of the nodes that they come from. -/
theorem map_span_identifiers {events : TreeHistory}
    (h : ∀ node found, TreeEvent.identifier node found ∈ events →
      node.hasKind "Ident" = true ∧ src.span node = .ok found.span) :
    (events.filterMap TreeEvent.identifier?).map (·.span) =
      (events.filterMap (TreeEvent.source? .identifier)).filterMap src.identSpan? := by
  induction events with
  | nil => rfl
  | cons event events ih =>
    have hrest := ih fun node found hmem => h node found (List.mem_cons_of_mem _ hmem)
    cases event with
    | identifier node found =>
      obtain ⟨hident, hspan⟩ := h node found List.mem_cons_self
      have hsource : TreeEvent.source? .identifier (.identifier node found) = some node := rfl
      have hidentSpan : src.identSpan? node = some found.span := by
        rw [SourceText.identSpan?, if_pos hident, hspan]
        rfl
      rw [List.filterMap_cons_some hsource, List.filterMap_cons_some hidentSpan, ← hrest]
      rfl
    | _ => exact hrest

/-- **No node is recorded twice.** -/
theorem subperm_identSpans (htells : history.Tells tree unit) :
    (unit.identifiers.map (·.span)).Subperm (unit.identSpans (.obj tree)) := by
  have hperm : unit.identifiers.Perm (Draft.ofHistory history).identifiers := by
    rw [htells.identifiers]
    exact sortBy_perm _ _
  have hspans : (Draft.ofHistory history).identifiers.map (·.span) =
      (history.filterMap (TreeEvent.source? .identifier)).filterMap unit.identSpan? := by
    rw [identifiers_ofHistory]
    refine map_span_identifiers fun node found hmem => ?_
    obtain ⟨before, after, -, -, hident, -, hspan⟩ := follows_of_mem htells.continues hmem
    exact ⟨hident, hspan⟩
  -- Different events come from different nodes of the tree.
  obtain ⟨nodes, hnodes, hsub⟩ := htells.once .identifier
  refine ((hperm.map _).trans (List.Perm.of_eq hspans)).subperm.trans ?_
  exact ⟨_, hnodes.filterMap _, hsub.filterMap _⟩

/-- **Identifiers follow each other**: each ends before the next one begins. -/
theorem pairwise_identifiers (htells : history.Tells tree unit) (hplaced : unit.WellPlaced tree) :
    unit.identifiers.Pairwise fun a b =>
      a.span.start.offset < b.span.start.offset ∧ a.span.stop.offset ≤ b.span.start.offset := by
  obtain ⟨spans, hperm, hsub⟩ := subperm_identSpans htells
  have hdisjoint : unit.identifiers.Pairwise fun a b => a.span.overlaps b.span = false := by
    refine List.pairwise_map.mp (hperm.pairwise (hplaced.disjoint.sublist hsub) fun {s t} hst => ?_)
    rwa [Span.overlaps_comm]
  have hnonempty : ∀ a ∈ unit.identifiers, a.span.start.offset < a.span.stop.offset := fun a ha =>
    hplaced.nonempty _ (hsub.subset (hperm.mem_iff.mpr (List.mem_map_of_mem ha)))
  have hsorted : unit.identifiers.Pairwise fun a b =>
      a.span.start.offset ≤ b.span.start.offset := by
    rw [htells.identifiers]
    have hle := @sortBy_pairwise_isLE _ (compareOn fun a : Identifier => a.span.start.offset)
      inferInstance (Draft.ofHistory history).identifiers
    exact hle.imp fun {a b} hab => Int.isLE_compare.mp hab
  -- Of two disjoint spans that are not empty, the one that does not start later ends first.
  refine (hsorted.and hdisjoint).imp_of_mem fun {a b} ha hb hab => ?_
  have hafter : a.span.stop.offset ≤ b.span.start.offset := by
    have hfirst := hnonempty b hb
    simp only [Span.overlaps, Bool.and_eq_false_iff, decide_eq_false_iff_not, Int.not_lt] at hab
    omega
  exact ⟨Int.lt_of_lt_of_le (hnonempty a ha) hafter, hafter⟩

/-! ## Declared names -/

section Declared

variable {decl : Declaration}

/-- The rule under which a declaration has been made that is neither that of the package nor that of
an import. -/
theorem declarationFollows_of_mem (htells : history.Tells tree unit)
    (hdecl : decl ∈ unit.declarations) (hkind : decl.kind ≠ .package ∧ decl.kind ≠ .importName) :
    ∃ before name after, history = before ++ .declaration name decl :: after ∧
      DeclarationFollows unit.toSourceText (.obj tree) before name decl := by
  rw [htells.declarations, declarations_ofHistory] at hdecl
  obtain ⟨event, hevent, hdeclared⟩ := List.mem_filterMap.mp hdecl
  obtain ⟨before, after, hhistory, hfollows⟩ := follows_of_mem htells.continues hevent
  cases event with
  | declaration name found =>
    obtain rfl := Option.some.inj hdeclared
    exact ⟨before, name, after, hhistory, hfollows.1⟩
  | heading found =>
    obtain rfl := Option.some.inj hdeclared
    rcases HeadingFollows.kind hfollows with hpackage | himport
    · exact absurd hpackage hkind.1
    · exact absurd himport hkind.2
  | _ => cases hdeclared

/-- **The name of a declaration is recorded**, and not as a selector. -/
theorem exists_identifier_of_mem_declarations (htells : history.Tells tree unit)
    (hplaced : unit.WellPlaced tree) (hdecl : decl ∈ unit.declarations)
    (hkind : decl.kind ≠ .package ∧ decl.kind ≠ .importName) :
    ∃ identifier ∈ unit.identifiers, identifier.name = decl.name ∧
      identifier.span = decl.nameSpan ∧ identifier.selector = false := by
  obtain ⟨before, name, after, hhistory, hfollows⟩ := declarationFollows_of_mem htells hdecl hkind
  have hident : name.hasKind "Ident" = true := by
    rcases hfollows.source with hident | ⟨node, hnode, hname⟩
    · exact hident
    · exact hplaced.named node hnode name hname ⟨decl, hdecl, hfollows.name_eq, hfollows.nameSpan⟩
  have hmem : TreeEvent.declaration name decl ∈ history := by
    rw [hhistory]
    exact List.mem_append_right _ List.mem_cons_self
  obtain ⟨identifier, hrecorded, hselector⟩ := htells.named name decl hmem hident
  obtain ⟨_, _, -, -, -, hname, hspan⟩ := follows_of_mem htells.continues hrecorded
  refine ⟨identifier, ?_, hname.trans hfollows.name_eq.symm, ?_, hselector⟩
  · rw [htells.identifiers, mem_sortBy, identifiers_ofHistory]
    exact List.mem_filterMap.mpr ⟨_, hrecorded, rfl⟩
  · rw [hfollows.nameSpan] at hspan
    exact (Except.ok.inj hspan).symm

/-- **The scope of a local declaration holds its name.** -/
theorem contains_nameSpan_of_mem_declarations (htells : history.Tells tree unit)
    (hplaced : unit.WellPlaced tree) (hdecl : decl ∈ unit.declarations)
    (hkind : decl.kind ≠ .package ∧ decl.kind ≠ .importName) (hlocal : decl.scope ≠ 0) :
    ∃ scope, unit.scopes[decl.scope]? = some scope ∧ scope.span.contains decl.nameSpan = true := by
  obtain ⟨before, name, after, hhistory, hfollows⟩ := declarationFollows_of_mem htells hdecl hkind
  obtain ⟨outer, houter, hbefore, hname⟩ := hfollows.holds
  have hopeners := scopeOpeners_of_tells htells
  have hopener : history.openers[decl.scope]? = some outer := by
    rw [hhistory, TreeHistory.openers_append,
      List.getElem?_append_left (List.getElem?_eq_some_iff.mp hbefore).1]
    exact hbefore
  have hlt : decl.scope < unit.scopes.length := by
    rw [← hopeners.length_eq]
    exact (List.getElem?_eq_some_iff.mp hopener).1
  have hscope := List.getElem?_eq_getElem hlt
  -- The scope has the span of the node that has opened it, and the name stands below this node.
  obtain ⟨_, _, _, -, -, -, -, hspan, -⟩ := hopeners.stands _ _ _ hscope hopener hlocal
  exact ⟨_, hscope, SourceText.contains_of_liesIn (hplaced.nested outer houter name hname) hspan
    hfollows.nameSpan⟩

end Declared

end GoConventions
