import GoConventions.Proofs.Source.Position
import GoConventions.Proofs.Tree.Scopes

/-!
# The positions of a model

Every position that a model stores lies in the text and is the position of its offset
(`canonicalPositions_of_readTree`).  All of them are stated by nodes of the tree, apart from those
that are made up from the text.

## Main definitions

* `SourceUnit.CanonicalPositions`: the positions of a model are canonical, and stated by a tree.

## Main results

* `statesSpan_of_mem_nodeSpans`: the spans that are taken from a tree are stated by it.
* `canonicalPositions_of_readTree`: the positions of every model that has been read are canonical.
-/

namespace GoConventions

/-- The positions of a model are canonical: they lie in the text, are the positions of their
offsets, and those taken from the tree are as nodes of the tree state them. -/
structure SourceUnit.CanonicalPositions (unit : SourceUnit) (tree : Members) : Prop where
  canonical : ∀ position ∈ unit.positions, unit.IsCanonical position
  /-- A span starts where some node begins, and stops where some node ends. -/
  stated : ∀ span ∈ unit.nodeSpans,
    (∃ node ∈ (Json.obj tree).everyNode, unit.Places node "pos" span.start) ∧
      ∃ node ∈ (Json.obj tree).everyNode, unit.Places node "end" span.stop
  /-- The span of a node is where the node says. -/
  nodes : ∀ node ∈ (Json.obj tree).everyNode, ∀ span, unit.span node = .ok span →
    unit.Places node "pos" span.start ∧ unit.Places node "end" span.stop

variable {path text : String} {tree : Members} {unit : SourceUnit} {history : TreeHistory}

/-- The calls of a model have the spans of those that have been recorded. -/
theorem exists_spans_of_mem_calls (htells : history.Tells tree unit) {call : CallSite}
    (hcall : call ∈ unit.calls) :
    ∃ recorded ∈ (Draft.ofHistory history).calls, call.spans = recorded.spans := by
  obtain ⟨file, hcalls⟩ := htells.calls
  rw [hcalls] at hcall
  obtain ⟨recorded, hrecorded, rfl⟩ := List.mem_map.mp hcall
  refine ⟨recorded, hrecorded, ?_⟩
  unfold annotated
  dsimp only
  split <;> rfl

theorem statesSpan_of_mem_declarations (htells : history.Tells tree unit) {decl : Declaration}
    (hdecl : decl ∈ unit.declarations) :
    ∀ span ∈ decl.spans, unit.StatesSpan (.obj tree) span := by
  rw [htells.declarations, declarations_ofHistory] at hdecl
  obtain ⟨event, hevent, hdeclared⟩ := List.mem_filterMap.mp hdecl
  obtain ⟨before, -, -, hfollows⟩ := follows_of_mem htells.continues hevent
  cases event with
  | declaration name found =>
    obtain rfl := Option.some.inj hdeclared
    exact hfollows.1.spans
  | heading found =>
    obtain rfl := Option.some.inj hdeclared
    exact HeadingFollows.spans hfollows
  | _ => cases hdeclared

theorem statesSpan_of_mem_imports (htells : history.Tells tree unit) {decl : ImportDecl}
    (hdecl : decl ∈ unit.imports) :
    (∀ span ∈ decl.spans, unit.StatesSpan (.obj tree) span) ∧
      (∀ body, decl.bodySpan = some body →
        parenthesizedBody? unit.toSourceText decl.span = some body) ∧
      ∀ entry ∈ decl.entries, unit.AliasFollows (.obj tree) entry := by
  rw [htells.imports, imports_ofHistory] at hdecl
  obtain ⟨event, hevent, hfound⟩ := List.mem_filterMap.mp hdecl
  obtain ⟨before, -, -, hfollows⟩ := follows_of_mem htells.continues hevent
  cases event with
  | imports found =>
    obtain rfl := Option.some.inj hfound
    exact hfollows
  | _ => cases hfound

theorem statesSpan_of_mem_identifiers (htells : history.Tells tree unit) {identifier : Identifier}
    (hidentifier : identifier ∈ unit.identifiers) :
    unit.StatesSpan (.obj tree) identifier.span := by
  rw [htells.identifiers, mem_sortBy, identifiers_ofHistory] at hidentifier
  obtain ⟨event, hevent, hfound⟩ := List.mem_filterMap.mp hidentifier
  obtain ⟨before, -, -, hfollows⟩ := follows_of_mem htells.continues hevent
  cases event with
  | identifier node found =>
    obtain rfl := Option.some.inj hfound
    obtain ⟨hnode, -, -, hspan⟩ := hfollows
    exact SourceText.statesSpan_of_span (nodes_subset_everyNode _ hnode) hspan
  | _ => cases hfound

theorem statesSpan_of_mem_calls (htells : history.Tells tree unit) {call : CallSite}
    (hcall : call ∈ unit.calls) : ∀ span ∈ call.spans, unit.StatesSpan (.obj tree) span := by
  obtain ⟨recorded, hrecorded, hspans⟩ := exists_spans_of_mem_calls htells hcall
  rw [hspans]
  have hready : Ready unit.toSourceText (.obj tree) history 0 [] :=
    ⟨htells.continues, by simp⟩
  exact hready.spans_of_mem_calls recorded hrecorded

/-- All scopes but that of the file are spanned by nodes. -/
theorem statesSpan_of_mem_scopes (htells : history.Tells tree unit) {scope : Scope}
    (hscope : scope ∈ unit.scopes.drop 1) : unit.StatesSpan (.obj tree) scope.span := by
  obtain ⟨index, hindex⟩ := List.getElem?_of_mem hscope
  have hopened : history.opened[1 + index]? = some scope.opened := by
    rw [getElem?_opened_of_tells htells, ← List.getElem?_drop, hindex]
    rfl
  obtain ⟨before, opener, -, -, hlength, hfollows⟩ :=
    scopeFollows_of_getElem? htells.continues hopened
  cases hfollows with
  | file hfirst _ _ =>
    rw [hfirst] at hlength
    exact absurd hlength (Nat.ne_of_lt (Nat.lt_of_lt_of_le Nat.one_pos (Nat.le_add_right 1 index)))
  | inner above hparent hholds hspan _ _ =>
    exact SourceText.statesSpan_of_span (nodes_subset_everyNode _ hholds.mem_nodes) hspan

/-- **The tree states every span that is taken from it.** -/
theorem statesSpan_of_mem_nodeSpans (htells : history.Tells tree unit) :
    ∀ span ∈ unit.nodeSpans, unit.StatesSpan (.obj tree) span := by
  intro span hspan
  simp only [SourceUnit.nodeSpans, List.cons_append, List.append_assoc, List.mem_cons,
    List.mem_append, List.mem_map, List.mem_flatMap] at hspan
  rcases hspan with rfl | ⟨block, hblock, rfl⟩ | ⟨decl, hdecl, hspan⟩ | ⟨scope, hscope, rfl⟩ |
    ⟨block, hblock, rfl⟩ | ⟨decl, hdecl, hspan⟩ | ⟨identifier, hidentifier, rfl⟩ |
    ⟨call, hcall, hspan⟩
  · exact htells.package
  · exact htells.comments block (List.mem_append_left _ hblock)
  · exact statesSpan_of_mem_declarations htells hdecl span hspan
  · exact statesSpan_of_mem_scopes htells hscope
  · exact htells.comments block (List.mem_append_right _ hblock)
  · exact (statesSpan_of_mem_imports htells hdecl).1 span hspan
  · exact statesSpan_of_mem_identifiers htells hidentifier
  · exact statesSpan_of_mem_calls htells hcall span hspan

theorem isCanonical_of_statesSpan {src : SourceText} {root : Json} {span : Span}
    (hspan : src.StatesSpan root span) :
    src.IsCanonical span.start ∧ src.IsCanonical span.stop := by
  obtain ⟨⟨first, -, hstart⟩, last, -, hstop⟩ := hspan.states
  exact ⟨SourceText.isCanonical_of_position hstart, SourceText.isCanonical_of_position hstop⟩

/-- The first scope is that of the file. -/
theorem span_of_mem_take_scopes (htells : history.Tells tree unit) {scope : Scope}
    (hscope : scope ∈ unit.scopes.take 1) : scope.span = unit.wholeSpan := by
  obtain ⟨later, hstarts⟩ := htells.starts
  rw [List.take_one, Option.mem_toList, List.head?_eq_getElem?] at hscope
  have hopened := getElem?_opened_of_tells htells 0
  rw [hscope, hstarts] at hopened
  exact (congrArg OpenScope.span (Option.some.inj hopened)).symm

/-- The spans made up from the text: that of the file, and those between parentheses. -/
theorem isCanonical_of_mem_madeSpans (htells : history.Tells tree unit) {span : Span}
    (hspan : span ∈ unit.madeSpans) :
    unit.IsCanonical span.start ∧ unit.IsCanonical span.stop := by
  rcases List.mem_append.mp hspan with hspan | hspan
  · obtain ⟨scope, hscope, rfl⟩ := List.mem_map.mp hspan
    rw [span_of_mem_take_scopes htells hscope]
    exact SourceText.isCanonical_wholeSpan
  · obtain ⟨decl, hdecl, hbody⟩ := List.mem_filterMap.mp hspan
    obtain ⟨hspans, hparenthesized, -⟩ := statesSpan_of_mem_imports htells hdecl
    have hstart := (isCanonical_of_statesSpan (hspans decl.span List.mem_cons_self)).1
    exact SourceText.isCanonical_parenthesizedBody? hstart (hparenthesized span hbody)

/-- **The positions of a model are canonical**, and those of nodes are as the tree states them. -/
theorem canonicalPositions_of_readTree (h : readTree path text tree = .ok unit) :
    unit.text = text ∧ unit.CanonicalPositions tree := by
  obtain ⟨-, htext, history, htells⟩ := exists_history_of_readTree h
  refine ⟨htext, ?_, ?_, ?_⟩
  · intro position hposition
    obtain ⟨span, hspan, hend⟩ := List.mem_flatMap.mp hposition
    have hcanonical : unit.IsCanonical span.start ∧ unit.IsCanonical span.stop := by
      rcases List.mem_append.mp hspan with hnode | hmade
      · exact isCanonical_of_statesSpan (statesSpan_of_mem_nodeSpans htells span hnode)
      · exact isCanonical_of_mem_madeSpans htells hmade
    rcases List.mem_pair.mp hend with rfl | rfl
    · exact hcanonical.1
    · exact hcanonical.2
  · intro span hspan
    obtain ⟨⟨first, hfirst, hstart⟩, last, hlast, hstop⟩ :=
      (statesSpan_of_mem_nodeSpans htells span hspan).states
    exact ⟨⟨first, hfirst, SourceText.places_of_position hstart⟩,
      last, hlast, SourceText.places_of_position hstop⟩
  · intro node _ span hspan
    obtain ⟨hstart, hstop⟩ := SourceText.span_eq_ok.mp hspan
    exact ⟨SourceText.places_of_position hstart, SourceText.places_of_position hstop⟩

/-! ## A small file -/

/-- Two constants, the first with a name of two bytes. -/
def accentText : String := "package p; const é, b = 1, 2"

def accentTree : Members :=
  lineNode "File" 0 29 [
    ("package", .obj (lineNode "Ident" 8 9 [("name", .str "p")])),
    ("decls", .arr [.obj (lineNode "GenDecl" 11 29 [
      ("tok", .str "const"),
      ("specs", .arr [.obj (lineNode "ValueSpec" 17 29 [
        ("names", .arr [
          .obj (lineNode "Ident" 17 19 [("name", .str "é")]),
          .obj (lineNode "Ident" 21 22 [("name", .str "b")])]),
        ("values", .arr [
          .obj (lineNode "BasicLit" 25 26 [("value", .str "1")]),
          .obj (lineNode "BasicLit" 28 29 [("value", .str "2")])])])])])])]

/-- The second name begins at byte 21, which is character 20. -/
theorem canonicalPositions_accentTree :
    ∃ unit, readTree "p.go" accentText accentTree = .ok unit ∧
      unit.identifiers.map (·.span) =
        [⟨⟨1, 18, 17⟩, ⟨1, 19, 18⟩⟩, ⟨⟨1, 21, 20⟩, ⟨1, 22, 21⟩⟩] ∧
      unit.text = accentText ∧ unit.CanonicalPositions accentTree := by
  have hspans : ((readTree "p.go" accentText accentTree).toOption.map fun unit =>
      unit.identifiers.map (·.span)) =
        some [⟨⟨1, 18, 17⟩, ⟨1, 19, 18⟩⟩, ⟨⟨1, 21, 20⟩, ⟨1, 22, 21⟩⟩] := by decide +kernel
  cases h : readTree "p.go" accentText accentTree with
  | error fault =>
    rw [h] at hspans
    cases hspans
  | ok unit =>
    rw [h] at hspans
    exact ⟨unit, rfl, Option.some.inj hspans, canonicalPositions_of_readTree h⟩

end GoConventions
