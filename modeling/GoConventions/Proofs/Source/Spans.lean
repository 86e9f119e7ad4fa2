import GoConventions.Proofs.Result
import GoConventions.Proofs.Tree.Nodes
import GoConventions.Source.Unit

/-!
# The spans of a model

Every span that a model of a source file stores, part by part.  Nearly all of them are taken from
the nodes of a tree, from its beginning or its end; two are made up from the text: the span of the
file scope, and the range between the parentheses of an import declaration.

## Main definitions

* `SourceUnit.nodeSpans`, `SourceUnit.madeSpans`, `SourceUnit.positions`: the spans from the tree,
  those from the text, and the positions at the ends of both.
* `SourceText.StatesSpan`: a tree states a span, by one node or by two of which one lies below the
  other.
-/

namespace GoConventions

/-- The two ends of a span. -/
def Span.ends (span : Span) : List Position :=
  [span.start, span.stop]

/-- The spans of a call, of its arguments and of what it is assigned to. -/
def CallSite.spans (call : CallSite) : List Span :=
  call.span :: call.args.map (·.span) ++ call.targetSpans

/-- The comments that a declaration refers to. -/
def Declaration.comments (decl : Declaration) : List CommentBlock :=
  decl.doc.toList ++ decl.detachedDoc.toList ++ decl.groupDoc.toList

/-- The spans of a declaration and of all that it refers to. -/
def Declaration.spans (decl : Declaration) : List Span :=
  decl.span :: decl.nameSpan :: decl.comments.map (·.span) ++
    decl.receiver.toList.map (·.span) ++ decl.params.map (·.span) ++
    decl.initCall.toList.flatMap CallSite.spans

/-- What holds of every span of a declaration, part by part. -/
theorem Declaration.forall_mem_spans {decl : Declaration} {P : Span → Prop} :
    (∀ span ∈ decl.spans, P span) ↔
      P decl.span ∧ P decl.nameSpan ∧ (∀ block ∈ decl.comments, P block.span) ∧
        (∀ receiver ∈ decl.receiver, P receiver.span) ∧ (∀ param ∈ decl.params, P param.span) ∧
          ∀ call ∈ decl.initCall, ∀ span ∈ call.spans, P span := by
  simp only [Declaration.spans, List.cons_append, List.append_assoc, List.forall_mem_cons,
    List.forall_mem_append, List.forall_mem_map, List.forall_mem_flatMap, Option.mem_toList]
  rfl

/-- The spans of an import. -/
def ImportEntry.spans (entry : ImportEntry) : List Span :=
  entry.span :: entry.pathSpan :: entry.aliasSpan.toList

/-- The spans of an import declaration, apart from the range between its parentheses. -/
def ImportDecl.spans (decl : ImportDecl) : List Span :=
  decl.span :: decl.entries.flatMap ImportEntry.spans

namespace SourceUnit

variable (unit : SourceUnit)

/-- The spans that are taken from a tree: all but those made up from the text. -/
def nodeSpans : List Span :=
  unit.packageSpan :: unit.packageDoc.toList.map (·.span) ++
    unit.declarations.flatMap Declaration.spans ++ (unit.scopes.drop 1).map (·.span) ++
    unit.comments.map (·.span) ++ unit.imports.flatMap ImportDecl.spans ++
    unit.identifiers.map (·.span) ++ unit.calls.flatMap CallSite.spans

/-- The spans that are made up from the text: that of the file scope, and the ranges between the
parentheses of import declarations. -/
def madeSpans : List Span :=
  (unit.scopes.take 1).map (·.span) ++ unit.imports.filterMap (·.bodySpan)

/-- All positions that a model stores. -/
def positions : List Position :=
  (unit.nodeSpans ++ unit.madeSpans).flatMap Span.ends

end SourceUnit

variable {unit : SourceUnit}

theorem span_mem_nodeSpans_of_mem_declarations {decl : Declaration}
    (hdecl : decl ∈ unit.declarations) {span : Span}
    (hspan : span ∈ decl.spans) : span ∈ unit.nodeSpans := by
  simp only [SourceUnit.nodeSpans, List.mem_append, List.mem_flatMap]
  exact Or.inl (Or.inl (Or.inl (Or.inl (Or.inl (Or.inr ⟨decl, hdecl, hspan⟩)))))

theorem span_mem_nodeSpans_of_comment {comment : CommentBlock}
    (hcomment : comment ∈ unit.packageDoc.toList ++ unit.comments) :
    comment.span ∈ unit.nodeSpans := by
  simp only [SourceUnit.nodeSpans, List.mem_append, List.mem_cons, List.mem_map]
  rcases List.mem_append.mp hcomment with hdoc | hcomment
  · exact Or.inl (Or.inl (Or.inl (Or.inl (Or.inl (Or.inl (Or.inr ⟨comment, hdoc, rfl⟩))))))
  · exact Or.inl (Or.inl (Or.inl (Or.inr ⟨comment, hcomment, rfl⟩)))

/-! ## Positions that a tree states -/

namespace SourceText

variable (src : SourceText) (root : Json)

/-- A node of a tree has the position on the given side. -/
def States (side : String) (position : Position) : Prop :=
  ∃ node ∈ root.everyNode, src.position node side = .ok position

/-- A tree states a span: that of a node, or the one from where a node begins to where another one
ends, of which one lies below the other. -/
inductive StatesSpan (span : Span) : Prop where
  | node (node : Members) (hnode : node ∈ root.everyNode) (hspan : src.span node = .ok span)
  | fromInner (outer inner : Members) (below : Span) (houter : outer ∈ root.nodes)
      (hinner : inner ∈ outer.inner) (hbelow : src.span inner = .ok below)
      (hstart : span.start = below.start) (hstop : src.position outer "end" = .ok span.stop)
  | toInner (outer inner : Members) (below : Span) (houter : outer ∈ root.nodes)
      (hinner : inner ∈ outer.inner) (hbelow : src.span inner = .ok below)
      (hstart : src.position outer "pos" = .ok span.start) (hstop : span.stop = below.stop)

/-- One span ends above the line on which a node begins, and another span starts where that node or
a node below it begins. -/
def EndsAbove (above span : Span) : Prop :=
  ∃ outer ∈ root.nodes, ∃ inner ∈ (Json.obj outer).nodes, ∃ start,
    src.position outer "pos" = .ok start ∧ src.position inner "pos" = .ok span.start ∧
      above.stop.line < start.line

variable {src root}

theorem span_eq_ok {node : Members} {span : Span} :
    src.span node = .ok span ↔
      src.position node "pos" = .ok span.start ∧ src.position node "end" = .ok span.stop := by
  rw [SourceText.span, bind_eq_ok]
  constructor
  · rintro ⟨start, hstart, h⟩
    obtain ⟨stop, hstop, hspan⟩ := bind_eq_ok.mp h
    rw [← Except.ok.inj hspan]
    exact ⟨hstart, hstop⟩
  · rintro ⟨hstart, hstop⟩
    exact ⟨span.start, hstart, bind_eq_ok.mpr ⟨span.stop, hstop, rfl⟩⟩

/-- The span of a node is stated. -/
theorem statesSpan_of_span {node : Members} {span : Span} (hnode : node ∈ root.everyNode)
    (h : src.span node = .ok span) : src.StatesSpan root span :=
  .node node hnode h

/-- Nodes state where a span starts and where it stops. -/
theorem StatesSpan.states {span : Span} (h : src.StatesSpan root span) :
    src.States root "pos" span.start ∧ src.States root "end" span.stop := by
  have hmem : ∀ {node : Members}, node ∈ root.nodes → node ∈ root.everyNode :=
    fun hnode => nodes_subset_everyNode root hnode
  cases h with
  | node node hnode hspan =>
    obtain ⟨hstart, hstop⟩ := span_eq_ok.mp hspan
    exact ⟨⟨node, hnode, hstart⟩, ⟨node, hnode, hstop⟩⟩
  | fromInner outer inner below houter hinner hbelow hstart hstop =>
    have hbelowStart := (span_eq_ok.mp hbelow).1
    exact ⟨⟨inner, hmem (nodes_trans houter hinner), hstart ▸ hbelowStart⟩,
      ⟨outer, hmem houter, hstop⟩⟩
  | toInner outer inner below houter hinner hbelow hstart hstop =>
    have hbelowStop := (span_eq_ok.mp hbelow).2
    exact ⟨⟨outer, hmem houter, hstart⟩,
      ⟨inner, hmem (nodes_trans houter hinner), hstop ▸ hbelowStop⟩⟩

end SourceText

/-- A node of a given span, for small trees of files whose characters are single bytes. -/
def spannedNode (kind : String) (span : Span) (parts : Members) : Members :=
  [("kind", .str kind), ("pos", stated span.start), ("end", stated span.stop)] ++ parts
where
  stated (position : Position) : Json :=
    .obj [("line", .int position.line), ("column", .int position.column),
      ("offset", .int position.offset)]

end GoConventions
