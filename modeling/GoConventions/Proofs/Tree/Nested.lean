import GoConventions.Proofs.Source.Lines
import GoConventions.Proofs.Tree.Positions

/-!
# Trees with well nested positions

A document may state any positions, and a node may end before it begins or reach out of the node
that it is part of.  Where the nodes of a tree are well nested, all spans of its model are ranges of
the text, and so are the ranges that the rules make of them (`spansInside_of_readTree`).  Comments
need not lie in the nodes that they hang on.

The look-ups of the rules in a model need no such condition: whatever they ask for is there, for
every tree that can be read (`complete_of_readTree`).

## Main definitions

* `SourceText.WellNested`: the positions of a tree are well nested.
* `SourceUnit.SpansInside`, `SourceUnit.Complete`: the spans of a model are ranges of the text, and
  what the rules look up in it is there.

## Main results

* `spansInside_of_readTree`, `complete_of_readTree`: every model that has been read is so.
-/

namespace GoConventions

/-- The positions of a tree are well nested, as far as its nodes have any: a node does not end
before it begins, it lies in every node around it, and the name of an import stands before its
path. -/
structure SourceText.WellNested (src : SourceText) (tree : Members) : Prop where
  ordered : ∀ node ∈ (Json.obj tree).everyNode, ∀ span, src.span node = .ok span →
    span.start.offset ≤ span.stop.offset
  starts : ∀ outer ∈ (Json.obj tree).nodes, ∀ inner ∈ outer.inner,
    ∀ start, src.position outer "pos" = .ok start →
    ∀ below, src.position inner "pos" = .ok below → start.offset ≤ below.offset
  stops : ∀ outer ∈ (Json.obj tree).nodes, ∀ inner ∈ outer.inner,
    ∀ stop, src.position outer "end" = .ok stop →
    ∀ below, src.position inner "end" = .ok below → below.offset ≤ stop.offset
  imports : ∀ spec, (Json.obj tree).IsImportSpec spec →
    ∀ name, spec.get "name" = .obj name → ∀ path, spec.get "path" = .obj path →
    ∀ start, src.position name "pos" = .ok start →
    ∀ below, src.position path "pos" = .ok below → start.offset ≤ below.offset

/-- A statement about the node that a value may be can be checked. -/
instance Json.decidableForallObj {value : Json} {P : Members → Prop} [DecidablePred P] :
    Decidable (∀ node, value = .obj node → P node) :=
  match value with
  | .obj node => decidable_of_iff (P node)
      ⟨fun h _ heq => Json.obj.inj heq ▸ h, fun h => h node rfl⟩
  | .null | .bool _ | .int _ | .real _ | .str _ | .arr _ => isTrue nofun

/-- Whether the positions of a tree are well nested can be checked. -/
instance SourceText.decidableWellNested (src : SourceText) (tree : Members) :
    Decidable (src.WellNested tree) :=
  decidable_of_iff
    ((∀ node ∈ (Json.obj tree).everyNode, ∀ span, src.span node = .ok span →
        span.start.offset ≤ span.stop.offset) ∧
      (∀ outer ∈ (Json.obj tree).nodes, ∀ inner ∈ outer.inner,
        (∀ start, src.position outer "pos" = .ok start →
          ∀ below, src.position inner "pos" = .ok below → start.offset ≤ below.offset) ∧
        ∀ stop, src.position outer "end" = .ok stop →
          ∀ below, src.position inner "end" = .ok below → below.offset ≤ stop.offset) ∧
      ∀ decl ∈ (Json.obj tree).nodes, decl.hasKind "GenDecl" = true →
        (decl.get "tok").isText "import" = true →
        ∀ specs, nodesIn (decl.get "specs") = .ok specs → ∀ spec ∈ specs,
          ∀ name, spec.get "name" = .obj name → ∀ path, spec.get "path" = .obj path →
          ∀ start, src.position name "pos" = .ok start →
          ∀ below, src.position path "pos" = .ok below → start.offset ≤ below.offset)
    ⟨fun ⟨hordered, hnested, himports⟩ =>
      ⟨hordered, fun outer houter inner hinner => (hnested outer houter inner hinner).1,
        fun outer houter inner hinner => (hnested outer houter inner hinner).2,
        fun spec ⟨decl, hdecl, hkind, htok, specs, hspecs, hspec⟩ =>
          himports decl hdecl hkind htok specs hspecs spec hspec⟩,
    fun h => ⟨h.ordered,
      fun outer houter inner hinner =>
        ⟨h.starts outer houter inner hinner, h.stops outer houter inner hinner⟩,
      fun decl hdecl hkind htok specs hspecs spec hspec =>
        h.imports spec ⟨decl, hdecl, hkind, htok, specs, hspecs, hspec⟩⟩⟩

namespace SourceUnit

variable (unit : SourceUnit)

/-- From the end of a detached comment to the start of the line on which its declaration begins. -/
def gapSpan (decl : Declaration) (comment : CommentBlock) : Span :=
  unit.spanOf comment.span.stop.offset (decl.span.start.offset - (decl.span.start.column - 1))

/-- From the alias of an import to its path. -/
def aliasGap (entry : ImportEntry) (aliasSpan : Span) : Span :=
  unit.spanOf aliasSpan.start.offset entry.pathSpan.start.offset

/-- All spans of a model are ranges of the text, and so are the ranges that the rules make of
them. -/
structure SpansInside : Prop where
  nodeSpans : ∀ span ∈ unit.nodeSpans, unit.containsSpan span = true
  scopes : ∀ scope ∈ unit.scopes, unit.containsSpan scope.span = true
  bodies : ∀ decl ∈ unit.imports, ∀ body ∈ decl.bodySpan, unit.containsSpan body = true
  gaps : ∀ decl ∈ unit.declarations, ∀ comment ∈ decl.detachedDoc,
    unit.containsSpan (unit.gapSpan decl comment) = true
  aliases : ∀ decl ∈ unit.imports, ∀ entry ∈ decl.entries, ∀ aliasSpan ∈ entry.aliasSpan,
    unit.containsSpan (unit.aliasGap entry aliasSpan) = true
  /-- An import touches a line. -/
  entryLines : ∀ decl ∈ unit.imports, ∀ entry ∈ decl.entries,
    unit.linesBetween entry.span.start.line entry.span.stop.line ≠ []

/-- Whether the spans of a model are ranges of the text can be checked. -/
instance decidableSpansInside : Decidable unit.SpansInside :=
  decidable_of_iff
    ((∀ span ∈ unit.nodeSpans, unit.containsSpan span = true) ∧
      (∀ scope ∈ unit.scopes, unit.containsSpan scope.span = true) ∧
      (∀ decl ∈ unit.declarations, ∀ comment ∈ decl.detachedDoc,
        unit.containsSpan (unit.gapSpan decl comment) = true) ∧
      ∀ decl ∈ unit.imports, (∀ body ∈ decl.bodySpan, unit.containsSpan body = true) ∧
        ∀ entry ∈ decl.entries,
          (∀ aliasSpan ∈ entry.aliasSpan,
            unit.containsSpan (unit.aliasGap entry aliasSpan) = true) ∧
          unit.linesBetween entry.span.start.line entry.span.stop.line ≠ [])
    ⟨fun ⟨hnodes, hscopes, hgaps, himports⟩ => {
        nodeSpans := hnodes
        scopes := hscopes
        gaps := hgaps
        bodies := fun decl hdecl => (himports decl hdecl).1
        aliases := fun decl hdecl entry hentry => ((himports decl hdecl).2 entry hentry).1
        entryLines := fun decl hdecl entry hentry => ((himports decl hdecl).2 entry hentry).2 },
      fun h => ⟨h.nodeSpans, h.scopes, h.gaps, fun decl hdecl => ⟨h.bodies decl hdecl,
        fun entry hentry =>
          ⟨h.aliases decl hdecl entry hentry, h.entryLines decl hdecl entry hentry⟩⟩⟩⟩

/-- What the rules look up in a model is there: the declaration of the package, the scopes of
declarations, calls and scopes, the quotes of string literals, the last line of a comment with a
text, and the offset at which a line starts. -/
structure Complete : Prop where
  package : ∃ decl ∈ unit.declarations, decl.kind = .package
  declarationScopes : ∀ decl ∈ unit.declarations, decl.scope < unit.scopes.length
  callScopes : ∀ call ∈ unit.calls, call.scope < unit.scopes.length
  parents : ∀ scope ∈ unit.scopes, ∀ parent ∈ scope.parent, parent < unit.scopes.length
  literals : ∀ call ∈ unit.calls, ∀ arg ∈ call.args, arg.literal?.isSome = true → arg.text ≠ ""
  commentLines : ∀ comment : CommentBlock, Text.trimEnd comment.text ≠ "" → comment.lines ≠ []
  lineStarts : unit.lineStarts.length = unit.lines.length

namespace SpansInside

variable {unit}

theorem of_declaration (h : unit.SpansInside) {decl : Declaration}
    (hdecl : decl ∈ unit.declarations) : ∀ span ∈ decl.spans, unit.containsSpan span = true :=
  fun _ hspan => h.nodeSpans _ (span_mem_nodeSpans_of_mem_declarations hdecl hspan)

theorem of_comment (h : unit.SpansInside) {comment : CommentBlock}
    (hcomment : comment ∈ unit.packageDoc.toList ++ unit.comments) :
    unit.containsSpan comment.span = true :=
  h.nodeSpans _ (span_mem_nodeSpans_of_comment hcomment)

theorem of_import (h : unit.SpansInside) {decl : ImportDecl} (hdecl : decl ∈ unit.imports) :
    ∀ span ∈ decl.spans, unit.containsSpan span = true := by
  intro span hspan
  refine h.nodeSpans span ?_
  simp only [SourceUnit.nodeSpans, List.mem_append, List.mem_flatMap]
  exact Or.inl (Or.inl (Or.inr ⟨decl, hdecl, hspan⟩))

theorem of_identifier (h : unit.SpansInside) {identifier : Identifier}
    (hidentifier : identifier ∈ unit.identifiers) : unit.containsSpan identifier.span = true := by
  refine h.nodeSpans identifier.span ?_
  simp only [SourceUnit.nodeSpans, List.mem_append, List.mem_map]
  exact Or.inl (Or.inr ⟨identifier, hidentifier, rfl⟩)

theorem of_call (h : unit.SpansInside) {call : CallSite} (hcall : call ∈ unit.calls) :
    ∀ span ∈ call.spans, unit.containsSpan span = true := by
  intro span hspan
  refine h.nodeSpans span ?_
  simp only [SourceUnit.nodeSpans, List.mem_append, List.mem_flatMap]
  exact Or.inr ⟨call, hcall, hspan⟩

theorem declaration (h : unit.SpansInside) {decl : Declaration}
    (hdecl : decl ∈ unit.declarations) : unit.containsSpan decl.span = true :=
  h.of_declaration hdecl _ (by simp [Declaration.spans])

theorem nameSpan (h : unit.SpansInside) {decl : Declaration} (hdecl : decl ∈ unit.declarations) :
    unit.containsSpan decl.nameSpan = true :=
  h.of_declaration hdecl _ (by simp [Declaration.spans])

theorem doc (h : unit.SpansInside) {decl : Declaration} (hdecl : decl ∈ unit.declarations)
    {comment : CommentBlock} (hdoc : decl.doc = some comment) :
    unit.containsSpan comment.span = true :=
  h.of_declaration hdecl _ (by simp [Declaration.spans, Declaration.comments, hdoc])

theorem receiver (h : unit.SpansInside) {decl : Declaration} (hdecl : decl ∈ unit.declarations)
    {receiver : Receiver} (hreceiver : decl.receiver = some receiver) :
    unit.containsSpan receiver.span = true :=
  h.of_declaration hdecl _ (by simp [Declaration.spans, hreceiver])

theorem call (h : unit.SpansInside) {call : CallSite} (hcall : call ∈ unit.calls) :
    unit.containsSpan call.span = true :=
  h.of_call hcall _ (by simp [CallSite.spans])

theorem argument (h : unit.SpansInside) {call : CallSite} (hcall : call ∈ unit.calls)
    {arg : Argument} (harg : arg ∈ call.args) : unit.containsSpan arg.span = true := by
  refine h.of_call hcall _ ?_
  rw [CallSite.spans, List.cons_append]
  exact List.mem_cons_of_mem _ (List.mem_append_left _ (List.mem_map_of_mem harg))

theorem of_entry (h : unit.SpansInside) {decl : ImportDecl} (hdecl : decl ∈ unit.imports)
    {entry : ImportEntry} (hentry : entry ∈ decl.entries) :
    ∀ span ∈ entry.spans, unit.containsSpan span = true :=
  fun span hspan => h.of_import hdecl span
    (List.mem_cons_of_mem _ (List.mem_flatMap.mpr ⟨entry, hentry, hspan⟩))

theorem entry (h : unit.SpansInside) {decl : ImportDecl} (hdecl : decl ∈ unit.imports)
    {entry : ImportEntry} (hentry : entry ∈ decl.entries) :
    unit.containsSpan entry.span = true :=
  h.of_entry hdecl hentry _ (by simp [ImportEntry.spans])

theorem aliasSpan (h : unit.SpansInside) {decl : ImportDecl} (hdecl : decl ∈ unit.imports)
    {entry : ImportEntry} (hentry : entry ∈ decl.entries) {span : Span}
    (hspan : entry.aliasSpan = some span) : unit.containsSpan span = true :=
  h.of_entry hdecl hentry _ (by simp [ImportEntry.spans, hspan])

end SpansInside

end SourceUnit

variable {src : SourceText} {path text : String} {tree : Members} {unit : SourceUnit}
  {history : TreeHistory}

/-! ## Ranges of the text -/

/-- Every span that a well nested tree states is a range of the text. -/
theorem SourceText.WellNested.containsSpan_of_statesSpan (hnested : src.WellNested tree)
    {span : Span} (hspan : src.StatesSpan (.obj tree) span) : src.containsSpan span = true := by
  obtain ⟨hstart, hstop⟩ := isCanonical_of_statesSpan hspan
  refine containsSpan_iff.mpr ⟨hstart.nonneg, ?_, hstop.le_length⟩
  have hordered : ∀ {outer inner below}, outer ∈ (Json.obj tree).nodes → inner ∈ outer.inner →
      src.span inner = .ok below → below.start.offset ≤ below.stop.offset :=
    fun houter hinner => hnested.ordered _
      (nodes_subset_everyNode _ (nodes_trans houter hinner)) _
  cases hspan with
  | node node hnode hspan => exact hnested.ordered node hnode span hspan
  | fromInner outer inner below houter hinner hbelow hstart hstop =>
    rw [hstart]
    refine Int.le_trans (hordered houter hinner hbelow) ?_
    exact hnested.stops outer houter inner hinner _ hstop _ (span_eq_ok.mp hbelow).2
  | toInner outer inner below houter hinner hbelow hstart hstop =>
    rw [hstop]
    refine Int.le_trans ?_ (hordered houter hinner hbelow)
    exact hnested.starts outer houter inner hinner _ hstart _ (span_eq_ok.mp hbelow).1

/-- What ends above the line of a node around a span ends above the line on which the span
starts. -/
theorem SourceText.WellNested.containsSpan_of_endsAbove (hnested : src.WellNested tree)
    {above span : Span} (habove : src.IsCanonical above.stop)
    (hends : src.EndsAbove (.obj tree) above span) :
    src.containsSpan (src.spanOf above.stop.offset
      (span.start.offset - (span.start.column - 1))) = true := by
  obtain ⟨outer, houter, inner, hinner, start, hstart, hbelow, hline⟩ := hends
  have hcanonical := isCanonical_of_position hbelow
  have hle : start.offset ≤ span.start.offset := by
    rcases List.mem_cons.mp hinner with rfl | hinner
    · have hsame := Except.ok.inj (hstart.symm.trans hbelow)
      exact Int.le_of_eq (congrArg Position.offset hsame)
    · exact hnested.starts outer houter inner hinner _ hstart _ hbelow
  have hlines := (isCanonical_of_position hstart).line_mono hcanonical hle
  have hlt := habove.offset_lt_lineStart hcanonical (Int.lt_of_lt_of_le hline hlines)
  obtain ⟨-, first, -, hfirst, hfirst'⟩ := hcanonical.exists_lineStart
  have hlength := hcanonical.le_length
  exact containsSpan_spanOf.mpr ⟨habove.nonneg, Int.le_of_lt hlt, by omega⟩

/-- The range between the parentheses of an import declaration is a range of the text, wherever the
declaration ends. -/
theorem containsSpan_bodySpan (htells : history.Tells tree unit) {decl : ImportDecl}
    (hdecl : decl ∈ unit.imports) {body : Span} (hbody : decl.bodySpan = some body) :
    unit.containsSpan body = true := by
  obtain ⟨hspans, hparenthesized, -⟩ := statesSpan_of_mem_imports htells hdecl
  have hstart := (isCanonical_of_statesSpan (hspans decl.span List.mem_cons_self)).1
  exact SourceText.containsSpan_parenthesizedBody? hstart (hparenthesized body hbody)

/-- A comment that is detached from a declaration ends above it. -/
theorem endsAbove_of_mem_declarations (htells : history.Tells tree unit) {decl : Declaration}
    (hdecl : decl ∈ unit.declarations) :
    ∀ comment ∈ decl.detachedDoc, unit.EndsAbove (.obj tree) comment.span decl.span := by
  rw [htells.declarations, declarations_ofHistory] at hdecl
  obtain ⟨event, hevent, hdeclared⟩ := List.mem_filterMap.mp hdecl
  obtain ⟨before, -, -, hfollows⟩ := follows_of_mem htells.continues hevent
  cases event with
  | declaration name found =>
    obtain rfl := Option.some.inj hdeclared
    exact hfollows.1.detached
  | heading found =>
    obtain rfl := Option.some.inj hdeclared
    have hnone : found.detachedDoc = none := HeadingFollows.detached hfollows
    rw [hnone]
    exact fun comment hcomment => nomatch hcomment
  | _ => cases hdeclared

theorem spansInside_of_tells (htells : history.Tells tree unit) (hnested : unit.WellNested tree) :
    unit.SpansInside where
  nodeSpans span hspan :=
    hnested.containsSpan_of_statesSpan (statesSpan_of_mem_nodeSpans htells span hspan)
  scopes scope hscope := by
    -- The scope of the file is the whole text, whatever the tree says; all others are stated.
    rw [← List.take_append_drop 1 unit.scopes, List.mem_append] at hscope
    rcases hscope with hfirst | hlater
    · rw [span_of_mem_take_scopes htells hfirst]
      exact SourceText.containsSpan_wholeSpan
    · exact hnested.containsSpan_of_statesSpan (statesSpan_of_mem_scopes htells hlater)
  bodies decl hdecl body hbody := containsSpan_bodySpan htells hdecl hbody
  gaps decl hdecl comment hcomment := by
    have hspan : comment.span ∈ decl.spans := by
      simp [Declaration.spans, Declaration.comments, Option.mem_def.mp hcomment]
    have hstated := statesSpan_of_mem_declarations htells hdecl comment.span hspan
    exact hnested.containsSpan_of_endsAbove (isCanonical_of_statesSpan hstated).2
      (endsAbove_of_mem_declarations htells hdecl comment hcomment)
  aliases decl hdecl entry hentry aliasSpan halias := by
    -- From the alias to the path behind it, which the tree has to give in this order.
    obtain ⟨-, -, hfollows⟩ := statesSpan_of_mem_imports htells hdecl
    obtain ⟨spec, name, pathNode, hspec, hname, hpath, hnameSpan, hpathSpan⟩ :=
      hfollows entry hentry aliasSpan halias
    have hnameStart := (SourceText.span_eq_ok.mp hnameSpan).1
    have hpathStart := (SourceText.span_eq_ok.mp hpathSpan).1
    exact SourceText.containsSpan_spanOf.mpr
      ⟨(SourceText.isCanonical_of_position hnameStart).nonneg,
        hnested.imports spec hspec name hname pathNode hpath _ hnameStart _ hpathStart,
        (SourceText.isCanonical_of_position hpathStart).le_length⟩
  entryLines decl hdecl entry hentry := by
    obtain ⟨hspans, -⟩ := statesSpan_of_mem_imports htells hdecl
    have hstated : unit.StatesSpan (.obj tree) entry.span := hspans entry.span <|
      List.mem_cons_of_mem _ (List.mem_flatMap.mpr ⟨entry, hentry, List.mem_cons_self⟩)
    obtain ⟨hstart, hstop⟩ := isCanonical_of_statesSpan hstated
    have hcontains := hnested.containsSpan_of_statesSpan hstated
    exact SourceText.linesBetween_ne_nil hstart hstop
      (SourceText.containsSpan_iff.mp hcontains).2.1

/-- **The spans of a model of a well nested tree are ranges of the text.** -/
theorem spansInside_of_readTree (h : readTree path text tree = .ok unit)
    (hnested : SourceText.WellNested ⟨path, text⟩ tree) : unit.SpansInside := by
  obtain ⟨hpath, htext, history, htells⟩ := exists_history_of_readTree h
  have hsource : unit.toSourceText = ⟨path, text⟩ := by rw [← hpath, ← htext]
  exact spansInside_of_tells htells (hsource ▸ hnested)

/-! ## Look-ups -/

theorem annotated_scope (file : CommentedText) (call : CallSite) :
    (annotated file call).scope = call.scope := by
  unfold annotated
  dsimp only
  split <;> rfl

theorem annotated_args (file : CommentedText) (call : CallSite) :
    (annotated file call).args = call.args := by
  unfold annotated
  dsimp only
  split <;> rfl

/-- A call has been recorded when its scope had been opened. -/
theorem exists_callFollows (htells : history.Tells tree unit) {call : CallSite}
    (hcall : call ∈ unit.calls) : ∃ before node recorded after,
      history = before ++ .call node recorded :: after ∧
      CallFollows unit.toSourceText (.obj tree) before node recorded ∧
      call.scope = recorded.scope ∧ call.args = recorded.args := by
  obtain ⟨file, hcalls⟩ := htells.calls
  rw [hcalls] at hcall
  obtain ⟨recorded, hrecorded, rfl⟩ := List.mem_map.mp hcall
  rw [calls_ofHistory] at hrecorded
  obtain ⟨event, hevent, hfound⟩ := List.mem_filterMap.mp hrecorded
  obtain ⟨before, after, rfl, hfollows⟩ := follows_of_mem htells.continues hevent
  cases event with
  | call node found =>
    obtain rfl := Option.some.inj hfound
    exact ⟨before, node, found, after, rfl, hfollows, annotated_scope file found,
      annotated_args file found⟩
  | _ => cases hfound

theorem length_scopes_of_tells (htells : history.Tells tree unit) :
    unit.scopes.length = history.openers.length := by
  rw [htells.scopes, length_scopes_ofHistory, TreeHistory.length_openers]

theorem complete_of_tells (htells : history.Tells tree unit) : unit.Complete where
  package := htells.clause
  declarationScopes decl hdecl := by
    obtain ⟨index, hindex⟩ := List.getElem?_of_mem hdecl
    obtain ⟨⟨owner, howner, -⟩, -⟩ := (properScopes_of_tells htells).owners index decl hindex
    exact (List.getElem?_eq_some_iff.mp howner).1
  callScopes call hcall := by
    obtain ⟨before, node, recorded, after, rfl, hfollows, hscope, -⟩ :=
      exists_callFollows htells hcall
    -- A scope that had been opened before the call is one of all that are opened.
    obtain ⟨outer, -, houter, -⟩ := hfollows.holds
    rw [hscope, length_scopes_of_tells htells, TreeHistory.openers_append, List.length_append]
    exact Nat.lt_add_right _ (List.getElem?_eq_some_iff.mp houter).1
  parents scope hscope parent hparent := by
    have hproper := properScopes_of_tells htells
    obtain ⟨id, hid⟩ := List.getElem?_of_mem hscope
    by_cases hfile : id = 0
    · obtain ⟨root, hroot, -, hnone, -⟩ := hproper.file
      rw [hfile, hroot] at hid
      rw [← Option.some.inj hid, hnone] at hparent
      cases hparent
    · obtain ⟨above, outer, habove, -, houter, -⟩ := hproper.parents id scope hid hfile
      rw [Option.mem_def, habove] at hparent
      rw [← Option.some.inj hparent]
      exact (List.getElem?_eq_some_iff.mp houter).1
  literals call hcall := by
    obtain ⟨before, node, recorded, after, -, hfollows, -, hargs⟩ :=
      exists_callFollows htells hcall
    rw [hargs]
    exact hfollows.literals
  commentLines _ := CommentBlock.lines_ne_nil
  lineStarts := Text.length_lineStarts unit.text

/-- **What the rules look up in a model is there.** -/
theorem complete_of_readTree (h : readTree path text tree = .ok unit) : unit.Complete := by
  obtain ⟨-, -, history, htells⟩ := exists_history_of_readTree h
  exact complete_of_tells htells

end GoConventions
