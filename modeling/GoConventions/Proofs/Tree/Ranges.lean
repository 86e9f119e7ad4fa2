import GoConventions.Proofs.Tree.Nested

/-!
# Spans that are ranges of the text

Rules measure a scope in lines and take the text of a span, and count on a span not to stop before
it starts.  When a tree is read, the two ends of a span are checked one at a time: each lies in the
text, on its line.  Nothing compares them.  So the spans of a model are ranges of the text exactly
when none that is taken from the tree is turned around (`checksEnds_of_readTree`), and the tree may
turn one around in two ways: by a node that ends before it begins, or by two nodes of which one
states the start and the other the end.

## Main definitions

* `SourceUnit.HasValidSpans`: all spans of a model are ranges of the text, and its scopes have
  lines.
* `SourceText.StatesInOrder`: a tree turns no span around.
* `SourceUnit.ChecksEnds`: what is checked of the spans of a model, and what follows from it.

## Main results

* `SourceText.WellNested.statesInOrder`: well nested trees turn no span around.
* `checksEnds_of_readTree`: the spans of every model that has been read.
* `not_forall_hasValidSpans`: some of them are not ranges.
-/

namespace GoConventions

/-- Every span of a model is a range of the text, and every scope has a line at least. -/
structure SourceUnit.HasValidSpans (unit : SourceUnit) : Prop where
  ranges : ∀ span ∈ unit.nodeSpans ++ unit.madeSpans, unit.containsSpan span = true
  lines : ∀ scope ∈ unit.scopes, 1 ≤ scope.span.lineCount

/-- No span that a tree states stops before it starts. -/
def SourceText.StatesInOrder (src : SourceText) (tree : Members) : Prop :=
  ∀ span, src.StatesSpan (.obj tree) span → span.start.offset ≤ span.stop.offset

/-- What is checked of the spans of a model: both ends of each, but not their order. -/
structure SourceUnit.ChecksEnds (unit : SourceUnit) (tree : Members) : Prop where
  /-- Both ends of every span lie in the text. -/
  ends : ∀ position ∈ unit.positions, 0 ≤ position.offset ∧ position.offset ≤ unit.length
  /-- The spans that are made up from the text are ranges of it, whatever the tree states. -/
  made : ∀ span ∈ unit.madeSpans, unit.containsSpan span = true
  /-- The tree states the other spans, and so it is the tree that turns one around. -/
  stated : ∀ span ∈ unit.nodeSpans, unit.StatesSpan (.obj tree) span
  /-- The spans are valid exactly when none is turned around. -/
  valid_iff : unit.HasValidSpans ↔ ∀ span ∈ unit.nodeSpans, span.start.offset ≤ span.stop.offset
  valid_of_statesInOrder : unit.StatesInOrder tree → unit.HasValidSpans
  valid_of_wellNested : unit.WellNested tree → unit.HasValidSpans

variable {src : SourceText} {path text : String} {tree : Members} {unit : SourceUnit}
  {history : TreeHistory}

/-- **A well nested tree turns no span around.** -/
theorem SourceText.WellNested.statesInOrder (hnested : src.WellNested tree) :
    src.StatesInOrder tree := by
  intro span hspan
  exact (containsSpan_iff.mp (hnested.containsSpan_of_statesSpan hspan)).2.1

/-- A span between two positions of a text is a range of it when they are in order. -/
theorem SourceText.containsSpan_iff_le {span : Span}
    (hspan : src.IsCanonical span.start ∧ src.IsCanonical span.stop) :
    src.containsSpan span = true ↔ span.start.offset ≤ span.stop.offset := by
  rw [containsSpan_iff]
  exact ⟨fun h => h.2.1, fun hle => ⟨hspan.1.nonneg, hle, hspan.2.le_length⟩⟩

/-- A range of the text has a line. -/
theorem SourceText.one_le_lineCount {span : Span}
    (hspan : src.IsCanonical span.start ∧ src.IsCanonical span.stop)
    (hle : span.start.offset ≤ span.stop.offset) : 1 ≤ span.lineCount := by
  have hlines := hspan.1.line_mono hspan.2 hle
  rw [Span.lineCount]
  omega

/-- The ends of every span are positions of the text. -/
theorem isCanonical_of_mem_spans (htells : history.Tells tree unit) {span : Span}
    (hspan : span ∈ unit.nodeSpans ++ unit.madeSpans) :
    unit.IsCanonical span.start ∧ unit.IsCanonical span.stop := by
  rcases List.mem_append.mp hspan with hnode | hmade
  · exact isCanonical_of_statesSpan (statesSpan_of_mem_nodeSpans htells span hnode)
  · exact isCanonical_of_mem_madeSpans htells hmade

/-- The span of the file and the ranges between parentheses are ranges of the text. -/
theorem containsSpan_of_mem_madeSpans (htells : history.Tells tree unit) {span : Span}
    (hspan : span ∈ unit.madeSpans) : unit.containsSpan span = true := by
  rcases List.mem_append.mp hspan with hspan | hspan
  · obtain ⟨scope, hscope, rfl⟩ := List.mem_map.mp hspan
    rw [span_of_mem_take_scopes htells hscope]
    exact SourceText.containsSpan_wholeSpan
  · obtain ⟨decl, hdecl, hbody⟩ := List.mem_filterMap.mp hspan
    exact containsSpan_bodySpan htells hdecl hbody

/-- The span of a scope is one of the spans of its model. -/
theorem SourceUnit.span_mem_of_mem_scopes {scope : Scope} (hscope : scope ∈ unit.scopes) :
    scope.span ∈ unit.nodeSpans ++ unit.madeSpans := by
  rw [← List.take_append_drop 1 unit.scopes, List.mem_append] at hscope
  simp only [SourceUnit.nodeSpans, SourceUnit.madeSpans, List.mem_append, List.mem_map]
  rcases hscope with hfirst | hlater
  · exact Or.inr (Or.inl ⟨scope, hfirst, rfl⟩)
  · exact Or.inl (Or.inl (Or.inl (Or.inl (Or.inl (Or.inr ⟨scope, hlater, rfl⟩)))))

theorem hasValidSpans_iff_of_tells (htells : history.Tells tree unit) :
    unit.HasValidSpans ↔ ∀ span ∈ unit.nodeSpans, span.start.offset ≤ span.stop.offset := by
  constructor
  · intro hvalid span hspan
    have hmem := List.mem_append_left unit.madeSpans hspan
    exact (SourceText.containsSpan_iff_le (isCanonical_of_mem_spans htells hmem)).mp
      (hvalid.ranges span hmem)
  · intro hordered
    have hranges : ∀ span ∈ unit.nodeSpans ++ unit.madeSpans, unit.containsSpan span = true := by
      intro span hspan
      rcases List.mem_append.mp hspan with hnode | hmade
      · exact (SourceText.containsSpan_iff_le (isCanonical_of_mem_spans htells hspan)).mpr
          (hordered span hnode)
      -- The spans that are made up need no condition, and so the order of the others is enough.
      · exact containsSpan_of_mem_madeSpans htells hmade
    refine ⟨hranges, fun scope hscope => ?_⟩
    have hmem := SourceUnit.span_mem_of_mem_scopes hscope
    exact SourceText.one_le_lineCount (isCanonical_of_mem_spans htells hmem)
      (SourceText.containsSpan_iff.mp (hranges scope.span hmem)).2.1

/-- **The ends of all spans lie in the text, and nothing else keeps a span from being a range.** -/
theorem checksEnds_of_readTree (h : readTree path text tree = .ok unit) :
    unit.text = text ∧ unit.ChecksEnds tree := by
  obtain ⟨-, htext, history, htells⟩ := exists_history_of_readTree h
  have hstated := statesSpan_of_mem_nodeSpans htells
  have hvalid : unit.StatesInOrder tree → unit.HasValidSpans := fun hordered =>
    (hasValidSpans_iff_of_tells htells).mpr fun span hspan => hordered span (hstated span hspan)
  refine ⟨htext, ?_, ?_, hstated, hasValidSpans_iff_of_tells htells, hvalid,
    fun hnested => hvalid hnested.statesInOrder⟩
  · intro position hposition
    obtain ⟨span, hspan, hend⟩ := List.mem_flatMap.mp hposition
    obtain ⟨hstart, hstop⟩ := isCanonical_of_mem_spans htells hspan
    rcases List.mem_pair.mp hend with rfl | rfl
    · exact ⟨hstart.nonneg, hstart.le_length⟩
    · exact ⟨hstop.nonneg, hstop.le_length⟩
  · exact fun span hspan => containsSpan_of_mem_madeSpans htells hspan

/-! ## A function that ends before it begins -/

/-- A package clause and a function on the lines below it. -/
def upendedText : String := "package p\n\nfunc f() \x7b\n\x7d\n"

def upendedTree : Members :=
  spannedNode "File" ⟨⟨1, 1, 0⟩, ⟨4, 2, 23⟩⟩ [
    ("package", .obj (spannedNode "Ident" ⟨⟨1, 9, 8⟩, ⟨1, 10, 9⟩⟩ [("name", .str "p")])),
    ("decls", .arr [.obj (spannedNode "FuncDecl" ⟨⟨4, 2, 23⟩, ⟨3, 1, 11⟩⟩ [
      ("name", .obj (spannedNode "Ident" ⟨⟨3, 6, 16⟩, ⟨3, 7, 17⟩⟩ [("name", .str "f")]))])])]

/-- The function begins where it should end, and has no line. -/
theorem checksEnds_upendedTree :
    ∃ unit, readTree "p.go" upendedText upendedTree = .ok unit ∧
      unit.scopes.map (·.span.lineCount) = [5, 0] ∧
      unit.text = upendedText ∧ unit.ChecksEnds upendedTree := by
  have hlines : ((readTree "p.go" upendedText upendedTree).toOption.map fun unit =>
      unit.scopes.map (·.span.lineCount)) = some [5, 0] := by decide +kernel
  obtain ⟨unit, hunit, hscopes⟩ := Option.map_eq_some_iff.mp hlines
  have hread := toOption_eq_some.mp hunit
  exact ⟨unit, hread, hscopes, checksEnds_of_readTree hread⟩

/-- **Some spans are not ranges of the text**, of trees that are accepted. -/
theorem not_forall_hasValidSpans :
    ¬ ∀ (path text : String) (tree : Members) (unit : SourceUnit),
      readTree path text tree = .ok unit → unit.HasValidSpans := by
  intro hall
  have hlines : ((readTree "p.go" upendedText upendedTree).toOption.map fun unit =>
      decide (∃ scope ∈ unit.scopes, scope.span.lineCount = 0)) = some true := by decide +kernel
  obtain ⟨unit, hunit, hscope⟩ := Option.map_eq_some_iff.mp hlines
  obtain ⟨scope, hmem, hzero⟩ := of_decide_eq_true hscope
  have hline := (hall _ _ _ _ (toOption_eq_some.mp hunit)).lines scope hmem
  omega

end GoConventions
