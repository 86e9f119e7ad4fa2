import GoConventions.Proofs.Tree.LinkedWalk

/-!
# The initialisers of a model

Each declared value is linked to its own initialiser (`linksInitialisers_of_readTree`): whatever the
tree looks like that has been read, a specification of values in a declaration of its file, or in a
declaration statement that a walk comes to, has declared its names with the calls of their values.

## Main definitions

* `SourceUnit.LinksInitialisers`: the specifications of a tree have declared their names with their
  initialisers.

## Main results

* `linking_readFile`: reading a file links every specification of values in it.
* `linksInitialisers_of_readTree`.
-/

namespace GoConventions

/-- Each specification of values in a tree that keeps its values apart has declared its names, and
each name has as its initialiser the call that is recorded for its value, if this is a call, and
otherwise none. -/
def SourceUnit.LinksInitialisers (unit : SourceUnit) (tree : Members) : Prop :=
  ∀ spec, tree.Specifies spec → unit.SeparatesValues spec →
    unit.Initialises spec unit.calls unit.declarations

section Files

variable {src : CommentedText} {text : SourceText} {nodes : List Members} {spec decl : Members}
  {root : Nat}

/-! ## Declarations of the file -/

theorem linksBelow_walkTree (text : SourceText) (spec : Members) (bound : Nat) :
    LinksBelow text (walkTree text) spec bound :=
  fun value _ => linksValue_walkTree value

theorem mem_nodesAt_of_mem_valueSpecs (h : spec ∈ decl.valueSpecs) :
    spec ∈ decl.nodesAt "specs" := by
  unfold Members.valueSpecs at h
  split at h
  · exact h
  · cases h

/-- A declaration has one token. -/
theorem valueSpecs_of_isText {token : String} (h : (decl.get "tok").isText token = true)
    (hvar : token ≠ "var") (hconst : token ≠ "const") : decl.valueSpecs = [] := by
  unfold Members.valueSpecs
  unfold Json.isText at h ⊢
  split at h
  case h_1 name hname =>
    obtain rfl := beq_iff_eq.mp h
    simp [hvar, hconst]
  case h_2 => cases h

theorem linking_readTypeSpec {stated : Members} {anchor : Span} {docs : DocComments} :
    Linking src.toSourceText (Json.obj stated).nodes spec
      (readTypeSpec src stated root anchor docs) (SpecifiedIn spec (stated.get "type")) := by
  unfold readTypeSpec
  have htype : LinksParts src.toSourceText (Json.obj stated).nodes (walkTree src.toSourceText) spec
      [stated.get "type"] :=
    (linksBelow_walkTree _ _ _).parts fun _ hpart =>
      List.mem_singleton.mp hpart ▸ below_get (by decide)
  refine (linking_recordIdentifier _ _).silent_bind fun _ => ?_
  refine (htype _ (List.mem_singleton_self _) _ _).bind_silent fun _ => ?_
  exact .lift_bind fun name _ => .lift_bind fun nameSpan _ => linking_declare _

theorem linking_readGeneral : Linking src.toSourceText (Json.obj decl).nodes spec
    (readGeneral src decl root)
    (spec ∈ decl.valueSpecs ∨ SpecifiedAmong spec decl.generalParts) := by
  unfold readGeneral
  refine .lift_bind fun span _ => .lift_bind fun specs hspecs => .lift_bind fun grouped _ => ?_
  have hnodes : ∀ stated ∈ specs, (Json.obj stated).nodes ⊆ (Json.obj decl).nodes := by
    rw [← nodesAt_of_nodesIn hspecs]
    exact fun stated hstated => (below_of_mem_nodesAt (by decide) hstated).nodes_subset_nodes
  by_cases htype : (decl.get "tok").isText "type" = true
  · rw [valueSpecs_of_isText htype (by decide) (by decide), Members.generalParts, if_pos htype,
      nodesAt_of_nodesIn hspecs]
    refine (Linking.forM fun stated hstated => .lift_bind fun specSpan _ => ?_).imp fun h =>
      specifiedAmong_map.mp (h.resolve_left List.not_mem_nil)
    simp only [htype, if_true]
    exact linking_readTypeSpec.weaken (hnodes stated hstated) id
  · rw [Members.generalParts, if_neg htype, nodesAt_of_nodesIn hspecs, specifiedAmong_flatMap]
    have hspecified : (spec ∈ decl.valueSpecs ∨
        ∃ stated ∈ specs, SpecifiedAmong spec stated.valueParts) →
          ∃ stated ∈ specs, spec = stated ∨ SpecifiedAmong spec stated.valueParts := by
      rintro (hspec | ⟨stated, hstated, h⟩)
      · exact ⟨spec, nodesAt_of_nodesIn hspecs ▸ mem_nodesAt_of_mem_valueSpecs hspec, Or.inl rfl⟩
      · exact ⟨stated, hstated, Or.inr h⟩
    refine (Linking.forM fun stated hstated => .lift_bind fun specSpan _ => ?_).imp hspecified
    simp only [htype]
    exact (linking_walkValueSpec (linksBelow_walkTree _ _ _)).weaken (hnodes stated hstated) id

theorem linking_readFunction : Linking src.toSourceText (Json.obj decl).nodes spec
    (readFunction src decl root) (SpecifiedAmong spec
      ((decl.memberAt "type").signatureTypes ++ (decl.get "body").statements)) := by
  have hall : LinksParts src.toSourceText (Json.obj decl).nodes (walkTree src.toSourceText) spec
      (decl.walkedAs .functionLiteral) :=
    (linksBelow_walkTree _ _ _).parts fun _ => below_of_mem_walkedAs
  unfold Members.walkedAs at hall
  unfold readFunction
  dsimp only
  refine .lift_bind fun span _ => .lift_bind fun name _ => ?_
  refine (linking_recordIdentifier _ _).silent_bind fun _ => ?_
  refine (linking_receiver? _).silent_bind fun receiver => ?_
  refine (linking_openScope _ _ _ _).silent_bind fun body => ?_
  refine .lift_bind fun signature hsignature => ?_
  have hmember : decl.memberAt "type" = signature := (eq_members_of_nodeOrEmpty hsignature).symm
  rw [hmember, Members.signatureTypes] at hall ⊢
  rw [specifiedAmong_append, specifiedAmong_append, or_assoc]
  have hsignatureParts := hall.subset (List.subset_append_left _ _)
  refine (linking_declareParameters
    (hsignatureParts.subset (List.subset_append_left _ _))).bind fun params => ?_
  refine (linking_resultTypes
    (hsignatureParts.subset (List.subset_append_right _ _))).bind fun results => ?_
  refine .lift_bind fun nameSpan _ => (linking_declare _).silent_bind fun _ => ?_
  exact linking_walkBody (hall.subset (List.subset_append_right _ _))

theorem linking_readImports :
    Linking text nodes spec (readImports src decl root) False := by
  unfold readImports
  refine .lift_bind fun span _ => .lift_bind fun parenthesized _ => .lift_bind fun specs _ => ?_
  refine (Linking.mapM_silent fun spec _ => .lift _).silent_bind fun entries => ?_
  refine (Linking.forM_silent fun entry _ => linking_declare _).silent_bind fun _ => ?_
  exact linking_recordImport _

/-- **A declaration of the file is linked** with all that is specified in it. -/
theorem linking_readDeclaration : Linking src.toSourceText (Json.obj decl).nodes spec
    (readDeclaration src root decl)
    (spec ∈ decl.fileSpecs ∨ SpecifiedAmong spec decl.fileParts) := by
  unfold readDeclaration Members.fileSpecs Members.fileParts
  by_cases hgeneral : decl.hasKind "GenDecl" = true
  · rw [if_pos hgeneral, if_pos hgeneral, if_pos hgeneral]
    by_cases himport : (decl.get "tok").isText "import" = true
    · rw [if_pos himport, if_pos himport,
        valueSpecs_of_isText himport (by decide) (by decide)]
      exact linking_readImports.imp fun h => h.elim List.not_mem_nil not_specifiedAmong_nil
    · rw [if_neg himport, if_neg himport]
      exact linking_readGeneral
  · rw [if_neg hgeneral, if_neg hgeneral, if_neg hgeneral]
    by_cases hfunction : decl.hasKind "FuncDecl" = true
    · rw [if_pos hfunction, if_pos hfunction]
      exact linking_readFunction.imp fun h => h.resolve_left List.not_mem_nil
    · rw [if_neg hfunction, if_neg hfunction]
      refine ((linksValue_walkTree (.obj decl)).links root .other).imp fun h => ?_
      obtain ⟨part, hpart, hspecified⟩ := h.resolve_left List.not_mem_nil
      exact List.mem_singleton.mp hpart ▸ hspecified

/-! ## Files -/

/-- **Reading a file links every specification of values in it.** -/
theorem linking_readFile {tree : Members} : Linking src.toSourceText (Json.obj tree).nodes spec
    (readFile src tree) (tree.Specifies spec) := by
  unfold readFile
  refine (linking_openScope _ _ _ _).silent_bind fun root => ?_
  refine .lift_bind fun clause _ => (linking_declare _).silent_bind fun _ => ?_
  refine .lift_bind fun decls hdecls => ?_
  unfold Members.Specifies
  rw [nodesAt_of_nodesIn hdecls]
  refine (Linking.forM fun decl hdecl => linking_readDeclaration.weaken ?_ id).map
  have hbelow : (Json.obj decl).Below tree :=
    below_of_mem_nodesAt (by decide) (nodesAt_of_nodesIn hdecls ▸ hdecl)
  exact hbelow.nodes_subset_nodes

/-- **Each declared value is linked to its own initialiser**, in the model of any tree that can be
read. -/
theorem linksInitialisers_of_readTree {path text : String} {tree : Members} {unit : SourceUnit}
    (h : readTree path text tree = .ok unit) : unit.LinksInitialisers tree := by
  unfold readTree at h
  dsimp only at h
  split at h
  case isTrue => cases h
  case isFalse =>
    obtain ⟨comments, -, h⟩ := bind_eq_ok.mp h
    obtain ⟨⟨clause, draft⟩, hread, h⟩ := bind_eq_ok.mp h
    obtain rfl := Except.ok.inj h
    intro spec hspec hseparates
    obtain ⟨calls, decls, hcalls, hdecls, hlinks⟩ := linking_readFile _ _ _ hread
    rw [List.nil_append] at hcalls hdecls
    -- Annotated calls are those of the draft but for their annotations.
    refine (hlinks.initialises hspec hseparates).mono (fun call hcall => ?_) ?_
    · have hbare := (hlinks.calls_from call hcall).1
      refine ⟨annotated _ call, List.mem_map_of_mem (hcalls ▸ hcall), ?_⟩
      rw [bare_annotated _ hbare, CallSite.bare, ← hbare]
    · exact hdecls.symm ▸ List.infix_refl decls

end Files

/-! ## Chained calls -/

namespace ChainedCalls

/-- A variable of which the value is a call of a call, one of which it is a function, and a call
that belongs to no name; in the function stand a call of a method on a call and a number. -/
def text : String :=
  "package p; var a, b, _ = f(x)(y), func() \x7b var d, e = q.N().B(), 1 \x7d, g()"

def name (start stop : Int) (text : String) : Json :=
  .obj (lineNode "Ident" start stop [("name", .str text)])

def selector (start stop : Int) (operand selected : Json) : Json :=
  .obj (lineNode "SelectorExpr" start stop [("x", operand), ("sel", selected)])

def call (start stop : Int) (fn : Json) (args : List Json) : Json :=
  .obj (lineNode "CallExpr" start stop [("fun", fn), ("args", .arr args)])

def innerSpec : Members :=
  lineNode "ValueSpec" 47 66 [
    ("names", .arr [name 47 48 "d", name 50 51 "e"]),
    ("values", .arr [
      call 54 63 (selector 54 61 (call 54 59 (selector 54 57 (name 54 55 "q") (name 56 57 "N")) [])
        (name 60 61 "B")) [],
      .obj (lineNode "BasicLit" 65 66 [])])]

def statement : Members :=
  lineNode "DeclStmt" 43 66 [
    ("decl", .obj (lineNode "GenDecl" 43 66 [
      ("tok", .str "var"), ("specs", .arr [.obj innerSpec])]))]

def literal : Members :=
  lineNode "FuncLit" 34 68 [
    ("type", .obj (lineNode "FuncType" 34 40 [])),
    ("body", .obj (lineNode "BlockStmt" 41 68 [("list", .arr [.obj statement])]))]

def outerSpec : Members :=
  lineNode "ValueSpec" 15 73 [
    ("names", .arr [name 15 16 "a", name 18 19 "b", name 21 22 "_"]),
    ("values", .arr [
      call 25 32 (call 25 29 (name 25 26 "f") [name 27 28 "x"]) [name 30 31 "y"],
      .obj literal,
      call 70 73 (name 70 71 "g") []])]

def decl : Members :=
  lineNode "GenDecl" 11 73 [("tok", .str "var"), ("specs", .arr [.obj outerSpec])]

def tree : Members :=
  lineNode "File" 0 73 [("package", name 8 9 "p"), ("decls", .arr [.obj decl])]

/-- The specification of the file, and the one in the function. -/
theorem specifies_of_mem {spec : Members} (h : spec ∈ [outerSpec, innerSpec]) :
    tree.Specifies spec := by
  refine ⟨decl, List.mem_singleton_self decl, ?_⟩
  rcases List.mem_pair.mp h with rfl | rfl
  · exact Or.inl (List.mem_singleton_self outerSpec)
  · have hliteral : .obj literal ∈ decl.fileParts :=
      List.mem_of_getElem? (rfl : decl.fileParts[2]? = some (Json.obj literal))
    have hstatement : .obj statement ∈ literal.walked :=
      List.mem_singleton_self (Json.obj statement)
    have hspec : innerSpec ∈ (statement.memberAt "decl").valueSpecs :=
      List.mem_singleton_self innerSpec
    exact Or.inr ⟨_, hliteral, .part hstatement (.declared rfl hspec)⟩

end ChainedCalls

/-- Each name has the whole of its chain, and the call for the blank name is no one's. -/
theorem linksInitialisers_chainedCalls :
    ∃ unit, readTree "p.go" ChainedCalls.text ChainedCalls.tree = .ok unit ∧
      (unit.declarations.map fun decl => (decl.name, decl.initCall.map (·.callee))) =
        [("p", none), ("d", some "q.N().B"), ("e", none), ("a", some "f(x)"), ("b", none)] ∧
      ∀ spec ∈ [ChainedCalls.outerSpec, ChainedCalls.innerSpec],
        ChainedCalls.tree.Specifies spec ∧ unit.SeparatesValues spec ∧
          unit.Initialises spec unit.calls unit.declarations := by
  have hread : ((readTree "p.go" ChainedCalls.text ChainedCalls.tree).toOption.map fun unit =>
      (unit.toSourceText,
        unit.declarations.map fun decl => (decl.name, decl.initCall.map (·.callee)))) =
      some (⟨"p.go", ChainedCalls.text⟩,
        [("p", none), ("d", some "q.N().B"), ("e", none), ("a", some "f(x)"), ("b", none)]) := by
    decide +kernel
  obtain ⟨unit, hunit, hvalues⟩ := Option.map_eq_some_iff.mp hread
  obtain ⟨htext, hdeclarations⟩ := Prod.mk.inj hvalues
  have hread := toOption_eq_some.mp hunit
  refine ⟨unit, hread, hdeclarations, fun spec hspec => ?_⟩
  have hspecified := ChainedCalls.specifies_of_mem hspec
  have hseparates : unit.SeparatesValues spec := by
    rw [htext]
    rcases List.mem_pair.mp hspec with rfl | rfl <;> decide +kernel
  exact ⟨hspecified, hseparates,
    linksInitialisers_of_readTree hread spec hspecified hseparates⟩

end GoConventions
