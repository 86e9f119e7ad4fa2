import GoConventions.Proofs.Tree.Calls
import GoConventions.Proofs.Tree.RegisteredWalk

/-!
# Where the calls of a model stand

The calls of a model are those of the declarations of its file, and each is recorded as it stands in
the tree (`recordsStandings_of_readTree`).  A declaration of the file stands where a declaration is
expected, and so do those of its statements.

## Main definitions

* `Members.codeStandings`, `Members.fileStandings`: the calls of a declaration, and of a file, with
  their standings.
* `SourceUnit.RecordsStandings`: the calls of a model stand for those of a tree.

## Main results

* `recordsStandings_of_readTree`: the model of a documented tree records its calls as they stand.
-/

namespace GoConventions

/-- The calls in the code of a declaration, with their standings. -/
def Members.codeStandings (decl : Members) : Set (Members × Standing) :=
  if decl.hasKind "GenDecl" then
    if (decl.get "tok").isText "import" then ∅
    else if (decl.get "tok").isText "type" then
      ⋃ spec ∈ decl.nodesAt "specs", (spec.get "type").standings .other
    else (Json.obj decl).standings .declaration
  else if decl.hasKind "FuncDecl" then
    ((decl.get "type").members?.getD []).standingsUnder .other ["params", "results"] ∪
      (decl.get "body").standings .other
  else (Json.obj decl).standings .other

/-- The calls in the code of a file, with their standings. -/
def Members.fileStandings (tree : Members) : Set (Members × Standing) :=
  ⋃ decl ∈ tree.nodesAt "decls", decl.codeStandings

/-- The calls of a model stand for those of a tree: each for one in its code, with the standing that
this has there, and none of these is passed over. -/
structure SourceUnit.RecordsStandings (unit : SourceUnit) (tree : Members) : Prop where
  sound : ∀ call ∈ unit.calls, ∃ entry ∈ tree.fileStandings,
    call.StandsFor unit.toSourceText entry
  complete : ∀ entry ∈ tree.fileStandings, ∃ call ∈ unit.calls,
    call.StandsFor unit.toSourceText entry
  covers : ∀ node ∈ tree.fileCodeNodes, node.hasKind "CallExpr" = true →
    ∃ standing, (node, standing) ∈ tree.fileStandings

variable {src : CommentedText} {scope : Nat}

/-! ## Every call in the code stands somewhere -/

/-- There is no call in a name. -/
theorem standings_name {value : Json} {standing : Standing} (hdoc : value.Documented)
    (hform : (PartForm.node (some ["Ident"])).admits value = true) :
    value.standings standing = ∅ := by
  rcases admits_only hform with hnone | ⟨node, rfl, hident⟩
  · exact standings_eq_empty_of_nodes hnone
  · exact standings_identifier hdoc hident

theorem notMem_nodes_name {value : Json} {call : Members} (hdoc : value.Documented)
    (hform : (PartForm.node (some ["Ident"])).admits value = true)
    (hcall : call.hasKind "CallExpr" = true) : call ∉ value.nodes := by
  intro hmem
  obtain ⟨standing, h⟩ := exists_standing hdoc hmem hcall .other
  rw [standings_name hdoc hform] at h
  exact h

theorem exists_codeStanding {decl call : Members} (hdoc : (Json.obj decl).Documented)
    (hmem : call ∈ decl.codeNodes) (hcall : call.hasKind "CallExpr" = true) :
    ∃ standing, (call, standing) ∈ decl.codeStandings := by
  unfold Members.codeNodes at hmem
  unfold Members.codeStandings
  by_cases hgeneral : decl.hasKind "GenDecl" = true
  · rw [if_pos hgeneral] at hmem ⊢
    by_cases himport : (decl.get "tok").isText "import" = true
    · -- There is no code in an import.
      rw [if_pos himport] at hmem
      cases hmem
    rw [if_neg himport] at hmem ⊢
    by_cases htype : (decl.get "tok").isText "type" = true
    · -- The name of a type is code, but no call.
      rw [if_pos htype] at hmem ⊢
      obtain ⟨spec, hspec, hmem⟩ := List.mem_flatMap.mp hmem
      have hname : NodeForm.ofKind.specification (decl.get "tok") = "TypeSpec" := by
        rw [NodeForm.ofKind.specification, Bool.eq_false_iff.mpr himport, htype]
        rfl
      obtain ⟨hspecDoc, hspecKind⟩ :=
        hasKind_specification hdoc hgeneral (nodesIn_of_mem_nodesAt hspec) spec hspec
      rw [hname] at hspecKind
      rcases List.mem_append.mp hmem with hmem | hmem
      · exact absurd hmem (notMem_nodes_name (hspecDoc.get "name" (by decide))
          (hspecDoc.admits hspecKind rfl) hcall)
      · obtain ⟨standing, h⟩ := exists_standing (hspecDoc.get "type" (by decide)) hmem hcall .other
        exact ⟨standing, Set.mem_biUnion hspec h⟩
    · rw [if_neg htype] at hmem ⊢
      rw [standings_general hdoc hgeneral]
      exact exists_standing (hdoc.get "specs" (by decide)) hmem hcall _
  rw [if_neg hgeneral] at hmem ⊢
  by_cases hfunction : decl.hasKind "FuncDecl" = true
  · -- So is the name of a function, and the rest is its signature and its body.
    rw [if_pos hfunction] at hmem ⊢
    have htypeDoc := documented_members hdoc (show "type" ∉ annotationKeys by decide)
    rw [List.mem_append, List.mem_append] at hmem
    rcases hmem with (hmem | hmem) | hmem
    · exact absurd hmem (notMem_nodes_name (hdoc.get "name" (by decide))
        (hdoc.admits hfunction rfl) hcall)
    · rw [nodesUnder_eq_flatMap] at hmem
      obtain ⟨key, hkey, hmem⟩ := List.mem_flatMap.mp hmem
      have hannotation : key ∉ annotationKeys := by
        rcases List.mem_pair.mp hkey with rfl | rfl <;> decide
      obtain ⟨standing, h⟩ := exists_standing (htypeDoc.get key hannotation) hmem hcall .other
      exact ⟨standing, Or.inl (mem_standingsUnder.mpr ⟨key, hkey, h⟩)⟩
    · obtain ⟨standing, h⟩ := exists_standing (hdoc.get "body" (by decide)) hmem hcall .other
      exact ⟨standing, Or.inr h⟩
  · rw [if_neg hfunction] at hmem ⊢
    exact exists_standing hdoc hmem hcall .other

/-! ## Declarations of the file -/

theorem registersBelow_walkTree (text : SourceText) (bound : Nat) :
    RegistersBelow text (walkTree text) bound :=
  fun _ _ hdoc => registers_walkTree hdoc

theorem registers_declare {text : SourceText} (decl : Declaration) :
    Registers text (declare decl) ∅ :=
  registers_of_transcribes (transcribes_declare decl) rfl

theorem registers_readTypeSpec {spec : Members} {anchor : Span} {docs : DocComments}
    (hdoc : (Json.obj spec).Documented) :
    Registers src.toSourceText (readTypeSpec src spec scope anchor docs)
      ((spec.get "type").standings .other) := by
  unfold readTypeSpec
  refine (registers_recordIdentifier _ _).bind_of_empty fun _ => ?_
  rw [← Set.union_empty ((spec.get "type").standings .other)]
  refine (registers_walkTree (hdoc.get "type" (by decide)) scope .other _
    Standing.shownBy_other).bind fun _ => ?_
  exact Registers.lift_bind fun name _ => Registers.lift_bind fun nameSpan _ => registers_declare _

theorem registers_readGeneral {decl : Members} (hdoc : (Json.obj decl).Documented)
    (hkind : decl.hasKind "GenDecl" = true)
    (himport : (decl.get "tok").isText "import" = false) :
    Registers src.toSourceText (readGeneral src decl scope) decl.codeStandings := by
  unfold readGeneral
  refine Registers.lift_bind fun span _ => Registers.lift_bind fun specs hspecs =>
    Registers.lift_bind fun grouped _ => ?_
  have hform : (PartForm.nodes (some [NodeForm.ofKind.specification (decl.get "tok")])).admits
      (decl.get "specs") = true := hdoc.admits hkind rfl
  have hspecsKind := hasKind_specification hdoc hkind hspecs
  rw [Members.codeStandings, if_pos hkind, himport, if_neg Bool.false_ne_true]
  by_cases htype : (decl.get "tok").isText "type" = true
  · rw [if_pos htype, nodesAt_of_nodesIn hspecs]
    refine Registers.forM fun spec hspec => Registers.lift_bind fun specSpan _ => ?_
    simp only [htype, if_true]
    exact registers_readTypeSpec (hspecsKind spec hspec).1
  · have hname : NodeForm.ofKind.specification (decl.get "tok") = "ValueSpec" := by
      rw [NodeForm.ofKind.specification, himport, Bool.eq_false_iff.mpr htype]
      rfl
    rw [if_neg htype, standings_general hdoc hkind]
    refine registers_forM_nodesIn hform hspecs fun spec hspec =>
      Registers.lift_bind fun specSpan _ => ?_
    obtain ⟨hspecDoc, hspecKind⟩ := hspecsKind spec hspec
    rw [hname] at hspecKind
    simp only [htype]
    exact registers_walkValueSpec (registersBelow_walkTree _ _) hspecDoc hspecKind
      (ite_eq_or_eq _ _ _)

theorem registers_readFunction {decl : Members} (hdoc : (Json.obj decl).Documented)
    (hgeneral : decl.hasKind "GenDecl" = false) (hkind : decl.hasKind "FuncDecl" = true) :
    Registers src.toSourceText (readFunction src decl scope) decl.codeStandings := by
  have htypeForm : (PartForm.node (some ["FuncType"])).admits (decl.get "type") = true :=
    hdoc.admits hkind rfl
  have htypeKind : ∀ type, decl.get "type" = .obj type →
      Members.hasKind type "FuncType" = true := by
    intro type htype
    rcases admits_only htypeForm with hnone | ⟨found, hfound, hfoundKind⟩
    · exact absurd (htype ▸ hnone) (List.cons_ne_nil _ _)
    · rwa [Json.obj.inj (htype.symm.trans hfound)]
  rw [Members.codeStandings, hgeneral, if_neg Bool.false_ne_true, if_pos hkind]
  unfold readFunction
  refine Registers.lift_bind fun span _ => Registers.lift_bind fun name _ => ?_
  -- Neither the name nor the receiver holds a call.
  refine (registers_recordIdentifier _ _).bind_of_empty fun _ => ?_
  refine (registers_of_transcribes (transcribes_receiver? hdoc hkind)
    (mentionsIn_call_receiverNodes hdoc)).bind_of_empty fun receiver => ?_
  refine registers_openScope_bind fun body => Registers.lift_bind fun signature hsignature => ?_
  obtain rfl := eq_members_of_nodeOrEmpty hsignature
  refine registers_parametersAndResults (registersBelow_walkTree _ _) hsignature
    (hdoc.get "type" (by decide)) htypeKind fun params results => ?_
  refine Registers.lift_bind fun nameSpan _ => (registers_declare _).bind_of_empty fun _ => ?_
  exact registers_walkBody (registersBelow_walkTree _ _) (hdoc.get "body" (by decide))
    (hdoc.admits hkind rfl)

/-- **The calls in the code of a declaration are registered with their standings.** -/
theorem registers_readDeclaration {decl : Members} (hdoc : (Json.obj decl).Documented) :
    Registers src.toSourceText (readDeclaration src scope decl) decl.codeStandings := by
  unfold readDeclaration
  by_cases hgeneral : decl.hasKind "GenDecl" = true
  · rw [if_pos hgeneral]
    by_cases himport : (decl.get "tok").isText "import" = true
    · rw [if_pos himport, Members.codeStandings, if_pos hgeneral, if_pos himport]
      exact registers_of_transcribes (transcribes_readImports decl) rfl
    · rw [if_neg himport]
      exact registers_readGeneral hdoc hgeneral (Bool.eq_false_iff.mpr himport)
  · rw [if_neg hgeneral]
    by_cases hfunction : decl.hasKind "FuncDecl" = true
    · rw [if_pos hfunction]
      exact registers_readFunction hdoc (Bool.eq_false_iff.mpr hgeneral) hfunction
    · rw [if_neg hfunction, Members.codeStandings, if_neg hgeneral, if_neg hfunction]
      exact registers_walkTree hdoc scope .other _ Standing.shownBy_other

theorem registers_readFile {tree : Members} (hdoc : (Json.obj tree).Documented) :
    Registers src.toSourceText (readFile src tree) tree.fileStandings := by
  unfold readFile
  refine registers_openScope_bind fun root => Registers.lift_bind fun clause _ => ?_
  refine (registers_declare _).bind_of_empty fun _ => Registers.lift_bind fun decls hdecls => ?_
  rw [Members.fileStandings, nodesAt_of_nodesIn hdecls]
  exact (Registers.forM fun decl hdecl => registers_readDeclaration
    ((hdoc.get "decls" (by decide)).of_nodesIn hdecls hdecl)).map

/-! ## The calls of a model -/

/-- An annotation changes nothing of what a call stands for. -/
theorem standsFor_annotated {text : SourceText} {call : CallSite} {entry : Members × Standing} :
    (annotated src call).StandsFor text entry ↔ call.StandsFor text entry := by
  unfold annotated
  dsimp only
  split
  · exact ⟨fun h => ⟨h.span_eq, h.callee_eq, h.results_eq, h.recorded⟩,
      fun h => ⟨h.span_eq, h.callee_eq, h.results_eq, h.recorded⟩⟩
  · exact Iff.rfl

/-- **The model of a documented tree records its calls as they stand.** -/
theorem recordsStandings_of_readTree {path text : String} {tree : Members} {unit : SourceUnit}
    (h : readTree path text tree = .ok unit) (hdoc : (Json.obj tree).Documented) :
    unit.RecordsStandings tree := by
  obtain ⟨history, -, ⟨clause, hread⟩, -, hcalls⟩ := exists_transcript_of_readTree h hdoc
  obtain ⟨added, hdraft, hregistered⟩ := registers_readFile hdoc [] clause _ hread
  rw [hdraft, List.nil_append] at hcalls
  constructor
  · intro call hcall
    rw [hcalls] at hcall
    obtain ⟨found, hfound, rfl⟩ := List.mem_map.mp hcall
    obtain ⟨entry, hentry, hstands⟩ := hregistered.sound found hfound
    exact ⟨entry, hentry, standsFor_annotated.mpr hstands⟩
  · intro entry hentry
    obtain ⟨call, hcall, hstands⟩ := hregistered.complete entry hentry
    rw [hcalls]
    exact ⟨_, List.mem_map_of_mem hcall, standsFor_annotated.mpr hstands⟩
  · intro node hnode hcall
    obtain ⟨decl, hdecl, hmem⟩ := List.mem_flatMap.mp hnode
    have hdeclDoc : (Json.obj decl).Documented :=
      (hdoc.get "decls" (by decide)).of_nodesIn (nodesIn_of_mem_nodesAt hdecl) hdecl
    obtain ⟨standing, hstanding⟩ := exists_codeStanding hdeclDoc hmem hcall
    exact ⟨standing, Set.mem_biUnion hdecl hstanding⟩

end GoConventions
