import GoConventions.Proofs.Tree.TranscribedFile
import Mathlib.Data.List.Forall2

/-!
# The calls of a model

Every call of a documented tree is recorded once, with its span, and after all calls in its function
expression and its arguments.  The comments on calls are found afterwards, and change nothing but
the annotations.

## Main definitions

* `SourceUnit.RecordsCalls`: the calls of a model are those of a tree.

## Main results

* `recordsCalls_of_readTree`: the model of a documented tree records its calls.
-/

namespace GoConventions

/-- A call without its annotation. -/
def CallSite.bare (call : CallSite) : CallSite :=
  { call with annotation := none }

/-- The nodes of the declarations of a file that are walked: function bodies and initialisers, names
and types, and any other statement or expression below a declaration that is no import. -/
def Members.fileCodeNodes (tree : Members) : List Members :=
  (tree.nodesAt "decls").flatMap Members.codeNodes

/-- The calls of a model are recorded from nodes of a tree: each has the span of its node, the nodes
are the calls of the tree, each once, the calls nested in a call come before it, and but for their
annotations the calls are those that the walk has recorded. -/
structure SourceUnit.RecordsCalls (unit : SourceUnit) (tree : Members) (nodes : List Members) :
    Prop where
  spans : List.Forall₂ (fun node call => unit.span node = .ok (CallSite.span call)) nodes unit.calls
  once : nodes.Perm (mentionsIn .call tree.fileCodeNodes)
  nested : ∀ before node after, nodes = before ++ node :: after → node.nestedCalls.Subperm before
  walked : ∃ clause draft, (readFile (unit.withComments unit.comments) tree).run {} =
    .ok (clause, draft) ∧ draft.calls = unit.calls.map CallSite.bare

/-! ## Annotations -/

theorem span_annotated (src : CommentedText) (call : CallSite) :
    (annotated src call).span = call.span := by
  unfold annotated
  dsimp only
  split <;> rfl

/-- An annotation changes nothing else. -/
theorem bare_annotated (src : CommentedText) {call : CallSite} (h : call.annotation = none) :
    (annotated src call).bare = call := by
  unfold annotated CallSite.bare
  dsimp only
  split
  · rw [← h]
  · rw [← h]

/-! ## Receivers hold no calls -/

theorem mentionsIn_call_receiverNodes {decl : Members} (hdoc : (Json.obj decl).Documented) :
    mentionsIn .call decl.receiverNodes = [] := by
  refine mentionsIn_call_of_identifiers fun node hnode => ?_
  unfold Members.receiverNodes at hnode
  split at hnode
  case isFalse => cases hnode
  case isTrue hkind =>
    split at hnode
    case h_2 => cases hnode
    case h_1 field rest hfields =>
      rcases List.mem_append.mp hnode with hbase | hname
      · exact (List.mem_filter.mp hbase).2
      · have hform : (PartForm.node (some ["FieldList"])).admits (decl.get "recv") = true :=
          hdoc.admits hkind rfl
        obtain ⟨-, hall⟩ := of_fieldsOf_documented hfields (hdoc.get "recv" (by decide)) hform
        obtain ⟨hfieldDoc, hfieldKind, -⟩ := hall field (by simp)
        have hnamesForm : (PartForm.nodes (some ["Ident"])).admits (field.get "names") = true :=
          hfieldDoc.admits hfieldKind rfl
        exact hasKind_of_mem_nodesIn hnamesForm (nodesIn_of_mem_nodesAt hname) hname

theorem mentionsIn_call_fileReadNodes {tree : Members} (hdoc : (Json.obj tree).Documented) :
    mentionsIn .call tree.fileReadNodes = mentionsIn .call tree.fileCodeNodes := by
  unfold mentionsIn Members.fileReadNodes Members.fileCodeNodes
  rw [List.filterMap_flatMap, List.filterMap_flatMap]
  refine List.flatMap_congr fun decl hdecl => ?_
  have hdeclDoc : (Json.obj decl).Documented :=
    (hdoc.get "decls" (by decide)).of_nodesIn (nodesIn_of_mem_nodesAt hdecl) hdecl
  have hnone := mentionsIn_call_receiverNodes hdeclDoc
  unfold mentionsIn at hnone
  rw [Members.readNodes, List.filterMap_append, hnone, List.append_nil]

/-! ## Recorded calls -/

section Recorded

variable {src : SourceText} {history : TreeHistory} {nodes : List Members}

/-- The calls of a history stand for the nodes that it records as calls. -/
theorem forall₂_calls (h : ∀ event ∈ history, event.IsFaithful src) :
    List.Forall₂ (fun node call => src.span node = .ok (CallSite.span call) ∧
      call.annotation = none) (history.mentions .call) (history.filterMap TreeEvent.call?) := by
  induction history with
  | nil => exact List.Forall₂.nil
  | cons event history ih =>
    have hrest := ih fun other hother => h other (List.mem_cons_of_mem _ hother)
    cases event with
    | call node found => exact List.Forall₂.cons (h _ List.mem_cons_self) hrest
    | _ => exact hrest

/-- What comes before a node in the calls of a history has been recorded before it. -/
theorem nestedCalls_subperm (htranscribed : Transcribed src history nodes)
    {before after : List Members} {node : Members}
    (heq : history.mentions .call = before ++ node :: after) :
    node.nestedCalls.Subperm before := by
  obtain ⟨first, rest, rfl, rfl, hrest⟩ := List.filterMap_eq_append_iff.mp heq
  obtain ⟨silent, event, later, rfl, hsilent, hevent, -⟩ := List.filterMap_eq_cons_iff.mp hrest
  have hnone : TreeHistory.mentions .call silent = [] := List.filterMap_eq_nil_iff.mpr hsilent
  cases event with
  | call other found =>
    obtain rfl := Option.some.inj hevent
    have hnested := htranscribed.nested (first ++ silent) other found later (by simp)
    rwa [TreeHistory.mentions_append, hnone, List.append_nil] at hnested
  | _ => cases hevent

end Recorded

variable {path text : String} {tree : Members} {unit : SourceUnit}

/-- **Every call is recorded once.**  The calls of the model of a documented tree are the calls in
its function bodies and initialisers, and wherever else a declaration has any, each with its span
and after all calls nested in it; annotating them adds, drops and moves none. -/
theorem recordsCalls_of_readTree (h : readTree path text tree = .ok unit)
    (hdoc : (Json.obj tree).Documented) : ∃ nodes, unit.RecordsCalls tree nodes := by
  obtain ⟨history, htranscribed, ⟨clause, hread⟩, -, hcalls⟩ := exists_transcript_of_readTree h hdoc
  have hrecorded := forall₂_calls htranscribed.faithful
  rw [← calls_ofHistory] at hrecorded
  refine ⟨history.mentions .call, ?_, ?_, fun _ _ _ => nestedCalls_subperm htranscribed,
    clause, _, hread, ?_⟩
  · rw [hcalls, List.forall₂_map_right_iff]
    refine hrecorded.imp fun node call hcall => ?_
    rw [span_annotated]
    exact hcall.1
  · rw [← mentionsIn_call_fileReadNodes hdoc]
    exact htranscribed.mentions .call
  · have hbare : ∀ call ∈ (Draft.ofHistory history).calls,
        (annotated (unit.withComments unit.comments) call).bare = call := by
      intro call hcall
      rw [calls_ofHistory] at hcall
      obtain ⟨event, hevent, hfound⟩ := List.mem_filterMap.mp hcall
      have hfaithful := htranscribed.faithful event hevent
      cases event with
      | call node found =>
        obtain rfl := Option.some.inj hfound
        exact bare_annotated _ hfaithful.2
      | _ => cases hfound
    rw [hcalls, List.map_map]
    exact (List.map_id _).symm.trans (List.map_congr_left fun call hcall => (hbare call hcall).symm)

/-- A call in the argument of a call, and a comment behind them. -/
def nestedCallText : String := "package p; var a = g(h()) // why"

def nestedCallTree : Members :=
  lineNode "File" 0 32 [
    ("package", .obj (lineNode "Ident" 8 9 [("name", .str "p")])),
    ("comments", .arr [.obj (lineNode "CommentGroup" 26 32 [
      ("list", .arr [.obj (lineNode "Comment" 26 32 [("text", .str "// why")])])])]),
    ("decls", .arr [.obj (lineNode "GenDecl" 11 25 [
      ("tok", .str "var"),
      ("specs", .arr [.obj (lineNode "ValueSpec" 15 25 [
        ("names", .arr [.obj (lineNode "Ident" 15 16 [("name", .str "a")])]),
        ("values", .arr [.obj (lineNode "CallExpr" 19 25 [
          ("fun", .obj (lineNode "Ident" 19 20 [("name", .str "g")])),
          ("args", .arr [.obj (lineNode "CallExpr" 21 24 [
            ("fun", .obj (lineNode "Ident" 21 22 [("name", .str "h")]))])])])])])])])])]

/-- The inner call comes first, and both get the comment. -/
theorem recordsCalls_nestedCallTree :
    ∃ unit, readTree "p.go" nestedCallText nestedCallTree = .ok unit ∧
      unit.calls.map (fun call => (call.callee, call.annotation)) =
        [("h", some "why"), ("g", some "why")] ∧
      ∃ nodes, unit.RecordsCalls nestedCallTree nodes := by
  have hcalls : ((readTree "p.go" nestedCallText nestedCallTree).toOption.map fun unit =>
      unit.calls.map fun call => (call.callee, call.annotation)) =
        some [("h", some "why"), ("g", some "why")] := by decide +kernel
  cases h : readTree "p.go" nestedCallText nestedCallTree with
  | error fault =>
    rw [h] at hcalls
    cases hcalls
  | ok unit =>
    rw [h] at hcalls
    exact ⟨unit, rfl, Option.some.inj hcalls, recordsCalls_of_readTree h (by decide +kernel)⟩

end GoConventions
