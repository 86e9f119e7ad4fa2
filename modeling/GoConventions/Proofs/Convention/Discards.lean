import GoConventions.Proofs.Convention.Remarks
import GoConventions.Proofs.Tree.RegisteredFile

/-!
# Discarded errors

An error is thrown away by a call that is the whole of an expression statement or of a go statement,
and by one whose results are bound one to one to targets, by an assignment, a definition or a
declaration of variables, when the target at the place of an error is the blank identifier.

The rule on discarded errors goes by the context and the targets of a recorded call.  So it says so
of every call in a documented tree whose results are known and whose comment does not say that an
error is discarded on purpose, with three exceptions: it passes over what a declaration of variables
throws away, takes the operand of a selection in a statement for the whole of the statement, and a
compound assignment for one that binds.

## Main definitions

* `SourceUnit.KnowsResults`: which results of a call are known to be errors.
* `Standing.ThrowsAway`, `Standing.Misjudged`: what becomes of the errors among the results of a
  call, and where the rule goes wrong.
* `Context.FindsDiscards`: what the findings on discarded errors are.

## Main results

* `findsDiscards_of_readTree`: errors that are thrown away are found, but for the exceptions.
-/

namespace GoConventions

/-! ## Known results -/

/-- A function of the file that a name in a call may mean: a function for a plain name, a method for
a name whose qualifier is no import. -/
def SourceUnit.MayMean (unit : SourceUnit) (callee : String) (decl : Declaration) : Prop :=
  decl ∈ unit.functions ∧
    if Text.hasChar '.' callee then
      (∀ other ∈ unit.declarations, other.kind = .importName →
        other.name ≠ Text.beforeLastPart '.' callee) ∧
      decl.kind = .method ∧ decl.name = calleeName callee
    else decl.kind = .function ∧ decl.name = callee

/-- It is known which results of a call are errors: from the parser, or else from the table of
common calls, or else from the functions of the file that are called so, if all have the same
results. -/
inductive SourceUnit.KnowsResults (unit : SourceUnit) (call : CallSite) : List Bool → Prop where
  | stated {types : List String} (h : call.results = some types) :
      KnowsResults unit call (types.map (· == "error"))
  | listed {arity : Nat} (hunstated : call.results = none)
      (h : (call.callee, arity) ∈ knownErrorCalls) :
      KnowsResults unit call (List.replicate (arity - 1) false ++ [true])
  | agreed {types : List String} (hunstated : call.results = none)
      (hunlisted : ∀ arity, (call.callee, arity) ∉ knownErrorCalls)
      (hsome : ∃ decl, unit.MayMean call.callee decl)
      (hall : ∀ decl, unit.MayMean call.callee decl → decl.results = types) :
      KnowsResults unit call (types.map (· == "error"))

section Results

variable {unit : SourceUnit} {call : CallSite} {errors : List Bool}

/-- A list of which all elements are the same has one element without repetitions. -/
theorem eraseDups_eq_singleton {α : Type} [BEq α] [LawfulBEq α] {xs : List α} {x : α}
    (hsome : x ∈ xs) (hall : ∀ y ∈ xs, y = x) : xs.eraseDups = [x] := by
  cases xs with
  | nil => cases hsome
  | cons y ys =>
    obtain ⟨rfl, hrest⟩ := List.forall_mem_cons.mp hall
    have hnone : ys.filter (fun z => !z == y) = [] :=
      List.filter_eq_nil_iff.mpr fun z hz => by simp [hrest z hz]
    rw [List.eraseDups_cons, hnone, List.eraseDups_nil]

theorem localResults?_eq_some {types : List String}
    (hsome : ∃ decl, unit.MayMean call.callee decl)
    (hall : ∀ decl, unit.MayMean call.callee decl → decl.results = types) :
    localResults? unit call = some types := by
  -- The candidates are the functions that the name may mean.
  have hcandidates : ∀ candidates : List Declaration,
      (∀ decl, decl ∈ candidates ↔ unit.MayMean call.callee decl) →
        (candidates.map (·.results)).eraseDups = [types] := by
    intro candidates hmem
    obtain ⟨decl, hdecl⟩ := hsome
    refine eraseDups_eq_singleton ?_ fun results hresults => ?_
    · rw [← hall decl hdecl]
      exact List.mem_map_of_mem ((hmem decl).mpr hdecl)
    · obtain ⟨other, hother, rfl⟩ := List.mem_map.mp hresults
      exact hall other ((hmem other).mp hother)
  unfold localResults?
  dsimp only
  rw [hcandidates]
  intro decl
  unfold SourceUnit.MayMean
  split
  case isTrue hqualified =>
    split
    case isTrue himport =>
      refine iff_of_false List.not_mem_nil fun ⟨_, hfree, _⟩ => ?_
      simp only [List.any_eq_true, Bool.and_eq_true, beq_iff_eq] at himport
      obtain ⟨other, hother, hkind, hname⟩ := himport
      exact hfree other hother hkind hname
    case isFalse himport =>
      simp only [List.any_eq_true, Bool.and_eq_true, beq_iff_eq, not_exists, not_and] at himport
      simp only [List.mem_filter, Bool.and_eq_true, beq_iff_eq, CallSite.name]
      exact and_congr_right fun _ => (and_iff_right himport).symm
  case isFalse => simp only [List.mem_filter, Bool.and_eq_true, beq_iff_eq]

theorem lookup_knownErrorCalls {callee : String} {arity : Nat}
    (h : (callee, arity) ∈ knownErrorCalls) : knownErrorCalls.lookup callee = some arity := by
  have hall : ∀ entry ∈ knownErrorCalls, knownErrorCalls.lookup entry.1 = some entry.2 := by decide
  exact hall _ h

/-- **What is known of the results of a call is what the rule goes by.** -/
theorem callResults_eq (h : unit.KnowsResults call errors) : callResults unit call = errors := by
  unfold callResults
  -- The sources are asked one after the other, and each case says that those before are silent.
  cases h with
  | stated h => rw [h]
  | listed hunstated h => rw [hunstated, lookup_knownErrorCalls h]
  | agreed hunstated hunlisted hsome hall =>
    have hnone : knownErrorCalls.lookup call.callee = none := by
      refine List.lookup_eq_none_iff.mpr fun entry hentry => ?_
      refine bne_iff_ne.mpr fun heq => hunlisted entry.2 ?_
      rw [heq]
      exact hentry
    rw [hunstated, hnone, localResults?_eq_some hsome hall]
    rfl

end Results

/-! ## What becomes of an error -/

/-- A target is the blank identifier. -/
def SourceText.IsBlank (src : SourceText) (target : Members) : Prop :=
  targetName src target = .ok "_"

/-- Results are bound one to one to targets, and one that is an error to the blank identifier. -/
def SourceText.BlanksError (src : SourceText) (errors : List Bool) (targets : List Members) :
    Prop :=
  targets.length = errors.length ∧
    ∃ pair ∈ errors.zip targets, pair.1 = true ∧ src.IsBlank pair.2

/-- The token of an assignment that binds its targets to its values.  It may be left out. -/
def Json.isBinding (token : Json) : Bool :=
  match token with
  | .null => true
  | token => token.isText "=" || token.isText ":="

/-- A call with a standing throws an error away. -/
def Standing.ThrowsAway (src : SourceText) (errors : List Bool) : Standing → Prop
  | .whole => true ∈ errors
  | .assigned token targets => token.isBinding = true ∧ src.BlanksError errors targets
  | .declared names => src.BlanksError errors names
  | _ => False

/-- The rule goes wrong about a call with a standing: the operand of a selection in a statement, a
compound assignment, and a declaration of variables. -/
def Standing.Misjudged (src : SourceText) (errors : List Bool) : Standing → Prop
  | .operand => true ∈ errors
  | .assigned token targets => token.isBinding = false ∧ src.BlanksError errors targets
  | .declared names => src.BlanksError errors names
  | _ => False

/-- What the rule takes for an error that is thrown away. -/
def Standing.LooksDiscarded (src : SourceText) (errors : List Bool) : Standing → Prop
  | .whole | .operand => true ∈ errors
  | .assigned _ targets => src.BlanksError errors targets
  | _ => False

section Standings

variable {src : SourceText} {errors : List Bool} {call : CallSite} {entry : Members × Standing}

theorem any_zip_eq_true {targets : List Members} {names : List String}
    (h : List.Forall₂ (fun target name => targetName src target = .ok name) targets names) :
    ((errors.zip names).any fun (isError, name) => isError && name == "_") = true ↔
      ∃ pair ∈ errors.zip targets, pair.1 = true ∧ src.IsBlank pair.2 := by
  induction h generalizing errors with
  | nil => simp
  | @cons target name targets names hname _ ih =>
    cases errors with
    | nil => simp
    | cons isError errors =>
      have hblank : src.IsBlank target ↔ name = "_" := by
        unfold SourceText.IsBlank
        rw [hname, Except.ok.injEq]
      rw [List.zip_cons_cons, List.zip_cons_cons, List.any_cons, Bool.or_eq_true, ih,
        List.exists_mem_cons_iff, Bool.and_eq_true, beq_iff_eq, hblank]

/-- **The rule goes by the standing of a call.** -/
theorem discardsError_iff (h : call.StandsFor src entry) :
    discardsError call errors = true ↔ entry.2.LooksDiscarded src errors := by
  obtain ⟨targets, hrecorded, hnames⟩ := h.recorded
  -- Two contexts ask for any error, two for one at a blank target, and all others for none.
  have hquiet : call.context ∉ [.statement, .go, .define, .assign] →
      discardsError call errors = false := by
    intro hcontext
    unfold discardsError
    split <;> simp_all
  have hloud : call.context = .statement ∨ call.context = .go →
      (discardsError call errors = true ↔ true ∈ errors) := by
    intro hcontext
    unfold discardsError
    rcases hcontext with hcontext | hcontext <;> rw [hcontext] <;> exact List.contains_iff_mem
  cases hstanding : entry.2 with
  | whole =>
    rw [hstanding] at hrecorded
    exact hloud hrecorded
  | operand =>
    rw [hstanding] at hrecorded
    exact hloud hrecorded
  | assigned token found =>
    rw [hstanding] at hrecorded
    obtain ⟨hcontext, rfl⟩ := hrecorded
    have hbinds : discardsError call errors = true ↔
        call.targets.length = errors.length ∧
          ((errors.zip call.targets).any fun (isError, name) => isError && name == "_") = true := by
      unfold discardsError
      rcases hcontext with hcontext | hcontext <;> rw [hcontext] <;> simp
    rw [hbinds, any_zip_eq_true hnames, ← hnames.length_eq]
    exact Iff.rfl
  | declared names =>
    rw [hstanding] at hrecorded
    exact iff_of_false (Bool.eq_false_iff.mp (hquiet hrecorded)) id
  | other =>
    rw [hstanding] at hrecorded
    exact iff_of_false (Bool.eq_false_iff.mp (hquiet hrecorded)) id
  | declaration => rw [hstanding] at hrecorded; cases hrecorded
  | specified => rw [hstanding] at hrecorded; cases hrecorded

/-- The rule is right about a standing unless it is one of the exceptions. -/
theorem looksDiscarded_iff_throwsAway {standing : Standing} :
    (standing.LooksDiscarded src errors ↔ standing.ThrowsAway src errors) ↔
      ¬ standing.Misjudged src errors := by
  cases standing with
  | assigned token targets =>
    unfold Standing.LooksDiscarded Standing.ThrowsAway Standing.Misjudged
    cases hbinding : token.isBinding <;> simp [hbinding]
  | _ => simp [Standing.LooksDiscarded, Standing.ThrowsAway, Standing.Misjudged]

end Standings

/-! ## The findings of the rule -/

/-- Whether the rule on discarded errors remarks on a call. -/
def Context.discards (context : Context) (call : CallSite) : Bool :=
  (discardRemark? context call).isSome

section Findings

variable {context : Context}

/-- The rule remarks on a call as it stands, if its results are known and no comment excuses it. -/
theorem discards_iff {call : CallSite} {entry : Members × Standing} {errors : List Bool}
    (hstands : call.StandsFor context.unit.toSourceText entry)
    (hknown : context.unit.KnowsResults call errors)
    (hnoted : call.discardNoted context.settings = false) :
    context.discards call = true ↔ entry.2.LooksDiscarded context.unit.toSourceText errors := by
  rw [← discardsError_iff hstands, ← callResults_eq hknown, Context.discards, discardRemark?,
    hnoted]
  cases discardsError call (callResults context.unit call) <;> rfl

/-- The remarks on discarded errors are those on the calls, one after the other. -/
theorem filter_errorRemarks (henabled : context.enabled "ERR002" = true) :
    (remarksOf (errorChecks context)).filter (·.ruleId == "ERR002") =
      context.unit.calls.filterMap (discardRemark? context) := by
  have hsignatures : AllMeet context.unit "ERR001"
      (context.unit.functions.filterMap errorLastRemark?) :=
    .filterMap fun decl hdecl => allMeet_errorLastRemark? (List.mem_of_mem_filter hdecl)
  have hsentinels : AllMeet context.unit "ERR005"
      (context.unit.declarations.filterMap (sentinelRemark? context.unit)) :=
    .filterMap fun decl hdecl => allMeet_sentinelRemark? hdecl
  -- Of all that is said about a call, one remark is on discarded errors.
  have hcalls : ∀ names, ∀ call ∈ context.unit.calls,
      (remarksOf (callChecks context names call)).filter (·.ruleId == "ERR002") =
        (discardRemark? context call).toList := by
    intro names call hcall
    rw [remarksOf_callChecks, List.filter_append, List.filter_append,
      filter_whenEnabled_self henabled (allMeet_discardRemark? hcall)]
    have hpanics : (if call.callee == "panic" then
        context.whenEnabled "ERR006" (remarksOf [panicRemark? context.unit call])
        else []).filter (fun remark : Remark => remark.ruleId == "ERR002") = [] := by
      split
      · exact filter_whenEnabled_of_ne (by decide) (allMeet_panicRemark? hcall)
      · rfl
    rw [hpanics, List.append_nil]
    cases htext : call.errorText? with
    | none => exact List.append_nil _
    | some found =>
      obtain ⟨literal, text⟩ := found
      have hliteral := mem_args_of_errorText? htext
      dsimp only
      rw [List.filter_append,
        filter_whenEnabled_of_ne (by decide) (allMeet_errorTextRemark? names text hcall hliteral),
        filter_whenEnabled_of_ne (by decide) (allMeet_wrapRemark? text hcall hliteral),
        List.append_nil, List.append_nil]
  simp only [errorChecks, remarksOf_append, remarksOf_flatMap, remarksOf_whenEnabled,
    remarksOf_map_pure]
  rw [List.filter_append, List.filter_append, filter_whenEnabled_of_ne (by decide) hsignatures,
    filter_whenEnabled_of_ne (by decide) hsentinels, List.nil_append, List.nil_append,
    List.filter_flatMap, List.filterMap_eq_flatMap_toList]
  exact List.flatMap_congr fun call hcall => hcalls _ call hcall

/-- What the rule says of a call. -/
theorem map_discardRemark? (calls : List CallSite) :
    (calls.filterMap (discardRemark? context)).map (fun remark => (remark.span, remark.message)) =
      (calls.filter context.discards).map fun call =>
        (call.span, "error returned by " ++ call.callee ++ " is discarded") := by
  induction calls with
  | nil => rfl
  | cons call calls ih =>
    rw [List.filterMap_cons, List.filter_cons, Context.discards]
    cases hremark : discardRemark? context call with
    | none => simpa using ih
    | some remark =>
      unfold discardRemark? at hremark
      split at hremark
      · obtain rfl := Option.some.inj hremark
        simpa using ih
      · cases hremark

end Findings

/-- The findings on discarded errors are those on the calls of a tree that the rule remarks on, and
these are the calls that throw an error away, as far as their results are known, no comment says
that this is on purpose, and the rule does not go wrong about where they stand. -/
structure Context.FindsDiscards (context : Context) (tree : Members) (findings : List Finding) :
    Prop where
  evaluated : errorsEvaluator.evaluate context = .ok findings
  reported : (findings.filter (·.ruleId == "ERR002")).map (fun f => (f.span, f.message)) =
    (context.unit.calls.filter context.discards).map fun call =>
      (call.span, "error returned by " ++ call.callee ++ " is discarded")
  recorded : context.unit.RecordsStandings tree
  judged : ∀ entry ∈ tree.fileStandings, ∀ call ∈ context.unit.calls,
    call.StandsFor context.unit.toSourceText entry →
      ∀ errors, context.unit.KnowsResults call errors →
        call.discardNoted context.settings = false →
          ((context.discards call = true ↔
            entry.2.ThrowsAway context.unit.toSourceText errors) ↔
              ¬ entry.2.Misjudged context.unit.toSourceText errors)

/-- **Errors that are thrown away are found**, and no others, but for the operands of selections,
compound assignments and declarations of variables. -/
theorem findsDiscards_of_readTree {context : Context} {path text : String} {tree : Members}
    (h : readTree path text tree = .ok context.unit) (hdoc : (Json.obj tree).Documented)
    (henabled : context.enabled "ERR002" = true) :
    ∃ findings, context.FindsDiscards tree findings := by
  obtain ⟨findings, hevaluated⟩ : ∃ findings, errorsEvaluator.evaluate context = .ok findings :=
    exists_findings_of_checks (allAnswer_errorChecks (complete_of_readTree h))
      acceptsAll_errorRemarks
  refine ⟨findings, hevaluated, ?_, recordsStandings_of_readTree h hdoc, ?_⟩
  · have hfindings := (Evaluator.ofChecks_eq_ok.mp hevaluated).2
    rw [Context.map_filter_findings hfindings "ERR002", filter_errorRemarks henabled,
      map_discardRemark?]
  · intro entry _ call _ hstands errors hknown hnoted
    rw [discards_iff hstands hknown hnoted]
    exact looksDiscarded_iff_throwsAway

/-! ## Errors that are thrown away in three ways -/

/-- A function that calls another one as a statement, and binds its error to the blank identifier by
an assignment and by a declaration. -/
def blankText : String :=
  "package p; func f() error { return nil }; func g() { f(); _ = f(); var _ = f() }"

def blankName (start : Int) : Members :=
  lineNode "Ident" start (start + 1) [("name", .str "_")]

def blankCall (start : Int) : Members :=
  lineNode "CallExpr" start (start + 3) [
    ("fun", .obj (lineNode "Ident" start (start + 1) [("name", .str "f")]))]

/-- The declaration among the statements of the second function. -/
def blankDeclaration : Members :=
  lineNode "GenDecl" 67 78 [
    ("tok", .str "var"),
    ("specs", .arr [.obj (lineNode "ValueSpec" 71 78 [
      ("names", .arr [.obj (blankName 71)]),
      ("values", .arr [.obj (blankCall 75)])])])]

def blankFunction : Members :=
  lineNode "FuncDecl" 42 80 [
    ("name", .obj (lineNode "Ident" 47 48 [("name", .str "g")])),
    ("type", .obj (lineNode "FuncType" 42 50 [
      ("params", .obj (lineNode "FieldList" 48 50 []))])),
    ("body", .obj (lineNode "BlockStmt" 51 80 [
      ("list", .arr [
        .obj (lineNode "ExprStmt" 53 56 [("x", .obj (blankCall 53))]),
        .obj (lineNode "AssignStmt" 58 65 [
          ("lhs", .arr [.obj (blankName 58)]), ("tok", .str "="),
          ("rhs", .arr [.obj (blankCall 62)])]),
        .obj (lineNode "DeclStmt" 67 78 [("decl", .obj blankDeclaration)])])]))]

def blankTree : Members :=
  lineNode "File" 0 80 [
    ("package", .obj (lineNode "Ident" 8 9 [("name", .str "p")])),
    ("decls", .arr [
      .obj (lineNode "FuncDecl" 11 40 [
        ("name", .obj (lineNode "Ident" 16 17 [("name", .str "f")])),
        ("type", .obj (lineNode "FuncType" 11 25 [
          ("params", .obj (lineNode "FieldList" 17 19 [])),
          ("results", .obj (lineNode "FieldList" 20 25 [
            ("list", .arr [.obj (lineNode "Field" 20 25 [
              ("type", .obj (lineNode "Ident" 20 25 [("name", .str "error")]))])])]))])),
        ("body", .obj (lineNode "BlockStmt" 26 40 [
          ("list", .arr [.obj (lineNode "ReturnStmt" 28 38 [
            ("results", .arr [.obj (lineNode "Ident" 35 38 [("name", .str "nil")])])])])]))]),
      .obj blankFunction])]

/-- The statement and the assignment are found, and the declaration is not. -/
theorem findsDiscards_blankTree : ∃ (context : Context) (findings : List Finding),
    readTree "p.go" blankText blankTree = .ok context.unit ∧ context.enabled "ERR002" = true ∧
      context.FindsDiscards blankTree findings ∧
      (findings.filter (·.ruleId == "ERR002")).map (fun f => (f.span.start.offset, f.message)) =
        [(53, "error returned by f is discarded"), (62, "error returned by f is discarded")] := by
  have hcalls : ((readTree "p.go" blankText blankTree).toOption.map fun unit =>
      (unit.calls.filter (Context.discards ⟨unit, packagedRegistry.toRuleSet, {}⟩)).map fun call =>
        (call.span.start.offset, "error returned by " ++ call.callee ++ " is discarded")) = some
          [(53, "error returned by f is discarded"), (62, "error returned by f is discarded")] := by
    decide +kernel
  obtain ⟨unit, hunit, hcalls⟩ := Option.map_eq_some_iff.mp hcalls
  let context : Context := ⟨unit, packagedRegistry.toRuleSet, {}⟩
  have hread : readTree "p.go" blankText blankTree = .ok context.unit := toOption_eq_some.mp hunit
  have henabled : context.enabled "ERR002" = true :=
    show packagedRegistry.toRuleSet.contains "ERR002" = true by decide +kernel
  obtain ⟨findings, hfinds⟩ := findsDiscards_of_readTree hread (by decide +kernel) henabled
  refine ⟨context, findings, hread, henabled, hfinds, ?_⟩
  have hreported := congrArg (List.map fun said => (said.1.start.offset, said.2)) hfinds.reported
  rw [List.map_map, List.map_map] at hreported
  exact hreported.trans hcalls

/-- The declaration binds the call to the blank identifier. -/
theorem mem_fileStandings_blankTree :
    (blankCall 75, Standing.declared [blankName 71]) ∈ blankTree.fileStandings := by
  let entry : Members × Standing := (blankCall 75, .declared [blankName 71])
  have hcall : entry ∈ (Json.obj (blankCall 75)).standings (.declared [blankName 71]) :=
    .here (by decide +kernel)
  have hspec : entry ∈ (Json.obj (lineNode "ValueSpec" 71 78 [
      ("names", .arr [.obj (blankName 71)]),
      ("values", .arr [.obj (blankCall 75)])])).standings .specified :=
    .bound rfl (List.mem_singleton_self _) hcall
  have hdecl : entry ∈ (Json.obj blankDeclaration).standings .declaration :=
    mem_standings_of_get "specs" (by decide) nofun (.item (List.mem_singleton_self _) hspec)
  have hstatement : entry ∈
      (Json.obj (lineNode "DeclStmt" 67 78 [("decl", .obj blankDeclaration)])).standings .other :=
    mem_standings_of_get "decl" (by decide) nofun hdecl
  have hbody : entry ∈ (blankFunction.get "body").standings .other :=
    mem_standings_of_get "list" (by decide) nofun
      (.item (.tail _ (.tail _ (.head _))) hstatement)
  have hfunction : entry ∈ blankFunction.codeStandings := by
    rw [Members.codeStandings, if_neg (by decide), if_pos (by decide)]
    exact Or.inr hbody
  exact Set.mem_biUnion (List.mem_cons_of_mem _ (List.mem_singleton_self blankFunction)) hfunction

/-- **Not every error that is thrown away is found**: a declaration of variables throws one away
unseen. -/
theorem not_forall_discards_iff_throwsAway :
    ¬ ∀ (context : Context) (path text : String) (tree : Members),
      readTree path text tree = .ok context.unit → (Json.obj tree).Documented →
        context.enabled "ERR002" = true → ∀ entry ∈ tree.fileStandings,
          ∀ call ∈ context.unit.calls, call.StandsFor context.unit.toSourceText entry →
            ∀ errors, context.unit.KnowsResults call errors →
              call.discardNoted context.settings = false →
                (context.discards call = true ↔
                  entry.2.ThrowsAway context.unit.toSourceText errors) := by
  intro hall
  have hfacts : ((readTree "p.go" blankText blankTree).toOption.map fun unit =>
      (unit.calls.all (fun call => !call.discardNoted {}) &&
        unit.functions.all fun decl => decl.name != "f" || decl.results == ["error"]) &&
          unit.functions.any fun decl => decl.kind == .function && decl.name == "f") =
        some true := by decide +kernel
  obtain ⟨unit, hunit, hfacts⟩ := Option.map_eq_some_iff.mp hfacts
  simp only [Bool.and_eq_true, List.all_eq_true, List.any_eq_true, Bool.not_eq_true',
    Bool.or_eq_true, bne_iff_ne, beq_iff_eq] at hfacts
  obtain ⟨⟨hbare, hresults⟩, decl, hdecl, hkind, hname⟩ := hfacts
  let context : Context := ⟨unit, packagedRegistry.toRuleSet, {}⟩
  have hread : readTree "p.go" blankText blankTree = .ok context.unit := toOption_eq_some.mp hunit
  have hdoc : (Json.obj blankTree).Documented := by decide +kernel
  have henabled : context.enabled "ERR002" = true :=
    show packagedRegistry.toRuleSet.contains "ERR002" = true by decide +kernel
  obtain ⟨call, hcall, hstands⟩ :=
    (recordsStandings_of_readTree hread hdoc).complete _ mem_fileStandings_blankTree
  -- The only function of that name has one result, and that is an error.
  have hcallee : call.callee = "f" := (Except.ok.inj hstands.callee_eq).symm
  have hplain : Text.hasChar '.' call.callee = false := by rw [hcallee]; decide
  have hmeans : ∀ decl, unit.MayMean call.callee decl ↔
      decl ∈ unit.functions ∧ decl.kind = .function ∧ decl.name = "f" := by
    intro decl
    rw [SourceUnit.MayMean, hplain, if_neg Bool.false_ne_true, hcallee]
  have hknown : context.unit.KnowsResults call (["error"].map (· == "error")) := by
    refine .agreed hstands.results_eq ?_ ⟨decl, (hmeans decl).mpr ⟨hdecl, hkind, hname⟩⟩ ?_
    · have hunlisted : ∀ entry ∈ knownErrorCalls, entry.1 ≠ "f" := by decide
      exact fun arity hlisted => hunlisted _ hlisted hcallee
    · intro other hother
      obtain ⟨hmem, -, hother⟩ := (hmeans other).mp hother
      exact (hresults other hmem).resolve_left fun hne => hne hother
  have hnoted : call.discardNoted context.settings = false := hbare call hcall
  have hiff := hall context _ _ _ hread hdoc henabled _ mem_fileStandings_blankTree call hcall
    hstands _ hknown hnoted
  have hthrows : (Standing.declared [blankName 71]).ThrowsAway context.unit.toSourceText
      (["error"].map (· == "error")) := ⟨rfl, _, List.mem_singleton_self _, rfl, rfl⟩
  exact (discards_iff hstands hknown hnoted).mp (hiff.mpr hthrows)

end GoConventions
