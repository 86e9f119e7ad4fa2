import GoConventions.Proofs.Convention.Remarks
import GoConventions.Rule.Packaged

/-!
# Names of receivers

The methods of a type should give their receivers one name.  The first method of the type that names
its receiver sets it, and the first one after it that uses another name is remarked upon; after that
nothing more is said about the type, whatever names follow.

One pass over the functions of a file looks at all types at once.  It carries the name that each
type has been given and the types that have been remarked upon, and both are determined by the
functions that it has passed (`TracksReceivers`).  So each function extends them by what it adds to
its own type, and types do not get in the way of one another, however their methods are interleaved.

## Main definitions

* `Declaration.NamesReceiver`: a method names its receiver, which is then neither empty nor blank.
* `IsDivided`: the methods of a type use different names.
* `FirstDivergence`: the first method of a type that uses another name than those before it.
* `ReportsDivisions`: what is said is one thing for each divided type.

## Main results

* `forall₂_receiverRemarks`: what a pass states from any point on.
* `reportsDivisions_of_enabled`: the findings on the names of receivers.
-/

namespace GoConventions

/-! ## The names that receivers have -/

/-- A function with a receiver, which is a method, names it. -/
structure Declaration.NamesReceiver (decl : Declaration) (receiver : Receiver) (name : String) :
    Prop where
  receiver_eq : decl.receiver = some receiver
  name_eq : receiver.name = some name
  ne_empty : name ≠ ""
  ne_blank : name ≠ "_"

theorem Declaration.namedReceiver?_eq_some {decl : Declaration} {receiver : Receiver}
    {name : String} :
    decl.namedReceiver? = some (receiver, name) ↔ decl.NamesReceiver receiver name := by
  simp only [namedReceiver?, Option.bind_eq_bind, Option.bind_eq_some_iff]
  constructor
  · rintro ⟨found, hfound, given, hgiven, hnamed⟩
    split at hnamed
    case isTrue => cases hnamed
    case isFalse husable =>
      obtain ⟨rfl, rfl⟩ := Prod.mk.inj (Option.some.inj hnamed)
      simp only [Bool.or_eq_true, String.isEmpty_iff, beq_iff_eq, not_or] at husable
      exact ⟨hfound, hgiven, husable.1, husable.2⟩
  · rintro ⟨hreceiver, hname, hempty, hblank⟩
    refine ⟨receiver, hreceiver, name, hname, if_neg ?_⟩
    simp only [Bool.or_eq_true, String.isEmpty_iff, beq_iff_eq, not_or]
    exact ⟨hempty, hblank⟩

/-- The names that the methods of a type give their receivers, in the order of the methods. -/
def receiverNames (typeName : String) (decls : List Declaration) : List String :=
  decls.filterMap fun decl =>
    (decl.namedReceiver?.filter fun named => named.1.typeName == typeName).map (·.2)

/-- The methods of a type give their receivers different names. -/
def IsDivided (decls : List Declaration) (typeName : String) : Prop :=
  ∃ name ∈ receiverNames typeName decls, ∃ other ∈ receiverNames typeName decls, name ≠ other

/-- A method is the first of its type that diverges: it gives its receiver another name than the
first one of the type, which all others before it use too. -/
structure FirstDivergence (before : List Declaration) (typeName first : String)
    (decl : Declaration) (receiver : Receiver) (name : String) : Prop where
  names : decl.NamesReceiver receiver name
  typeName_eq : receiver.typeName = typeName
  first_eq : (receiverNames typeName before).head? = some first
  same : ∀ other ∈ receiverNames typeName before, other = first
  ne_first : name ≠ first

section Names

variable {typeName name : String} {before after : List Declaration} {decl : Declaration}
  {receiver : Receiver}

theorem receiverNames_append : receiverNames typeName (before ++ after) =
    receiverNames typeName before ++ receiverNames typeName after :=
  List.filterMap_append

/-- A function that does not name a receiver says nothing about any type. -/
theorem receiverNames_concat_of_none (h : decl.namedReceiver? = none) :
    receiverNames typeName (before ++ [decl]) = receiverNames typeName before := by
  simp [receiverNames, h]

/-- A method adds its name to those of its own type. -/
theorem receiverNames_concat (h : decl.NamesReceiver receiver name) :
    receiverNames typeName (before ++ [decl]) =
      receiverNames typeName before ++ if receiver.typeName = typeName then [name] else [] := by
  rw [receiverNames_append]
  congr 1
  rw [receiverNames, List.filterMap_cons, Declaration.namedReceiver?_eq_some.mpr h]
  by_cases htype : receiver.typeName = typeName <;> simp [htype, Option.filter]

theorem IsDivided.append (h : IsDivided before typeName) :
    IsDivided (before ++ after) typeName := by
  obtain ⟨name, hname, other, hother, hne⟩ := h
  refine ⟨name, ?_, other, ?_, hne⟩ <;> rw [receiverNames_append] <;>
    exact List.mem_append_left _ ‹_›

/-- All names of a type that is not divided are the first one. -/
theorem eq_head_of_not_isDivided {first : String} (h : ¬ IsDivided before typeName)
    (hfirst : (receiverNames typeName before).head? = some first) :
    ∀ other ∈ receiverNames typeName before, other = first := by
  intro other hother
  by_contra hne
  exact h ⟨other, hother, first, List.mem_of_head? hfirst, hne⟩

end Names

/-! ## One pass over the functions -/

/-- What a pass carries when it has passed some functions: the first name of each type, and the
types that are divided so far. -/
structure TracksReceivers (passed : List Declaration) (names : List (String × String))
    (reported : List String) : Prop where
  lookup_eq : ∀ typeName, names.lookup typeName = (receiverNames typeName passed).head?
  contains_iff : ∀ typeName, reported.contains typeName = true ↔ IsDivided passed typeName

namespace TracksReceivers

variable {passed : List Declaration} {names : List (String × String)} {reported : List String}
  {decl : Declaration} {receiver : Receiver} {name first : String}

theorem nil : TracksReceivers [] [] [] where
  lookup_eq _ := rfl
  contains_iff _ := iff_of_false nofun fun ⟨_, hname, _⟩ => List.not_mem_nil hname

/-- A function that does not name a receiver changes nothing. -/
theorem concat_of_none (h : TracksReceivers passed names reported)
    (hdecl : decl.namedReceiver? = none) : TracksReceivers (passed ++ [decl]) names reported where
  lookup_eq typeName := by rw [receiverNames_concat_of_none hdecl, h.lookup_eq]
  contains_iff typeName := by
    rw [h.contains_iff, IsDivided, IsDivided, receiverNames_concat_of_none hdecl]

/-- The types of other methods are divided as before. -/
theorem isDivided_concat_of_ne {typeName : String} (hnames : decl.NamesReceiver receiver name)
    (hne : receiver.typeName ≠ typeName) :
    IsDivided (passed ++ [decl]) typeName ↔ IsDivided passed typeName := by
  rw [IsDivided, IsDivided, receiverNames_concat hnames, if_neg hne, List.append_nil]

/-- The first method of a type sets its name. -/
theorem concat_of_lookup_eq_none (h : TracksReceivers passed names reported)
    (hnames : decl.NamesReceiver receiver name) (hnone : names.lookup receiver.typeName = none) :
    TracksReceivers (passed ++ [decl]) ((receiver.typeName, name) :: names) reported := by
  have hnil : receiverNames receiver.typeName passed = [] := by
    rw [← List.head?_eq_none_iff, ← h.lookup_eq, hnone]
  constructor
  case lookup_eq =>
    intro typeName
    rw [receiverNames_concat hnames, List.lookup_cons]
    by_cases htype : receiver.typeName = typeName
    · subst htype
      simp [hnil]
    · have hother : (typeName == receiver.typeName) = false := beq_false_of_ne (Ne.symm htype)
      rw [hother, if_neg htype, List.append_nil]
      exact h.lookup_eq typeName
  case contains_iff =>
    intro typeName
    rw [h.contains_iff]
    by_cases htype : receiver.typeName = typeName
    · subst htype
      refine iff_of_false ?_ ?_
      · rintro ⟨other, hother, -⟩
        rw [hnil] at hother
        cases hother
      · rintro ⟨one, hone, other, hother, hne⟩
        rw [receiverNames_concat hnames, hnil, if_pos rfl, List.nil_append,
          List.mem_singleton] at hone hother
        exact hne (hone.trans hother.symm)
    · exact (isDivided_concat_of_ne hnames htype).symm

/-- A later method leaves the first name of its type as it is. -/
theorem lookup_concat (h : TracksReceivers passed names reported)
    (hnames : decl.NamesReceiver receiver name)
    (hfirst : names.lookup receiver.typeName = some first) (typeName : String) :
    names.lookup typeName = (receiverNames typeName (passed ++ [decl])).head? := by
  rw [h.lookup_eq, receiverNames_concat hnames]
  by_cases htype : receiver.typeName = typeName
  · subst htype
    rw [h.lookup_eq] at hfirst
    rw [List.head?_append, hfirst, Option.some_or]
  · rw [if_neg htype, List.append_nil]

/-- A method that uses the first name, or whose type has been remarked upon, divides no type. -/
theorem concat_of_settled (h : TracksReceivers passed names reported)
    (hnames : decl.NamesReceiver receiver name)
    (hfirst : names.lookup receiver.typeName = some first)
    (hsettled : name = first ∨ reported.contains receiver.typeName = true) :
    TracksReceivers (passed ++ [decl]) names reported := by
  refine ⟨h.lookup_concat hnames hfirst, fun typeName => ?_⟩
  rw [h.contains_iff]
  by_cases htype : receiver.typeName = typeName
  · subst htype
    refine ⟨IsDivided.append, fun hdivided => ?_⟩
    rcases hsettled with rfl | hreported
    · by_contra hnot
      -- The new name is one of those before it.
      rw [h.lookup_eq] at hfirst
      have hsame := eq_head_of_not_isDivided hnot hfirst
      obtain ⟨one, hone, other, hother, hne⟩ := hdivided
      have hall : ∀ given ∈ receiverNames receiver.typeName (passed ++ [decl]), given = name := by
        intro given hgiven
        rw [receiverNames_concat hnames, if_pos rfl, List.mem_append, List.mem_singleton] at hgiven
        exact hgiven.elim (hsame given) id
      exact hne ((hall one hone).trans (hall other hother).symm)
    · exact (h.contains_iff _).mp hreported
  · exact (isDivided_concat_of_ne hnames htype).symm

/-- A method that uses another name divides its type. -/
theorem isDivided_concat (h : TracksReceivers passed names reported)
    (hnames : decl.NamesReceiver receiver name)
    (hfirst : names.lookup receiver.typeName = some first) (hne : name ≠ first) :
    IsDivided (passed ++ [decl]) receiver.typeName := by
  rw [h.lookup_eq] at hfirst
  have hmem : receiverNames receiver.typeName (passed ++ [decl]) =
      receiverNames receiver.typeName passed ++ [name] := by
    rw [receiverNames_concat hnames, if_pos rfl]
  refine ⟨name, ?_, first, ?_, hne⟩ <;> rw [hmem]
  · exact List.mem_append_right _ (List.mem_singleton_self _)
  · exact List.mem_append_left _ (List.mem_of_head? hfirst)

theorem concat_of_divergence (h : TracksReceivers passed names reported)
    (hnames : decl.NamesReceiver receiver name)
    (hfirst : names.lookup receiver.typeName = some first) (hne : name ≠ first) :
    TracksReceivers (passed ++ [decl]) names (receiver.typeName :: reported) := by
  refine ⟨h.lookup_concat hnames hfirst, fun typeName => ?_⟩
  rw [List.contains_cons, Bool.or_eq_true, beq_iff_eq, h.contains_iff]
  by_cases htype : receiver.typeName = typeName
  · subst htype
    exact iff_of_true (.inl rfl) (h.isDivided_concat hnames hfirst hne)
  · rw [isDivided_concat_of_ne hnames htype]
    exact or_iff_right (Ne.symm htype)

end TracksReceivers

/-! ## What is said about receivers -/

/-- What is said about a type whose receivers diverge. -/
def divergenceMessage (typeName first : String) (decl : Declaration) (name : String) : String :=
  "receiver name " ++ name ++ " of " ++ typeName ++ "." ++ decl.name ++
    " should be consistent with previous receiver name " ++ first

/-- Something is said at a span about a type: the span is that of the first receiver of the type
that diverges. -/
def ReportsDivergence (decls : List Declaration) (typeName : String) (span : Span)
    (message : String) : Prop :=
  ∃ before decl after receiver name first, decls = before ++ decl :: after ∧
    FirstDivergence before typeName first decl receiver name ∧
    span = receiver.span ∧ message = divergenceMessage typeName first decl name

/-- **A pass states one remark for each type that it finds divided**, at the first method that
diverges: for the types that are not divided by the functions that it has passed, but are divided
with those that are left. -/
theorem forall₂_receiverRemarks (decls : List Declaration) {passed : List Declaration}
    {names : List (String × String)} {reported : List String}
    (h : TracksReceivers passed names reported) :
    ∃ types : List String, types.Nodup ∧
      (∀ typeName, typeName ∈ types ↔
        IsDivided (passed ++ decls) typeName ∧ ¬ IsDivided passed typeName) ∧
      List.Forall₂ (fun typeName (remark : Remark) =>
        ReportsDivergence (passed ++ decls) typeName remark.span remark.message)
        types (receiverRemarks names reported decls) := by
  -- The functions that are left become fewer, while the invariant speaks of those that are passed.
  induction decls generalizing passed names reported with
  | nil =>
    refine ⟨[], List.nodup_nil, fun typeName => ?_, .nil⟩
    rw [List.append_nil]
    exact iff_of_false List.not_mem_nil (and_not_self)
  | cons decl decls ih =>
    rw [List.append_cons]
    -- A method that divides no type leaves everything to those after it.
    have hskips : ∀ {names reported}, TracksReceivers (passed ++ [decl]) names reported →
        (∀ typeName, IsDivided (passed ++ [decl]) typeName ↔ IsDivided passed typeName) →
        ∃ types : List String, types.Nodup ∧
          (∀ typeName, typeName ∈ types ↔
            IsDivided (passed ++ [decl] ++ decls) typeName ∧ ¬ IsDivided passed typeName) ∧
          List.Forall₂ (fun typeName (remark : Remark) =>
            ReportsDivergence (passed ++ [decl] ++ decls) typeName remark.span remark.message)
            types (receiverRemarks names reported decls) := by
      intro names reported htracks hsame
      obtain ⟨types, hnodup, hmem, hreports⟩ := ih htracks
      exact ⟨types, hnodup, fun typeName => by rw [hmem, hsame], hreports⟩
    have hdivided : ∀ {names}, TracksReceivers (passed ++ [decl]) names reported →
        ∀ typeName, IsDivided (passed ++ [decl]) typeName ↔ IsDivided passed typeName :=
      fun htracks typeName => by rw [← htracks.contains_iff, h.contains_iff]
    unfold receiverRemarks
    split
    case h_1 hnone =>
      have htracks := h.concat_of_none hnone
      exact hskips htracks (hdivided htracks)
    case h_2 receiver name hnamed =>
      have hnames := Declaration.namedReceiver?_eq_some.mp hnamed
      split
      case h_1 hnone =>
        have htracks := h.concat_of_lookup_eq_none hnames hnone
        exact hskips htracks (hdivided htracks)
      case h_2 first hfirst =>
        split
        case isTrue hsettled =>
          rw [Bool.or_eq_true, beq_iff_eq] at hsettled
          have htracks := h.concat_of_settled hnames hfirst hsettled
          exact hskips htracks (hdivided htracks)
        case isFalse hdiverges =>
          rw [Bool.or_eq_true, beq_iff_eq, not_or, h.contains_iff] at hdiverges
          obtain ⟨hne, hwhole⟩ := hdiverges
          have htracks := h.concat_of_divergence hnames hfirst hne
          -- The type is divided from now on, so nothing is said about it again.
          have hnow := h.isDivided_concat hnames hfirst hne
          obtain ⟨types, hnodup, hmem, hreports⟩ := ih htracks
          refine ⟨receiver.typeName :: types, ?_, fun typeName => ?_, .cons ?_ hreports⟩
          · refine List.nodup_cons.mpr ⟨fun hlater => ?_, hnodup⟩
            exact ((hmem _).mp hlater).2 hnow
          · rw [List.mem_cons, hmem]
            by_cases htype : receiver.typeName = typeName
            · subst htype
              exact iff_of_true (.inl rfl) ⟨hnow.append, hwhole⟩
            · rw [TracksReceivers.isDivided_concat_of_ne hnames htype]
              exact or_iff_right (Ne.symm htype)
          · rw [h.lookup_eq] at hfirst
            refine ⟨passed, decl, decls, receiver, name, first, by simp, ?_, rfl, rfl⟩
            exact ⟨hnames, rfl, hfirst, eq_head_of_not_isDivided hwhole hfirst, hne⟩

/-! ## What is found -/

section Findings

variable {context : Context}

/-- The remarks on the names of receivers are those of the pass over the functions. -/
theorem filter_namingRemarks (henabled : context.enabled "NAM003" = true) :
    (remarksOf (namingChecks context)).filter (·.ruleId == "NAM003") =
      receiverRemarks [] [] context.unit.functions := by
  have hnamed : ((context.unit.declarations.filter Declaration.isNamed).flatMap fun decl =>
      context.whenEnabled "NAM001" (remarksOf [mixedCapsRemark? context.unit decl]) ++
        context.whenEnabled "NAM006" (remarksOf [initialismRemark? context.unit decl])).filter
          (·.ruleId == "NAM003") = [] := by
    rw [List.filter_flatMap, List.flatMap_eq_nil_iff]
    intro decl hdecl
    have hdeclares := SourceUnit.declares_of_isNamed hdecl
    rw [List.filter_append,
      filter_whenEnabled_of_ne (by decide) (allMeet_mixedCapsRemark? hdeclares),
      filter_whenEnabled_of_ne (by decide) (allMeet_initialismRemark? hdeclares), List.append_nil]
  have hgeneric : AllMeet context.unit "NAM004"
      (context.unit.functions.filterMap genericReceiverRemark?) :=
    .filterMap fun decl hdecl => allMeet_genericReceiverRemark? (List.mem_of_mem_filter hdecl)
  have hlengths : AllMeet context.unit "NAM005"
      (remarksOf (((context.unit.declarations.filter Declaration.isNamed).filter fun decl =>
        decl.kind == .variableName && decl.scope != 0).map (lengthRemark? context))) :=
    .remarksOf_map fun decl hdecl =>
      allMeet_lengthRemark? (List.mem_of_mem_filter (List.mem_of_mem_filter hdecl))
  have hgetters : AllMeet context.unit "NAM007"
      (remarksOf (context.unit.functions.map (getterRemark? context.unit))) :=
    .remarksOf_map fun decl hdecl =>
      allMeet_getterRemark? (SourceUnit.declares_of_mem_functions hdecl)
  simp only [namingChecks, remarksOf_append, remarksOf_flatMap, remarksOf_whenEnabled,
    remarksOf_map_pure, List.filterMap_some, List.filter_append]
  rw [hnamed, filter_whenEnabled_of_ne (by decide) allMeet_packageNameRemark?,
    filter_whenEnabled_of_ne (by decide) allMeet_stutterRemarks,
    filter_whenEnabled_self henabled (allMeet_receiverRemarks [] [] context.unit.functions_subset),
    filter_whenEnabled_of_ne (by decide) hgeneric, filter_whenEnabled_of_ne (by decide) hlengths,
    filter_whenEnabled_of_ne (by decide) hgetters]
  simp only [List.nil_append, List.append_nil]

end Findings

/-- What is said of the names of receivers, and where: it is one thing for each type whose methods
are divided, in some order of these types, at the first receiver of the type that diverges. -/
def ReportsDivisions (decls : List Declaration) (said : List (Span × String)) : Prop :=
  ∃ types : List String, types.Nodup ∧ (∀ typeName, typeName ∈ types ↔ IsDivided decls typeName) ∧
    List.Forall₂ (fun typeName report => ReportsDivergence decls typeName report.1 report.2)
      types said

/-- The pass over all functions states these remarks, whatever the functions are. -/
theorem reportsDivisions_receiverRemarks (decls : List Declaration) :
    ReportsDivisions decls
      ((receiverRemarks [] [] decls).map fun remark => (remark.span, remark.message)) := by
  obtain ⟨types, hnodup, hmem, hreports⟩ := forall₂_receiverRemarks decls TracksReceivers.nil
  refine ⟨types, hnodup, fun typeName => ?_, List.forall₂_map_right_iff.mpr hreports⟩
  rw [hmem, List.nil_append]
  exact and_iff_left ((TracksReceivers.nil.contains_iff typeName).not.mp (by simp))

/-- **Each type with different names of receivers is found once**, at the first receiver that
diverges, and no other type is found, whatever the file and the settings are: so it is for what the
rule states, and so for what is found.  There are findings wherever the other rules on names find
what they look up, as they do in a file that has been read. -/
theorem reportsDivisions_of_enabled {context : Context}
    (henabled : context.enabled "NAM003" = true) :
    ReportsDivisions context.unit.functions
      ((receiverRemarks [] [] context.unit.functions).map fun remark =>
        (remark.span, remark.message)) ∧
    (∀ findings, namingEvaluator.evaluate context = .ok findings →
      ReportsDivisions context.unit.functions
        ((findings.filter (·.ruleId == "NAM003")).map fun f => (f.span, f.message))) ∧
    (context.unit.Complete → context.settings.scopeBands ≠ [] →
      ∃ findings, namingEvaluator.evaluate context = .ok findings) := by
  have hstated := reportsDivisions_receiverRemarks context.unit.functions
  refine ⟨hstated, fun findings hevaluated => ?_, fun hcomplete hbands =>
    exists_findings_of_checks (allAnswer_namingChecks hcomplete hbands) acceptsAll_namingRemarks⟩
  have hfindings := (Evaluator.ofChecks_eq_ok.mp hevaluated).2
  rwa [Context.map_filter_findings hfindings "NAM003", filter_namingRemarks henabled]

/-! ## Methods of three types in turns -/

/-- Methods by their type, the name of their receiver if it has one, and their own name. -/
def methodList : List (String × Option String × String) :=
  [("T", none, "a"), ("T", some "t", "b"), ("S", some "s", "c"), ("T", some "x", "d"),
    ("U", some "_", "e"), ("T", some "t", "f"), ("T", some "y", "g"), ("S", some "t", "h"),
    ("U", some "u", "i")]

/-- A file of these methods, each of which takes 16 characters. -/
def methodsText : String :=
  "package p; " ++ String.join (methodList.map fun (typeName, receiver, name) =>
    "func (" ++ receiver.getD " " ++ " " ++ typeName ++ ") " ++ name ++ "(); ")

def methodsTree : Members :=
  lineNode "File" 0 155 [
    ("package", .obj (lineNode "Ident" 8 9 [("name", .str "p")])),
    ("decls", .arr (methodList.zipIdx.map fun ((typeName, receiver, name), index) =>
      method (11 + 16 * index) typeName receiver name))]
where
  method (start : Int) (typeName : String) (receiver : Option String) (name : String) : Json :=
    .obj (lineNode "FuncDecl" start (start + 14) [
      ("recv", .obj (lineNode "FieldList" (start + 5) (start + 10) [
        ("list", .arr [.obj (lineNode "Field" (start + 6) (start + 9) [
          ("names", .arr (receiver.toList.map fun receiver =>
            .obj (lineNode "Ident" (start + 6) (start + 7) [("name", .str receiver)]))),
          ("type", .obj (lineNode "Ident" (start + 8) (start + 9) [
            ("name", .str typeName)]))])])])),
      ("name", .obj (lineNode "Ident" (start + 11) (start + 12) [("name", .str name)])),
      ("type", .obj (lineNode "FuncType" (start + 12) (start + 14) [
        ("params", .obj (lineNode "FieldList" (start + 12) (start + 14) []))]))])

/-- `T` is found at its third method and not at its fifth, `S` at its last one, and `U` not at
all. -/
theorem reportsDivisions_methodsTree : ∃ (context : Context) (findings : List Finding),
    readTree "p.go" methodsText methodsTree = .ok context.unit ∧
      context.enabled "NAM003" = true ∧ namingEvaluator.evaluate context = .ok findings ∧
      (findings.filter (·.ruleId == "NAM003")).map (·.span.start.offset) = [65, 129] ∧
      ReportsDivisions context.unit.functions
        ((findings.filter (·.ruleId == "NAM003")).map fun f => (f.span, f.message)) := by
  have hfound : ((readTree "p.go" methodsText methodsTree).toOption.bind fun unit =>
      (namingEvaluator.evaluate ⟨unit, packagedRegistry.toRuleSet, {}⟩).toOption.map fun findings =>
        (findings.filter (·.ruleId == "NAM003")).map (·.span.start.offset)) =
          some [65, 129] := by decide +kernel
  obtain ⟨unit, hunit, hfound⟩ := Option.bind_eq_some_iff.mp hfound
  let context : Context := ⟨unit, packagedRegistry.toRuleSet, {}⟩
  have hread : readTree "p.go" methodsText methodsTree = .ok context.unit :=
    toOption_eq_some.mp hunit
  have henabled : context.enabled "NAM003" = true :=
    show packagedRegistry.toRuleSet.contains "NAM003" = true by decide +kernel
  obtain ⟨-, hreports, hanswers⟩ := reportsDivisions_of_enabled henabled
  obtain ⟨findings, hevaluated⟩ := hanswers (complete_of_readTree hread) (List.cons_ne_nil _ _)
  rw [hevaluated] at hfound
  exact ⟨context, findings, hread, henabled, hevaluated, Option.some.inj hfound,
    hreports findings hevaluated⟩

end GoConventions
