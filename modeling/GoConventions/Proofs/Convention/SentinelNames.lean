import GoConventions.Proofs.Convention.Initialisms
import GoConventions.Proofs.Convention.Requests
import GoConventions.Proofs.Source.UpperCase

/-!
# The names of sentinel errors

A sentinel error is named anew by the prefix and what is left of the old name when the word for an
error is taken from its start or end.  The first character that is left is put in upper case, and
the pattern for such names asks for a capital or a digit of ASCII there.  A low line has no upper
case, and a letter of another script has one that is not of ASCII.  Then the new name does not
match the pattern, and the declaration is remarked upon again (`keepsSentinelName_iff_of_fix`).

The prefix alone decides whether the new name is exported, and it is chosen by the old one.

## Main definitions

* `FollowsPrefix`: what is left of a name can follow the prefix.
* `KeepsSentinelName`: names that are not remarked upon where they name an error.

## Main results

* `isSentinelName_replacement_iff`: when the new name matches the pattern.
* `keepsSentinelName_iff_of_fix`: when the renaming is final.
* `not_forall_keepsSentinelName`: sometimes it is not.
-/

namespace GoConventions

/-! ## The new name -/

/-- What is left of a name starts, in upper case, with a capital or a digit of ASCII.  A line feed
alone is taken for the end of the name. -/
def FollowsPrefix (name : String) : Prop :=
  (∃ c ∈ (Text.upper (withoutErrorWord name)).toList.head?, (c.isUpper || c.isDigit) = true) ∨
    withoutErrorWord name = "\n"

section NewNames

variable {name new : String} {exported : Bool}

/-- The new name is the prefix and what is left of the old one. -/
theorem exists_of_sentinelReplacement? (h : sentinelReplacement? exported name = some new) :
    ∃ c rest, (withoutErrorWord name).toList = c :: rest ∧
      new.toList = (if exported then 'E' else 'e') :: 'r' :: 'r' :: (Text.upperChar c ++ rest) := by
  unfold sentinelReplacement? at h
  split at h
  · cases h
  · rename_i c rest hcore
    refine ⟨c, rest, hcore, ?_⟩
    rw [← Option.some.inj h, String.toList_append, String.toList_ofList]
    cases exported <;> rfl

/-- The new name is exported as the old one is. -/
theorem isExported_of_sentinelReplacement? (h : sentinelReplacement? exported name = some new) :
    isExported new = exported := by
  obtain ⟨c, rest, -, hnew⟩ := exists_of_sentinelReplacement? h
  have hcapital : Text.isUpper 'E' = true := by decide +kernel
  have hsmall : Text.isUpper 'e' = false := by decide +kernel
  rw [isExported, hnew]
  cases exported with
  | true => exact hcapital
  | false => exact hsmall

/-- The pattern looks at the character after the prefix only, unless that is a line feed and the
last one. -/
theorem isSentinelName_iff {e d : Char} {rest : List Char} (he : (e == 'E' || e == 'e') = true)
    (hnew : new.toList = e :: 'r' :: 'r' :: d :: rest) :
    isSentinelName new = true ↔ (d.isUpper || d.isDigit) = true ∨ d :: rest = ['\n'] := by
  simp only [isSentinelName, hnew, he, Bool.true_and]
  split
  · contradiction
  · simp_all
  · rename_i hother heq
    obtain ⟨rfl, rfl⟩ := List.cons.inj heq
    exact ⟨Or.inl, fun h => h.resolve_right fun hfeed =>
      hother (List.cons.inj hfeed).1 (List.cons.inj hfeed).2⟩

/-- **When a new name matches the pattern**: when what is left of the old one can follow the
prefix. -/
theorem isSentinelName_replacement_iff (h : sentinelReplacement? exported name = some new) :
    isSentinelName new = true ↔ FollowsPrefix name := by
  obtain ⟨c, rest, hcore, hnew⟩ := exists_of_sentinelReplacement? h
  obtain ⟨d, later, hupper⟩ := List.exists_cons_of_ne_nil (Text.upperChar_ne_nil c)
  have hhead : (Text.upper (withoutErrorWord name)).toList.head? = some d := by
    rw [Text.upper, String.toList_ofList, hcore, Text.upperChars, List.flatMap_cons, hupper]
    rfl
  -- Only a line feed becomes one in upper case.
  have hfeed : d :: (later ++ rest) = ['\n'] ↔ withoutErrorWord name = "\n" := by
    rw [← String.toList_inj, hcore]
    constructor
    · intro hsingle
      obtain ⟨rfl, hnil⟩ := List.cons.inj hsingle
      obtain ⟨-, rfl⟩ := List.append_eq_nil_iff.mp hnil
      have hc : c = '\n' := by
        by_contra hc
        exact Text.ne_of_mem_upperChar (hupper ▸ List.mem_cons_self) (by decide) (by decide) hc rfl
      rw [hc]
      rfl
    · intro hsingle
      obtain ⟨rfl, rfl⟩ := List.cons.inj hsingle
      have hplain : Text.upperChar '\n' = ['\n'] := by decide +kernel
      obtain ⟨rfl, rfl⟩ := List.cons.inj (hupper.symm.trans hplain)
      rfl
  have hprefix : ((if exported then 'E' else 'e') == 'E' ||
      (if exported then 'E' else 'e') == 'e') = true := by
    cases exported <;> rfl
  rw [hupper, List.cons_append] at hnew
  rw [isSentinelName_iff hprefix hnew, FollowsPrefix, hhead, hfeed]
  simp only [Option.mem_def, Option.some.injEq, exists_eq_left']

/-- What is left of a name has no other characters than the name. -/
theorem mem_of_mem_withoutErrorWord {c : Char} (hc : c ∈ (withoutErrorWord name).toList) :
    c ∈ name.toList := by
  unfold withoutErrorWord at hc
  split at hc
  · rw [Text.dropFirst, String.toList_ofList] at hc
    exact List.mem_of_mem_drop hc
  · split at hc
    · rw [Text.dropLast, String.toList_ofList] at hc
      exact List.mem_of_mem_take hc
    · exact hc

/-- In a name of ASCII only a low line cannot follow the prefix. -/
theorem followsPrefix_iff_of_ascii (hname : ∀ c ∈ name.toList, c.isAlphanum = true ∨ c = '_')
    (hcore : withoutErrorWord name ≠ "") :
    FollowsPrefix name ↔ (withoutErrorWord name).toList.head? ≠ some '_' := by
  obtain ⟨c, rest, hchars⟩ := List.exists_cons_of_ne_nil fun hnil =>
    hcore (String.toList_eq_nil_iff.mp hnil)
  have hc := hname c (mem_of_mem_withoutErrorWord (hchars ▸ List.mem_cons_self))
  have hfeed : withoutErrorWord name ≠ "\n" := by
    intro hsingle
    rw [hsingle] at hchars
    obtain ⟨rfl, -⟩ := List.cons.inj hchars
    exact absurd hc (by decide)
  rw [FollowsPrefix, or_iff_left hfeed, Text.upper, String.toList_ofList, hchars, Text.upperChars,
    List.flatMap_cons, List.head?_cons]
  rcases hc with halnum | rfl
  · obtain ⟨hupper, hclass⟩ := Text.upperChar_of_isAlphanum halnum
    refine iff_of_true ⟨c.toUpper, by rw [hupper]; rfl, hclass⟩ ?_
    rintro hlow
    obtain rfl := Option.some.inj hlow
    exact absurd halnum (by decide)
  · have hplain : Text.upperChar '_' = ['_'] := by decide +kernel
    refine iff_of_false ?_ fun hother => hother rfl
    rintro ⟨d, hd, hclass⟩
    rw [hplain] at hd
    obtain rfl := Option.some.inj hd
    exact absurd hclass (by decide)

end NewNames

/-! ## The remark -/

/-- A name is not remarked upon where it names an error, whatever is declared with it. -/
def KeepsSentinelName (name : String) : Prop :=
  ∀ (unit : SourceUnit) (decl : Declaration), decl.name = name → sentinelRemark? unit decl = none

section Renamings

variable {unit : SourceUnit} {decl : Declaration} {remark : Remark} {request : FixRequest}

/-- A remark is on a package-level variable that an error is made for, and whose name does not match
the pattern. -/
theorem sentinelRemark?_isSome_iff :
    (sentinelRemark? unit decl).isSome = true ↔
      (∃ call, decl.initCall = some call ∧ call.makesError = true) ∧ decl.kind = .variableName ∧
        decl.scope = 0 ∧ isSentinelName decl.name = false := by
  unfold sentinelRemark?
  cases decl.initCall with
  | none => simp
  | some call =>
    simp only [Option.bind_eq_bind, Option.bind_some]
    split <;> rename_i hguard <;>
      simp only [Bool.or_eq_true, bne_iff_ne, ne_eq, Bool.not_eq_true', not_or, not_not] at hguard
    · refine iff_of_false nofun ?_
      rintro ⟨⟨_, hcall, hmakes⟩, hkind, hscope, hother⟩
      obtain rfl := Option.some.inj hcall
      simp [hmakes, hkind, hscope, hother] at hguard
    · simp_all

/-- A name is never remarked upon exactly when it matches the pattern, once it is remarked upon in
some declaration. -/
theorem keepsSentinelName_iff {new : String} (h : sentinelRemark? unit decl = some remark) :
    KeepsSentinelName new ↔ isSentinelName new = true := by
  obtain ⟨hcall, hkind, hscope, -⟩ := sentinelRemark?_isSome_iff.mp (Option.isSome_of_eq_some h)
  constructor
  · intro hkeeps
    by_contra hother
    have hnone := hkeeps unit { decl with name := new } rfl
    have hsome : (sentinelRemark? unit { decl with name := new }).isSome = true :=
      sentinelRemark?_isSome_iff.mpr ⟨hcall, hkind, hscope, Bool.eq_false_iff.mpr hother⟩
    rw [hnone] at hsome
    cases hsome
  · rintro hsentinel other decl rfl
    rw [← Option.not_isSome_iff_eq_none, sentinelRemark?_isSome_iff]
    rintro ⟨-, -, -, hother⟩
    exact Bool.eq_false_iff.mp hother hsentinel

theorem exists_replacement_of_fix (h : sentinelRemark? unit decl = some remark)
    (hfix : remark.fix = some request) :
    ∃ new, sentinelReplacement? decl.exported decl.name = some new ∧
      request.newName = some new ∧ renameRequest? unit decl new = .ok (some request) := by
  obtain ⟨-, hkind, hscope, -⟩ := sentinelRemark?_isSome_iff.mp (Option.isSome_of_eq_some h)
  obtain ⟨call, -, h⟩ := Option.bind_eq_some_iff.mp h
  split at h
  case isTrue => cases h
  case isFalse =>
    obtain rfl := Option.some.inj h
    dsimp only at hfix
    obtain ⟨new, hnew, hrequest⟩ := Option.bind_eq_some_iff.mp hfix
    split at hrequest
    case isFalse => cases hrequest
    case isTrue hfree =>
      obtain rfl := Option.some.inj hrequest
      exact ⟨new, hnew, rfl, sentinelRequest_eq hkind hscope hfree⟩

/-- **When the renaming of a sentinel error is final**: for every declaration that is remarked upon
and every renaming that is attached, the new name is exported as the old one is.  It matches the
pattern, and is not remarked upon again, exactly when what is left of the old name can follow the
prefix.  Of the names of ASCII those fail that go on with a low line. -/
theorem keepsSentinelName_iff_of_fix (h : sentinelRemark? unit decl = some remark)
    (hfix : remark.fix = some request) :
    ∃ new, request.newName = some new ∧ renameRequest? unit decl new = .ok (some request) ∧
      isExported new = decl.exported ∧
      (isSentinelName new = true ↔ FollowsPrefix decl.name) ∧
      (KeepsSentinelName new ↔ FollowsPrefix decl.name) ∧
      ((∀ c ∈ decl.name.toList, c.isAlphanum = true ∨ c = '_') →
        (FollowsPrefix decl.name ↔ (withoutErrorWord decl.name).toList.head? ≠ some '_')) := by
  obtain ⟨new, hreplacement, hnew, hrequest⟩ := exists_replacement_of_fix h hfix
  have hpattern := isSentinelName_replacement_iff hreplacement
  have hcore : withoutErrorWord decl.name ≠ "" := by
    obtain ⟨c, rest, hchars, -⟩ := exists_of_sentinelReplacement? hreplacement
    intro hempty
    rw [hempty] at hchars
    cases hchars
  exact ⟨new, hnew, hrequest, isExported_of_sentinelReplacement? hreplacement, hpattern,
    (keepsSentinelName_iff h).trans hpattern, fun hname => followsPrefix_iff_of_ascii hname hcore⟩

/-- A file that declares one error. -/
def sentinelText (name : String) : SourceText where
  path := "p.go"
  text := "package p\n\nvar " ++ name ++ " = errors.New(\"gone\")\n"

/-- The call that makes the error. -/
def sentinelCall (name : String) : CallSite where
  callee := "errors.New"
  args :=
    [{ kind := .literal "gone", text := "\"gone\""
       span := (sentinelText name).spanOf (29 + name.length) (35 + name.length) }]
  span := (sentinelText name).spanOf (18 + name.length) (36 + name.length)
  context := .value
  scope := 0
  targets := [name]
  targetSpans := [(sentinelText name).spanOf 15 (15 + name.length)]
  results := none
  annotation := none

/-- The variable that holds it. -/
def sentinelNamed (name : String) : Declaration where
  name
  kind := .variableName
  exported := isExported name
  scope := 0
  span := (sentinelText name).spanOf 15 (36 + name.length)
  nameSpan := (sentinelText name).spanOf 15 (15 + name.length)
  initCall := some (sentinelCall name)

def sentinelUnit (name : String) : SourceUnit where
  toSourceText := sentinelText name
  packageName := "p"
  packageSpan := (sentinelText name).spanOf 0 9
  packageDoc := none
  declarations :=
    [{ name := "p", kind := .package, exported := false, scope := 0
       span := (sentinelText name).spanOf 0 9, nameSpan := (sentinelText name).spanOf 8 9 },
      sentinelNamed name]
  scopes := [⟨0, .file, (sentinelText name).wholeSpan, none, 0, [], [0, 1]⟩]
  comments := []
  imports := []
  identifiers :=
    [⟨name, (sentinelText name).spanOf 15 (15 + name.length), false⟩,
      ⟨"errors", (sentinelText name).spanOf (18 + name.length) (24 + name.length), false⟩,
      ⟨"New", (sentinelText name).spanOf (25 + name.length) (28 + name.length), true⟩]
  calls := [sentinelCall name]

theorem exists_fix_of_newName {new : String}
    (h : ((sentinelRemark? unit decl).bind (·.fix)).bind (·.newName) = some new) :
    ∃ remark request, sentinelRemark? unit decl = some remark ∧ remark.fix = some request ∧
      request.newName = some new := by
  obtain ⟨request, hrequest, hnew⟩ := Option.bind_eq_some_iff.mp h
  obtain ⟨remark, hremark, hfix⟩ := Option.bind_eq_some_iff.mp hrequest
  exact ⟨remark, request, hremark, hfix, hnew⟩

/-- A name that ends with the word for an error has it taken away, and a letter follows. -/
theorem keepsSentinelName_conflictError :
    ∃ remark request,
      sentinelRemark? (sentinelUnit "conflictError") (sentinelNamed "conflictError") =
        some remark ∧
      remark.fix = some request ∧ request.newName = some "errConflict" ∧
      KeepsSentinelName "errConflict" := by
  obtain ⟨remark, request, hremark, hfix, hname⟩ := @exists_fix_of_newName
    (sentinelUnit "conflictError") (sentinelNamed "conflictError") "errConflict"
    (by decide +kernel)
  obtain ⟨new, hnew, -, -, -, hkeeps, hascii⟩ := keepsSentinelName_iff_of_fix hremark hfix
  have hchars : ∀ c ∈ (sentinelNamed "conflictError").name.toList,
      c.isAlphanum = true ∨ c = '_' := by
    simp [sentinelNamed]
  obtain rfl := Option.some.inj (hname.symm.trans hnew)
  exact ⟨remark, request, hremark, hfix, hname,
    hkeeps.mpr ((hascii hchars).mpr (by decide +kernel))⟩

/-- **A renaming need not be final**: `_bad` is to be renamed to `err_bad`. -/
theorem not_forall_keepsSentinelName :
    ¬ ∀ (unit : SourceUnit) (decl : Declaration) (remark : Remark) (request : FixRequest)
        (new : String),
      sentinelRemark? unit decl = some remark → remark.fix = some request →
      request.newName = some new →
      isSentinelName new = true ∧ isExported new = decl.exported ∧ KeepsSentinelName new := by
  intro hall
  obtain ⟨remark, request, hremark, hfix, hname⟩ := @exists_fix_of_newName
    (sentinelUnit "_bad") (sentinelNamed "_bad") "err_bad" (by decide +kernel)
  obtain ⟨hpattern, -, -⟩ := hall _ _ _ _ _ hremark hfix hname
  exact absurd hpattern (by decide +kernel)

end Renamings

end GoConventions
