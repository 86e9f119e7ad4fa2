import GoConventions.Proofs.Convention.Answers
import GoConventions.Proofs.Convention.Requests
import GoConventions.Proofs.Rule.Catalog

/-!
# What the rules remark

All that is known of the remarks of a rule is said once (`AllMeet`): they are under the rule, the
renamings that they ask for have been checked, and where the spans of the model are ranges of the
text, so are theirs and those that they ask to replace.  A rule is asked about before its remarks
are stated, so each of them becomes a finding (`Context.AcceptsAll`).

An evaluator also fails where something is missing that it looks up: a scope, a band, the
declaration of the package, or the lines of an import entry, which are there when the entry does not
end before it begins.  So no built-in evaluator fails on a complete file whose spans are ranges of
its text (`evaluate_eq_ok_of_builtin`), and whatever the file is, the findings are those of accepted
remarks (`exists_remarks_of_builtin`).

## Main definitions

* `Remark.Meets`, `AllMeet`: what is known of a remark, and of all remarks, under a rule.
* `Context.Accepts`, `Context.AcceptsAll`: remarks that become findings.
* `Finding.IsChecked`, `Finding.Inside`: findings with checked requests, and findings in the file.

## Main results

* `exists_remarks_of_builtin`: the findings of a built-in evaluator stand for accepted remarks.
* `evaluate_eq_ok_of_builtin`: no built-in evaluator fails, and its findings lie in the file.
-/

namespace GoConventions

variable {unit : SourceUnit} {context : Context} {id : String}

/-! ## What is known of a remark -/

/-- A remark lies in a file, and so does what it asks to replace. -/
structure Remark.Inside (unit : SourceUnit) (remark : Remark) : Prop where
  span : unit.containsSpan remark.span = true
  requests : ∀ request ∈ remark.fix, unit.containsSpan request.span = true

/-- A remark is under a rule, asks for a renaming only after a check, and lies in the file if the
spans of the model do. -/
structure Remark.Meets (unit : SourceUnit) (id : String) (remark : Remark) : Prop where
  ruleId_eq : remark.ruleId = id
  checked : ∀ request ∈ remark.fix, request.IsChecked unit
  inside : unit.SpansInside → remark.Inside unit

namespace Remark.Meets

variable {remark : Remark}

/-- A remark that asks for nothing. -/
theorem of_fix_eq_none (hid : remark.ruleId = id) (hfix : remark.fix = none)
    (hspan : unit.SpansInside → unit.containsSpan remark.span = true) : remark.Meets unit id where
  ruleId_eq := hid
  checked := by simp [hfix]
  inside h := ⟨hspan h, by simp [hfix]⟩

/-- A remark that asks for a replacement in the file. -/
theorem of_template_ne (hid : remark.ruleId = id)
    (hspan : unit.SpansInside → unit.containsSpan remark.span = true)
    (hfix : ∀ request ∈ remark.fix, request.template ≠ FixTemplate.rename.label ∧
      (unit.SpansInside → unit.containsSpan request.span = true)) : remark.Meets unit id where
  ruleId_eq := hid
  checked request hrequest := isChecked_of_template_ne (hfix request hrequest).1
  inside h := ⟨hspan h, fun request hrequest => (hfix request hrequest).2 h⟩

/-- A remark at the name of a declaration that asks to rename it. -/
theorem of_renameRequest? {decl : Declaration} (hdecl : unit.Declares decl)
    (hid : remark.ruleId = id) (hspan : remark.span = decl.nameSpan)
    (hfix : ∀ request ∈ remark.fix, ∃ name,
      renameRequest? unit decl name = .ok (some request)) : remark.Meets unit id where
  ruleId_eq := hid
  checked request hrequest := by
    obtain ⟨name, hoffer⟩ := hfix request hrequest
    exact isChecked_of_renameRequest? hdecl hoffer
  inside h := by
    have hname := h.nameSpan hdecl.mem
    refine ⟨hspan ▸ hname, fun request hrequest => ?_⟩
    obtain ⟨name, hoffer⟩ := hfix request hrequest
    obtain ⟨-, within, -, rfl⟩ := of_renameRequest?_eq_some hoffer
    exact hname

end Remark.Meets

/-- What is known of all remarks under a rule. -/
def AllMeet (unit : SourceUnit) (id : String) (remarks : List Remark) : Prop :=
  ∀ remark ∈ remarks, remark.Meets unit id

namespace AllMeet

theorem nil : AllMeet unit id [] :=
  List.forall_mem_nil _

theorem singleton {remark : Remark} (h : remark.Meets unit id) : AllMeet unit id [remark] :=
  List.forall_mem_singleton.mpr h

/-- A remark that is stated on a condition. -/
theorem ite {p : Prop} [Decidable p] {remark : Remark} (h : remark.Meets unit id) :
    AllMeet unit id (if p then [remark] else []) := by
  split
  · exact singleton h
  · exact nil

theorem filterMap {α : Type} {f : α → Option Remark} {xs : List α}
    (h : ∀ x ∈ xs, AllMeet unit id (f x).toList) : AllMeet unit id (xs.filterMap f) := by
  intro remark hremark
  obtain ⟨x, hx, hmem⟩ := List.mem_filterMap.mp hremark
  exact h x hx remark (Option.mem_toList.mpr hmem)

/-- The remarks of checks, when that of each check is known. -/
theorem remarksOf_map {α : Type} {f : α → Check} {xs : List α}
    (h : ∀ x ∈ xs, AllMeet unit id (remarksOf [f x])) : AllMeet unit id (remarksOf (xs.map f)) := by
  intro remark hremark
  obtain ⟨x, hx, hcheck⟩ := List.mem_map.mp (mem_remarksOf.mp hremark)
  exact h x hx remark (mem_remarksOf_singleton.mpr hcheck)

/-- Remarks that ask for nothing. -/
theorem of_fix_eq_none {remarks : List Remark}
    (h : ∀ remark ∈ remarks, remark.ruleId = id ∧ remark.fix = none ∧
      (unit.SpansInside → unit.containsSpan remark.span = true)) : AllMeet unit id remarks :=
  fun remark hremark =>
    have ⟨hid, hfix, hspan⟩ := h remark hremark
    .of_fix_eq_none hid hfix hspan

end AllMeet

/-! ## Naming -/

section Naming

variable {decl : Declaration}

theorem allMeet_mixedCapsRemark? (hdecl : unit.Declares decl) :
    AllMeet unit "NAM001" (remarksOf [mixedCapsRemark? unit decl]) := by
  intro remark hremark
  have h := mem_remarksOf_singleton.mp hremark
  unfold mixedCapsRemark? at h
  split at h
  · cases h
  · obtain ⟨request, hrequest, h⟩ := bind_eq_ok.mp h
    obtain rfl := Option.some.inj (Except.ok.inj h)
    exact .of_renameRequest? hdecl rfl rfl fun _ hoffer =>
      ⟨_, hrequest.trans (congrArg Except.ok hoffer)⟩

theorem allMeet_initialismRemark? (hdecl : unit.Declares decl) :
    AllMeet unit "NAM006" (remarksOf [initialismRemark? unit decl]) := by
  intro remark hremark
  have h := mem_remarksOf_singleton.mp hremark
  unfold initialismRemark? at h
  split at h
  · cases h
  · obtain ⟨request, hrequest, h⟩ := bind_eq_ok.mp h
    obtain rfl := Option.some.inj (Except.ok.inj h)
    exact .of_renameRequest? hdecl rfl rfl fun _ hoffer =>
      ⟨_, hrequest.trans (congrArg Except.ok hoffer)⟩

theorem allMeet_getterRemark? (hdecl : unit.Declares decl) :
    AllMeet unit "NAM007" (remarksOf [getterRemark? unit decl]) := by
  intro remark hremark
  have h := mem_remarksOf_singleton.mp hremark
  unfold getterRemark? at h
  split at h
  · cases h
  · split at h
    · cases h
    · obtain ⟨request, hrequest, h⟩ := bind_eq_ok.mp h
      obtain rfl := Option.some.inj (Except.ok.inj h)
      exact .of_renameRequest? hdecl rfl rfl fun _ hoffer =>
        ⟨_, hrequest.trans (congrArg Except.ok hoffer)⟩

/-- A remark on the name of the package is at its declaration. -/
theorem allMeet_packageNameRemark? :
    AllMeet context.unit "NAM008" (remarksOf [packageNameRemark? context]) := by
  intro remark hremark
  have h := mem_remarksOf_singleton.mp hremark
  unfold packageNameRemark? at h
  dsimp only at h
  split at h
  · cases h
  · obtain ⟨decl, hdecl, h⟩ := bind_eq_ok.mp h
    have hmem := List.mem_of_find?_eq_some (getDM_eq_ok.mp hdecl)
    split at h
    · obtain rfl := Option.some.inj (Except.ok.inj h)
      exact .of_fix_eq_none rfl rfl (·.nameSpan hmem)
    · split at h
      · obtain rfl := Option.some.inj (Except.ok.inj h)
        exact .of_fix_eq_none rfl rfl (·.nameSpan hmem)
      · cases h

theorem allMeet_stutterRemark? (hdecl : decl ∈ unit.declarations) :
    AllMeet unit "NAM002" (stutterRemark? unit decl).toList := by
  have hname : unit.SpansInside → unit.containsSpan decl.nameSpan = true := (·.nameSpan hdecl)
  exact .of_fix_eq_none (by grind [stutterRemark?])

theorem allMeet_stutterRemarks : AllMeet unit "NAM002" (stutterRemarks unit) := by
  unfold stutterRemarks
  split
  · exact .filterMap fun decl hdecl => allMeet_stutterRemark?
      (List.mem_of_mem_filter (List.mem_of_mem_filter hdecl))
  · exact .nil

/-- The names seen and the receivers reported so far may be any. -/
theorem allMeet_receiverRemarks (names : List (String × String)) (reported : List String)
    {decls : List Declaration} (hdecls : decls ⊆ unit.declarations) :
    AllMeet unit "NAM003" (receiverRemarks names reported decls) := by
  induction decls generalizing names reported with
  | nil => exact .nil
  | cons decl decls ih =>
    obtain ⟨hdecl, hrest⟩ := List.cons_subset.mp hdecls
    unfold receiverRemarks
    split
    case h_1 => exact ih _ _ hrest
    case h_2 receiver name hnamed =>
      obtain ⟨found, hreceiver, hnamed⟩ := Option.bind_eq_some_iff.mp hnamed
      obtain ⟨given, -, hnamed⟩ := Option.bind_eq_some_iff.mp hnamed
      have hfound : found = receiver := by
        split at hnamed
        · cases hnamed
        · exact (Prod.mk.inj (Option.some.inj hnamed)).1
      subst hfound
      split
      · exact ih _ _ hrest
      · split
        · exact ih _ _ hrest
        · exact List.forall_mem_cons.mpr
            ⟨.of_fix_eq_none rfl rfl (·.receiver hdecl hreceiver), ih _ _ hrest⟩

theorem allMeet_genericReceiverRemark? (hdecl : decl ∈ unit.declarations) :
    AllMeet unit "NAM004" (genericReceiverRemark? decl).toList := by
  intro remark hremark
  obtain ⟨receiver, hreceiver, hremark⟩ :=
    Option.bind_eq_some_iff.mp (Option.mem_toList.mp hremark)
  obtain ⟨name, -, hremark⟩ := Option.bind_eq_some_iff.mp hremark
  split at hremark
  · obtain rfl := Option.some.inj hremark
    exact .of_fix_eq_none rfl rfl (·.receiver hdecl hreceiver)
  · cases hremark

theorem allMeet_lengthRemark? (hdecl : decl ∈ context.unit.declarations) :
    AllMeet context.unit "NAM005" (remarksOf [lengthRemark? context decl]) := by
  intro remark hremark
  have h := mem_remarksOf_singleton.mp hremark
  unfold lengthRemark? at h
  split at h
  · cases h
  · obtain ⟨scope, -, h⟩ := bind_eq_ok.mp h
    obtain ⟨band, -, h⟩ := bind_eq_ok.mp h
    obtain ⟨problem, -, rfl⟩ := Option.map_eq_some_iff.mp (Except.ok.inj h)
    exact .of_fix_eq_none rfl rfl (·.nameSpan hdecl)

end Naming

/-! ## Errors -/

section Errors

variable {decl : Declaration} {call : CallSite} {literal : Argument}

theorem allMeet_errorLastRemark? (hdecl : decl ∈ unit.declarations) :
    AllMeet unit "ERR001" (errorLastRemark? decl).toList := by
  have hname : unit.SpansInside → unit.containsSpan decl.nameSpan = true := (·.nameSpan hdecl)
  exact .of_fix_eq_none (by grind [errorLastRemark?])

theorem allMeet_discardRemark? (hcall : call ∈ context.unit.calls) :
    AllMeet context.unit "ERR002" (discardRemark? context call).toList := by
  have hspan : context.unit.SpansInside → context.unit.containsSpan call.span = true :=
    (·.call hcall)
  exact .of_fix_eq_none (by grind [discardRemark?])

/-- The text of an error is an argument of the call that makes it. -/
theorem mem_args_of_errorText? {text : String} (h : call.errorText? = some (literal, text)) :
    literal ∈ call.args := by
  unfold CallSite.errorText? at h
  split at h
  · cases h
  · split at h
    · obtain ⟨value, -, hpair⟩ := Option.map_eq_some_iff.mp h
      simp [‹call.args = _›, (Prod.mk.inj hpair).1]
    · cases h

theorem allMeet_errorTextRemark? (exportedNames : List String) (text : String)
    (hcall : call ∈ context.unit.calls) (hliteral : literal ∈ call.args) :
    AllMeet context.unit "ERR003"
      (errorTextRemark? context exportedNames literal text).toList := by
  have hspan : context.unit.SpansInside → context.unit.containsSpan literal.span = true :=
    (·.argument hcall hliteral)
  intro remark hremark
  refine .of_template_ne ?_ ?_ fun request hrequest => ⟨?_, ?_⟩ <;>
    grind [errorTextRemark?, FixTemplate.label_inj]

theorem allMeet_wrapRemark? (text : String) (hcall : call ∈ unit.calls)
    (hliteral : literal ∈ call.args) :
    AllMeet unit "ERR004" (remarksOf [wrapRemark? unit call literal text]) := by
  intro remark hremark
  obtain ⟨hid, hspan, hfix⟩ := of_wrapRemark?_eq_ok (mem_remarksOf_singleton.mp hremark)
  exact .of_fix_eq_none hid hfix fun h => hspan ▸ h.argument hcall hliteral

theorem allMeet_sentinelRemark? (hdecl : decl ∈ unit.declarations) :
    AllMeet unit "ERR005" (sentinelRemark? unit decl).toList := by
  intro remark hremark
  obtain ⟨call, -, hremark⟩ := Option.bind_eq_some_iff.mp (Option.mem_toList.mp hremark)
  split at hremark
  case isTrue => cases hremark
  case isFalse hcond =>
    simp only [Bool.or_eq_true, not_or, bne_iff_ne, ne_eq, Classical.not_not] at hcond
    obtain rfl := Option.some.inj hremark
    have hdeclares : unit.Declares decl :=
      ⟨hdecl, by simp [hcond.1.1.1], by simp [hcond.1.1.1]⟩
    refine .of_renameRequest? hdeclares rfl rfl fun request hrequest => ?_
    -- The projection has to be reduced first: unifying it with a bind unfolds the whole remark.
    dsimp only at hrequest
    rw [Option.mem_def, Option.bind_eq_some_iff] at hrequest
    obtain ⟨name, -, hfix⟩ := hrequest
    split at hfix
    case isFalse => cases hfix
    case isTrue hfree =>
      exact ⟨name, (sentinelRequest_eq hcond.1.1.1 hcond.1.1.2 hfree).trans
        (congrArg Except.ok hfix)⟩

theorem allMeet_panicRemark? (hcall : call ∈ unit.calls) :
    AllMeet unit "ERR006" (remarksOf [panicRemark? unit call]) := by
  intro remark hremark
  obtain ⟨hid, hspan, hfix⟩ := of_panicRemark?_eq_ok (mem_remarksOf_singleton.mp hremark)
  exact .of_fix_eq_none hid hfix fun h => hspan ▸ h.call hcall

end Errors

/-! ## Imports -/

section Imports

variable {decl : ImportDecl} {entry : ImportEntry}

/-- The groups of a declaration are remarked upon at its body, if it has one. -/
theorem allMeet_groupingRemarks {remarks : List Remark} (hdecl : decl ∈ context.unit.imports)
    (h : groupingRemarks context decl = .ok remarks) : AllMeet context.unit "IMP001" remarks := by
  have hspan : context.unit.SpansInside →
      context.unit.containsSpan (decl.bodySpan.getD decl.span) = true := by
    intro h
    cases hbody : decl.bodySpan with
    | some body => exact h.bodies decl hdecl body hbody
    | none => exact h.of_import hdecl _ List.mem_cons_self
  unfold groupingRemarks at h
  split at h
  case h_1 =>
    obtain rfl := Except.ok.inj h
    exact .nil
  case h_2 =>
    obtain ⟨body, -, h⟩ := bind_eq_ok.mp h
    obtain rfl := Except.ok.inj h
    refine .singleton (.of_template_ne rfl hspan fun request hrequest => ?_)
    obtain ⟨text, -, rfl⟩ := Option.map_eq_some_iff.mp hrequest
    exact ⟨by simp [FixTemplate.label_inj], hspan⟩

theorem allMeet_dotImportRemark? (hdecl : decl ∈ unit.imports) (hentry : entry ∈ decl.entries) :
    AllMeet unit "IMP002" (dotImportRemark? entry).toList := by
  have hspan : unit.SpansInside → unit.containsSpan entry.span = true := (·.entry hdecl hentry)
  exact .of_fix_eq_none (by grind [dotImportRemark?])

theorem allMeet_sideEffectRemark? (hdecl : decl ∈ context.unit.imports)
    (hentry : entry ∈ decl.entries) :
    AllMeet context.unit "IMP003" (sideEffectRemark? context entry).toList := by
  have hspan : context.unit.SpansInside → context.unit.containsSpan entry.span = true :=
    (·.entry hdecl hentry)
  exact .of_fix_eq_none (by grind [sideEffectRemark?])

theorem allMeet_redundantAliasRemark? (hdecl : decl ∈ unit.imports)
    (hentry : entry ∈ decl.entries) :
    AllMeet unit "IMP004" (redundantAliasRemark? unit entry).toList := by
  intro remark hremark
  obtain ⟨name, -, hremark⟩ := Option.bind_eq_some_iff.mp (Option.mem_toList.mp hremark)
  obtain ⟨aliasSpan, halias, hremark⟩ := Option.bind_eq_some_iff.mp hremark
  split at hremark
  · obtain rfl := Option.some.inj hremark
    refine .of_template_ne rfl (·.aliasSpan hdecl hentry halias) fun request hrequest => ?_
    obtain rfl := Option.some.inj hrequest
    exact ⟨by simp [FixTemplate.label_inj], (·.aliases decl hdecl entry hentry aliasSpan halias)⟩
  · cases hremark

theorem allMeet_generatedAliasRemark? (settings : Settings) (hdecl : decl ∈ unit.imports)
    (hentry : entry ∈ decl.entries) :
    AllMeet unit "IMP005" (generatedAliasRemark? settings entry).toList := by
  have hspan : unit.SpansInside → unit.containsSpan entry.span = true := (·.entry hdecl hentry)
  exact .of_fix_eq_none (by grind [generatedAliasRemark?])

/-- The lines of an entry are quoted when it touches a line. -/
theorem exists_entryText
    (hlines : unit.linesBetween entry.span.start.line entry.span.stop.line ≠ []) :
    ∃ text, entryText unit entry = .ok text := by
  unfold entryText
  split
  case h_1 hnil => exact absurd hnil hlines
  case h_2 => exact ⟨_, rfl⟩

theorem exists_canonicalBody (h : unit.SpansInside) (hdecl : decl ∈ unit.imports)
    (settings : Settings) : ∃ body, canonicalBody unit settings decl = .ok body := by
  unfold canonicalBody
  split
  · exact ⟨_, rfl⟩
  · split
    · exact ⟨_, rfl⟩
    · obtain ⟨rendered, hrendered⟩ := exists_mapM_eq_ok
        (f := fun entry => do
          return (⟨entry.category settings, entry.path, ← entryText unit entry⟩ : RenderedEntry))
        fun entry hentry => by
          obtain ⟨text, htext⟩ := exists_entryText (h.entryLines decl hdecl entry hentry)
          exact ⟨_, bind_eq_ok.mpr ⟨text, htext, rfl⟩⟩
      exact ⟨_, bind_eq_ok.mpr ⟨rendered, hrendered, rfl⟩⟩

theorem exists_groupingRemarks (h : context.unit.SpansInside)
    (hdecl : decl ∈ context.unit.imports) :
    ∃ remarks, groupingRemarks context decl = .ok remarks := by
  unfold groupingRemarks
  split
  · exact ⟨[], rfl⟩
  · obtain ⟨body, hbody⟩ := exists_canonicalBody h hdecl context.settings
    exact ⟨_, bind_eq_ok.mpr ⟨body, hbody, rfl⟩⟩

end Imports

/-! ## Documentation -/

section Documentation

variable {decl : Declaration} {comment : CommentBlock}

/-- A period is put at the end of a comment, or before blanks that belong to it. -/
theorem containsSpan_periodRequest (hspan : unit.containsSpan comment.span = true) :
    unit.containsSpan (periodRequest unit comment).span = true := by
  obtain ⟨hpos, hle, hstop⟩ := SourceText.containsSpan_iff.mp hspan
  have hlength := SourceText.length_textAt hspan
  let blanks := ((unit.textAt comment.span).toList.reverse.takeWhile fun c =>
    c == ' ' || c == '\t').length
  have hblanks : blanks ≤ (unit.textAt comment.span).toList.length := by
    rw [← List.length_reverse]
    exact (List.takeWhile_prefix _).length_le
  refine SourceText.containsSpan_spanOf.mpr ⟨?_, Int.le_refl _, ?_⟩
  · show 0 ≤ comment.span.stop.offset - (blanks : Int)
    omega
  · show comment.span.stop.offset - (blanks : Int) ≤ _
    omega

theorem allMeet_sentenceRemark?
    (hspan : unit.SpansInside → unit.containsSpan comment.span = true) :
    AllMeet unit "DOC003" (sentenceRemark? unit comment).toList := by
  have hperiod : unit.SpansInside → unit.containsSpan (periodRequest unit comment).span = true :=
    fun h => containsSpan_periodRequest (hspan h)
  have htemplate : (periodRequest unit comment).template ≠ FixTemplate.rename.label := by
    simp [periodRequest, FixTemplate.label_inj]
  intro remark hremark
  unfold sentenceRemark? at hremark
  refine .of_template_ne ?_ ?_ fun request hrequest => ⟨?_, ?_⟩ <;> grind

theorem allMeet_packageSentence :
    AllMeet unit "DOC003" (unit.packageDoc.bind (sentenceRemark? unit)).toList := by
  cases hdoc : unit.packageDoc with
  | none => exact .nil
  | some doc =>
    rw [Option.bind_some]
    exact allMeet_sentenceRemark? (·.of_comment (List.mem_append_left _ (by simp [hdoc])))

theorem allMeet_packageCommentRemarks :
    AllMeet context.unit "DOC002" (packageCommentRemarks context) := by
  have hpackage : context.unit.SpansInside →
      context.unit.containsSpan context.unit.packageSpan = true :=
    (·.nodeSpans _ (by simp [SourceUnit.nodeSpans]))
  have hcomments : ∀ comment ∈ sortBy (compareOn (·.span.start.offset))
      (packageComments context.unit), context.unit.SpansInside →
        context.unit.containsSpan comment.span = true := by
    intro comment hcomment h
    rw [mem_sortBy, packageComments, List.mem_append] at hcomment
    exact h.of_comment (List.mem_append.mpr (hcomment.imp_right List.mem_of_mem_filter))
  have hdoc : ∀ doc, context.unit.packageDoc = some doc → context.unit.SpansInside →
      context.unit.containsSpan doc.span = true := fun doc hdoc h =>
    h.of_comment (List.mem_append_left _ (by simp [hdoc]))
  refine .of_fix_eq_none fun remark hremark => ?_
  unfold packageCommentRemarks at hremark
  dsimp only at hremark
  split at hremark
  · grind
  · rcases List.mem_append.mp hremark with hextra | hform
    · -- The second comment is remarked upon, in the order of the source.
      split at hextra
      · rename_i second rest hsorted
        obtain rfl := List.mem_singleton.mp hextra
        exact ⟨rfl, rfl, hcomments _ (by simp [hsorted])⟩
      · cases hextra
    · grind

/-- The blank line that is taken away lies between the comment and the declaration. -/
theorem meets_reattachRemark {message : String} (hdecl : decl ∈ unit.declarations)
    (hdetached : decl.detachedDoc = some comment) :
    Remark.Meets unit id
      { ruleId := id, span := decl.span, message, fix := reattachRequest? unit decl comment } := by
  refine .of_template_ne rfl (·.declaration hdecl) fun request hrequest => ?_
  unfold reattachRequest? at hrequest
  dsimp only at hrequest
  split at hrequest
  · obtain rfl := Option.some.inj hrequest
    exact ⟨by simp [FixTemplate.label_inj], (·.gaps decl hdecl comment hdetached)⟩
  · cases hrequest

end Documentation

/-! ## Organization and layout -/

section Layout

/-- A block that is nested too deeply is remarked upon where it begins. -/
theorem allMeet_nestingRemark? {scope : Scope} (hscope : scope ∈ context.unit.scopes) :
    AllMeet context.unit "ORG003" (remarksOf [nestingRemark? context scope]) := by
  intro remark hremark
  obtain ⟨starts, -, h⟩ := bind_eq_ok.mp (mem_remarksOf_singleton.mp hremark)
  split at h
  · obtain rfl := Option.some.inj (Except.ok.inj h)
    refine .of_fix_eq_none rfl rfl fun hinside => ?_
    obtain ⟨hpos, hle, hstop⟩ := SourceText.containsSpan_iff.mp (hinside.scopes scope hscope)
    exact SourceText.containsSpan_spanOf.mpr ⟨hpos, Int.le_refl _, Int.le_trans hle hstop⟩
  · cases h

theorem allMeet_globalRemark? {decl : Declaration} (hdecl : decl ∈ unit.declarations) :
    AllMeet unit "ORG004" (globalRemark? decl).toList := by
  have hname : unit.SpansInside → unit.containsSpan decl.nameSpan = true := (·.nameSpan hdecl)
  exact .of_fix_eq_none (by grind [globalRemark?])

theorem allMeet_spreadImportRemarks : AllMeet unit "FMT003" (spreadImportRemarks unit) := by
  intro remark hremark
  obtain ⟨decl, hdecl, rfl⟩ := List.mem_map.mp hremark
  exact .of_fix_eq_none rfl rfl (·.of_import (List.mem_of_mem_drop hdecl) _ List.mem_cons_self)

end Layout

/-! ## Accepted remarks -/

/-- A remark becomes a finding, and not one that reports a failure. -/
structure Context.Accepts (context : Context) (remark : Remark) : Prop where
  enabled : context.enabled remark.ruleId = true
  ruleId_ne : remark.ruleId ≠ internalRuleId
  meets : remark.Meets context.unit remark.ruleId

/-- All remarks become findings. -/
def Context.AcceptsAll (context : Context) (remarks : List Remark) : Prop :=
  ∀ remark ∈ remarks, context.Accepts remark

namespace Context.AcceptsAll

variable {xs ys : List Remark}

theorem nil : context.AcceptsAll [] :=
  List.forall_mem_nil _

theorem append (hx : context.AcceptsAll xs) (hy : context.AcceptsAll ys) :
    context.AcceptsAll (xs ++ ys) :=
  List.forall_mem_append.mpr ⟨hx, hy⟩

theorem flatMap {α : Type} {f : α → List Remark} {xs : List α}
    (h : ∀ x ∈ xs, context.AcceptsAll (f x)) : context.AcceptsAll (xs.flatMap f) :=
  List.forall_mem_flatMap.mpr h

/-- The remarks under a rule that is enabled. -/
theorem of_enabled (hid : id ≠ internalRuleId) (henabled : context.enabled id = true)
    (hmeet : AllMeet context.unit id xs) : context.AcceptsAll xs := by
  intro remark hremark
  have hmeets := hmeet remark hremark
  obtain rfl := hmeets.ruleId_eq
  exact ⟨henabled, hid, hmeets⟩

/-- Remarks that are stated only when their rule is enabled. -/
theorem whenEnabled (hid : id ≠ internalRuleId) (hmeet : AllMeet context.unit id xs) :
    context.AcceptsAll (context.whenEnabled id xs) := by
  unfold Context.whenEnabled
  split
  case isTrue henabled => exact of_enabled hid henabled hmeet
  case isFalse => exact nil

end Context.AcceptsAll

theorem SourceUnit.functions_subset (unit : SourceUnit) : unit.functions ⊆ unit.declarations :=
  fun _ => List.mem_of_mem_filter

theorem acceptsAll_namingRemarks : context.AcceptsAll (remarksOf (namingChecks context)) := by
  simp only [namingChecks, remarksOf_append, remarksOf_flatMap, remarksOf_whenEnabled,
    remarksOf_map_pure, List.filterMap_some]
  refine .append (.append (.append (.append ?_ ?_) (.append (.append ?_ ?_) ?_)) ?_) ?_
  · exact .whenEnabled (by decide) allMeet_packageNameRemark?
  · refine .flatMap fun decl hdecl => ?_
    have hdeclares := SourceUnit.declares_of_isNamed hdecl
    exact .append (.whenEnabled (by decide) (allMeet_mixedCapsRemark? hdeclares))
      (.whenEnabled (by decide) (allMeet_initialismRemark? hdeclares))
  · exact .whenEnabled (by decide) allMeet_stutterRemarks
  · exact .whenEnabled (by decide) (allMeet_receiverRemarks _ _ context.unit.functions_subset)
  · exact .whenEnabled (by decide)
      (.filterMap fun decl hdecl => allMeet_genericReceiverRemark? (List.mem_of_mem_filter hdecl))
  · exact .whenEnabled (by decide) (.remarksOf_map fun decl hdecl =>
      allMeet_lengthRemark? (List.mem_of_mem_filter (List.mem_of_mem_filter hdecl)))
  · exact .whenEnabled (by decide) (.remarksOf_map fun decl hdecl =>
      allMeet_getterRemark? (SourceUnit.declares_of_mem_functions hdecl))

theorem acceptsAll_callRemarks (exportedNames : List String) {call : CallSite}
    (hcall : call ∈ context.unit.calls) :
    context.AcceptsAll (remarksOf (callChecks context exportedNames call)) := by
  rw [remarksOf_callChecks]
  refine .append (.append ?_ ?_) ?_
  · exact .whenEnabled (by decide) (allMeet_discardRemark? hcall)
  · split
    case h_1 literal text htext =>
      have hliteral := mem_args_of_errorText? htext
      exact .append (.whenEnabled (by decide) (allMeet_errorTextRemark? _ _ hcall hliteral))
        (.whenEnabled (by decide) (allMeet_wrapRemark? _ hcall hliteral))
    case h_2 => exact .nil
  · split
    · exact .whenEnabled (by decide) (allMeet_panicRemark? hcall)
    · exact .nil

theorem acceptsAll_errorRemarks : context.AcceptsAll (remarksOf (errorChecks context)) := by
  simp only [errorChecks, remarksOf_append, remarksOf_flatMap, remarksOf_whenEnabled,
    remarksOf_map_pure]
  refine .append (.append ?_ ?_) (.flatMap fun call hcall => acceptsAll_callRemarks _ hcall)
  · exact .whenEnabled (by decide)
      (.filterMap fun decl hdecl => allMeet_errorLastRemark? (List.mem_of_mem_filter hdecl))
  · exact .whenEnabled (by decide) (.filterMap fun decl hdecl => allMeet_sentinelRemark? hdecl)

/-- The remarks on a declaration are those on its groups, if these are looked at, and those on its
entries. -/
theorem importDeclRemarks_eq_ok {decl : ImportDecl} {remarks : List Remark} :
    importDeclRemarks context decl = .ok remarks ↔
      ∃ grouping, (if context.enabled "IMP001" && decl.parenthesized then
          groupingRemarks context decl else .ok []) = .ok grouping ∧
        grouping ++ decl.entries.flatMap (entryRemarks context) = remarks := by
  unfold importDeclRemarks
  split <;> simp [bind_eq_ok, pure, Except.pure]

theorem acceptsAll_importDeclRemarks {decl : ImportDecl} {remarks : List Remark}
    (hdecl : decl ∈ context.unit.imports) (h : importDeclRemarks context decl = .ok remarks) :
    context.AcceptsAll remarks := by
  obtain ⟨grouping, hgrouping, rfl⟩ := importDeclRemarks_eq_ok.mp h
  refine .append ?_ (.flatMap fun entry hentry => ?_)
  · split at hgrouping
    case isTrue hcond =>
      exact .of_enabled (by decide) (Bool.and_eq_true_iff.mp hcond).1
        (allMeet_groupingRemarks hdecl hgrouping)
    case isFalse =>
      obtain rfl := Except.ok.inj hgrouping
      exact .nil
  · exact .append (.append (.append
      (.whenEnabled (by decide) (allMeet_dotImportRemark? hdecl hentry))
      (.whenEnabled (by decide) (allMeet_sideEffectRemark? hdecl hentry)))
      (.whenEnabled (by decide) (allMeet_redundantAliasRemark? hdecl hentry)))
      (.whenEnabled (by decide) (allMeet_generatedAliasRemark? _ hdecl hentry))

theorem exists_importDeclRemarks {decl : ImportDecl} (h : context.unit.SpansInside)
    (hdecl : decl ∈ context.unit.imports) :
    ∃ remarks, importDeclRemarks context decl = .ok remarks := by
  obtain ⟨grouping, hgrouping⟩ := exists_groupingRemarks h hdecl
  by_cases hcond : (context.enabled "IMP001" && decl.parenthesized) = true
  · exact ⟨_, importDeclRemarks_eq_ok.mpr ⟨grouping, by rw [if_pos hcond, hgrouping], rfl⟩⟩
  · exact ⟨_, importDeclRemarks_eq_ok.mpr ⟨[], by rw [if_neg hcond], rfl⟩⟩

section Documentation

variable {decl : Declaration}

theorem acceptsAll_documentedRemarks (hdecl : decl ∈ context.unit.declarations)
    {doc : CommentBlock} (hdoc : decl.doc = some doc) :
    context.AcceptsAll (documentedRemarks context decl doc) := by
  unfold documentedRemarks
  split
  case isTrue hcond =>
    exact .of_enabled (by decide) (Bool.and_eq_true_iff.mp hcond).1
      (.singleton (.of_fix_eq_none rfl rfl (·.declaration hdecl)))
  case isFalse =>
    exact .whenEnabled (by decide) (allMeet_sentenceRemark? (·.doc hdecl hdoc))

theorem acceptsAll_undocumentedRemarks (hdecl : decl ∈ context.unit.declarations) :
    context.AcceptsAll (undocumentedRemarks context decl) := by
  unfold undocumentedRemarks
  split
  · exact .nil
  · exact .whenEnabled (by decide) (.singleton (.of_fix_eq_none rfl rfl (·.declaration hdecl)))

theorem acceptsAll_declarationRemarks (hdecl : decl ∈ context.unit.declarations) :
    context.AcceptsAll (declarationRemarks context decl) := by
  unfold declarationRemarks
  split
  case h_1 doc hdoc => exact acceptsAll_documentedRemarks hdecl hdoc
  case h_2 =>
    split
    case h_1 detached hdetached =>
      split
      case isTrue hcond =>
        exact .of_enabled (by decide) (Bool.and_eq_true_iff.mp hcond).2
          (.singleton (meets_reattachRemark hdecl hdetached))
      case isFalse => exact acceptsAll_undocumentedRemarks hdecl
    case h_2 => exact acceptsAll_undocumentedRemarks hdecl

theorem acceptsAll_documentationRemarks : context.AcceptsAll (documentationRemarks context) := by
  unfold documentationRemarks
  dsimp only
  split
  · exact .nil
  · refine .append (.append ?_ ?_) (.flatMap fun decl hdecl => ?_)
    · exact .whenEnabled (by decide) allMeet_packageCommentRemarks
    · exact .whenEnabled (by decide) allMeet_packageSentence
    · exact acceptsAll_declarationRemarks
        (List.mem_of_mem_filter (List.mem_of_mem_filter hdecl))

end Documentation

theorem acceptsAll_functionRemarks {decl : Declaration} (hdecl : decl ∈ context.unit.declarations) :
    context.AcceptsAll (functionRemarks context decl) := by
  unfold functionRemarks
  refine .append (.append ?_ ?_) ?_ <;>
    exact .whenEnabled (by decide) (.ite (.of_fix_eq_none rfl rfl (·.nameSpan hdecl)))

theorem acceptsAll_organizationRemarks :
    context.AcceptsAll (remarksOf (organizationChecks context)) := by
  simp only [organizationChecks, remarksOf_append, remarksOf_whenEnabled, remarksOf_map_pure,
    List.filterMap_some]
  refine .append (.append (.flatMap fun decl hdecl => ?_) ?_) ?_
  · exact acceptsAll_functionRemarks (List.mem_of_mem_filter hdecl)
  · exact .whenEnabled (by decide)
      (.remarksOf_map fun scope hscope => allMeet_nestingRemark? hscope)
  · exact .whenEnabled (by decide)
      (.filterMap fun decl hdecl => allMeet_globalRemark? (List.mem_of_mem_filter hdecl))

/-- A line is remarked upon under the rule that has been asked about. -/
theorem acceptsAll_lineRemark? {comments : List CommentBlock} {number start : Nat} {line : String}
    (hspan : context.unit.containsSpan
      (SourceText.lineSpan number start line.toList.length) = true) :
    context.AcceptsAll (lineRemark? context comments number start line).toList := by
  have haccepts : ∀ id message, id ≠ internalRuleId → context.enabled id = true →
      context.Accepts { ruleId := id, message
                        span := SourceText.lineSpan number start line.toList.length } :=
    fun id message hid henabled => ⟨henabled, hid, .of_fix_eq_none rfl rfl fun _ => hspan⟩
  intro remark hremark
  unfold lineRemark? at hremark
  split at hremark
  · cases hremark
  · dsimp only at hremark
    -- The line is under the rule for comments or under the one for other lines.
    split at hremark <;> split at hremark
    case isTrue.isTrue hcond =>
      obtain rfl := Option.some.inj (Option.mem_toList.mp hremark)
      exact haccepts "FMT002" _ (by decide) (Bool.and_eq_true_iff.mp hcond).2
    case isFalse.isTrue hcond =>
      obtain rfl := Option.some.inj (Option.mem_toList.mp hremark)
      exact haccepts "FMT001" _ (by decide) (Bool.and_eq_true_iff.mp hcond).2
    all_goals cases hremark

theorem acceptsAll_layoutRemarks : context.AcceptsAll (layoutRemarks context) := by
  unfold layoutRemarks
  refine .append (fun remark hremark => ?_) (.whenEnabled (by decide) allMeet_spreadImportRemarks)
  obtain ⟨⟨⟨line, start⟩, index⟩, hentry, hremark⟩ := List.mem_filterMap.mp hremark
  refine acceptsAll_lineRemark? (SourceText.containsSpan_lineSpan _ ?_) remark
    (Option.mem_toList.mpr hremark)
  exact List.fst_mem_of_mem_zipIdx hentry

/-! ## From remarks to findings -/

/-- A finding as it leaves a built-in evaluator: without a patch, and with a checked request. -/
def Finding.IsChecked (unit : SourceUnit) (f : Finding) : Prop :=
  f.patch = none ∧ ∀ request, f.fix = some request → request.IsChecked unit

/-- A finding in the file, with what it asks to replace, under a rule that reports no failure. -/
structure Finding.Inside (unit : SourceUnit) (f : Finding) : Prop where
  ruleId_ne : f.ruleId ≠ internalRuleId
  span : unit.containsSpan f.span = true
  requests : ∀ request ∈ f.fix, unit.containsSpan request.span = true

/-- A finding stands under the rule, and at the place, of its remark, and asks for what the remark
asks for, or for nothing. -/
theorem Context.of_finding_eq_ok {remark : Remark} {f : Finding}
    (h : context.finding remark = .ok f) :
    f.ruleId = remark.ruleId ∧ f.span = remark.span ∧ f.patch = none ∧
      (∀ request ∈ f.fix, request ∈ remark.fix) ∧ context.enabled f.ruleId = true := by
  unfold finding at h
  split at h
  case h_1 => cases h
  case h_2 rule hrule =>
    obtain rfl := Except.ok.inj h
    obtain ⟨hmem, hid⟩ := RuleSet.get?_eq_some_iff.mp hrule
    refine ⟨hid, rfl, rfl, fun request hrequest => ?_,
      (RuleSet.contains_iff _).mpr ⟨rule, hmem, rfl⟩⟩
    dsimp only at hrequest
    split at hrequest
    · exact hrequest
    · cases hrequest

theorem Context.message_of_finding_eq_ok {remark : Remark} {f : Finding}
    (h : context.finding remark = .ok f) : f.message = remark.message := by
  unfold finding at h
  split at h
  · cases h
  · obtain rfl := Except.ok.inj h
    rfl

/-- The findings under a rule stand for the remarks under it. -/
theorem Context.forall₂_filter_findings {remarks : List Remark} {findings : List Finding}
    (h : context.findings remarks = .ok findings) (id : String) :
    List.Forall₂ (fun remark f => context.finding remark = .ok f)
      (remarks.filter (·.ruleId == id)) (findings.filter (·.ruleId == id)) := by
  induction remarks generalizing findings with
  | nil =>
    obtain rfl := Except.ok.inj h
    exact .nil
  | cons remark remarks ih =>
    obtain ⟨f, rest, hf, hrest, rfl⟩ := mapM_cons_eq_ok.mp h
    rw [List.filter_cons, List.filter_cons, (of_finding_eq_ok hf).1]
    split
    · exact .cons hf (ih hrest)
    · exact ih hrest

/-- The findings under a rule say what the remarks under it say, and at the same places. -/
theorem Context.map_filter_findings {remarks : List Remark} {findings : List Finding}
    (h : context.findings remarks = .ok findings) (id : String) :
    (findings.filter (·.ruleId == id)).map (fun f => (f.span, f.message)) =
      (remarks.filter (·.ruleId == id)).map fun remark => (remark.span, remark.message) := by
  rw [← List.forall₂_eq_eq_eq, List.forall₂_map_left_iff, List.forall₂_map_right_iff]
  refine (forall₂_filter_findings h id).flip.imp fun f remark hf => ?_
  rw [(of_finding_eq_ok hf).2.1, message_of_finding_eq_ok hf]

/-- The findings under a rule are where the remarks under it are. -/
theorem map_span_filter_findings {remarks : List Remark} {findings : List Finding}
    (h : context.findings remarks = .ok findings) (id : String) :
    (findings.filter (·.ruleId == id)).map (·.span) =
      (remarks.filter (·.ruleId == id)).map (·.span) := by
  have hplaces := congrArg (List.map Prod.fst) (Context.map_filter_findings h id)
  rwa [List.map_map, List.map_map] at hplaces

/-- A remark under a rule that is enabled becomes a finding. -/
theorem Context.exists_finding {remark : Remark} (h : context.enabled remark.ruleId = true) :
    ∃ f, context.finding remark = .ok f := by
  obtain ⟨rule, hrule, hid⟩ := (RuleSet.contains_iff _).mp h
  have hfound : context.rules.get? remark.ruleId = some rule :=
    RuleSet.get?_eq_some_iff.mpr ⟨hrule, hid⟩
  exact ⟨_, by rw [finding, hfound]⟩

theorem Context.Accepts.isChecked {remark : Remark} {f : Finding} (h : context.Accepts remark)
    (hfinding : context.finding remark = .ok f) : f.IsChecked context.unit := by
  obtain ⟨-, -, hpatch, hfix, -⟩ := of_finding_eq_ok hfinding
  exact ⟨hpatch, fun request hrequest => h.meets.checked request (hfix request hrequest)⟩

theorem Context.Accepts.inside {remark : Remark} {f : Finding} (h : context.Accepts remark)
    (hspans : context.unit.SpansInside) (hfinding : context.finding remark = .ok f) :
    f.Inside context.unit := by
  obtain ⟨hid, hspan, -, hfix, -⟩ := of_finding_eq_ok hfinding
  have hinside := h.meets.inside hspans
  exact ⟨hid ▸ h.ruleId_ne, hspan ▸ hinside.span,
    fun request hrequest => hinside.requests request (hfix request hrequest)⟩

theorem importsEvaluator_eq_ok {findings : List Finding} :
    importsEvaluator.evaluate context = .ok findings ↔
      ∃ remarks, context.unit.imports.mapM (importDeclRemarks context) = .ok remarks ∧
        context.findings remarks.flatten = .ok findings :=
  bind_eq_ok

theorem acceptsAll_flatten_importDeclRemarks {remarks : List (List Remark)}
    (h : context.unit.imports.mapM (importDeclRemarks context) = .ok remarks) :
    context.AcceptsAll remarks.flatten := by
  intro remark hremark
  obtain ⟨listed, hlisted, hmem⟩ := List.mem_flatten.mp hremark
  obtain ⟨decl, hdecl, hok⟩ := of_mem_mapM h hlisted
  exact acceptsAll_importDeclRemarks hdecl hok remark hmem

/-- **The findings of a built-in evaluator stand for accepted remarks.** -/
theorem exists_remarks_of_builtin {evaluator : Evaluator} {findings : List Finding}
    (hbuiltin : evaluator ∈ builtinEvaluators) (h : evaluator.evaluate context = .ok findings) :
    ∃ remarks, context.AcceptsAll remarks ∧ context.findings remarks = .ok findings := by
  simp only [builtinEvaluators, List.mem_cons, List.not_mem_nil, or_false] at hbuiltin
  rcases hbuiltin with rfl | rfl | rfl | rfl | rfl | rfl
  case inr.inr.inl =>
    obtain ⟨remarks, hremarks, hfindings⟩ := importsEvaluator_eq_ok.mp h
    exact ⟨_, acceptsAll_flatten_importDeclRemarks hremarks, hfindings⟩
  · exact ⟨_, acceptsAll_namingRemarks, (Evaluator.ofChecks_eq_ok.mp h).2⟩
  · exact ⟨_, acceptsAll_errorRemarks, (Evaluator.ofChecks_eq_ok.mp h).2⟩
  · exact ⟨_, acceptsAll_documentationRemarks, h⟩
  · exact ⟨_, acceptsAll_organizationRemarks, (Evaluator.ofChecks_eq_ok.mp h).2⟩
  · exact ⟨_, acceptsAll_layoutRemarks, h⟩

theorem exists_accepts_of_builtin {evaluator : Evaluator} {findings : List Finding}
    (hbuiltin : evaluator ∈ builtinEvaluators) (h : evaluator.evaluate context = .ok findings) :
    ∀ f ∈ findings, ∃ remark, context.Accepts remark ∧ context.finding remark = .ok f := by
  obtain ⟨remarks, haccepts, hfindings⟩ := exists_remarks_of_builtin hbuiltin h
  intro f hf
  obtain ⟨remark, hremark, hfinding⟩ := of_mem_mapM hfindings hf
  exact ⟨remark, haccepts remark hremark, hfinding⟩

/-- **The findings of the built-in evaluators ask for checked renamings only.** -/
theorem isChecked_of_builtin (context : Context) {evaluator : Evaluator}
    (hbuiltin : evaluator ∈ builtinEvaluators) {findings : List Finding}
    (h : evaluator.evaluate context = .ok findings) :
    ∀ f ∈ findings, f.IsChecked context.unit := by
  intro f hf
  obtain ⟨remark, haccepts, hfinding⟩ := exists_accepts_of_builtin hbuiltin h f hf
  exact haccepts.isChecked hfinding

/-- Remarks that are accepted become findings. -/
theorem Context.AcceptsAll.exists_findings {remarks : List Remark}
    (h : context.AcceptsAll remarks) : ∃ findings, context.findings remarks = .ok findings :=
  exists_mapM_eq_ok fun remark hremark => exists_finding (h remark hremark).enabled

/-- An evaluator answers if its checks do and their remarks are accepted. -/
theorem exists_findings_of_checks {category : Category} {checks : Context → List Check}
    (hanswer : AllAnswer (checks context))
    (haccepts : context.AcceptsAll (remarksOf (checks context))) :
    ∃ findings, (Evaluator.ofChecks category checks).evaluate context = .ok findings := by
  obtain ⟨findings, hfindings⟩ := haccepts.exists_findings
  exact ⟨findings, Evaluator.ofChecks_eq_ok.mpr ⟨hanswer, hfindings⟩⟩

/-- **No built-in evaluator fails on a file whose spans are ranges of its text**, if what is looked
up is there, and its findings lie in the file. -/
theorem evaluate_eq_ok_of_builtin (h : context.unit.SpansInside)
    (hcomplete : context.unit.Complete) (hbands : context.settings.scopeBands ≠ [])
    {evaluator : Evaluator} (hbuiltin : evaluator ∈ builtinEvaluators) :
    ∃ findings, evaluator.evaluate context = .ok findings ∧
      ∀ f ∈ findings, f.Inside context.unit := by
  have hevaluates : ∃ findings, evaluator.evaluate context = .ok findings := by
    simp only [builtinEvaluators, List.mem_cons, List.not_mem_nil, or_false] at hbuiltin
    rcases hbuiltin with rfl | rfl | rfl | rfl | rfl | rfl
    case inr.inr.inl =>
      obtain ⟨remarks, hremarks⟩ := exists_mapM_eq_ok fun decl hdecl =>
        exists_importDeclRemarks h hdecl
      obtain ⟨findings, hfindings⟩ :=
        (acceptsAll_flatten_importDeclRemarks hremarks).exists_findings
      exact ⟨findings, importsEvaluator_eq_ok.mpr ⟨remarks, hremarks, hfindings⟩⟩
    · exact exists_findings_of_checks (allAnswer_namingChecks hcomplete hbands)
        acceptsAll_namingRemarks
    · exact exists_findings_of_checks (allAnswer_errorChecks hcomplete) acceptsAll_errorRemarks
    · exact acceptsAll_documentationRemarks.exists_findings
    · exact exists_findings_of_checks (allAnswer_organizationChecks hcomplete)
        acceptsAll_organizationRemarks
    · exact acceptsAll_layoutRemarks.exists_findings
  obtain ⟨findings, hfindings⟩ := hevaluates
  refine ⟨findings, hfindings, fun f hf => ?_⟩
  obtain ⟨remark, haccepts, hfinding⟩ := exists_accepts_of_builtin hbuiltin hfindings f hf
  exact haccepts.inside h hfinding

/-! ## Remarks under a rule that is enabled -/

section WhenEnabled

variable {context : Context} {id other : String} {remarks : List Remark} {remark : Remark}

theorem mem_of_mem_whenEnabled (h : remark ∈ context.whenEnabled id remarks) :
    remark ∈ remarks := by
  unfold Context.whenEnabled at h
  split at h
  · exact h
  · cases h

/-- A remark under one rule is not under another one. -/
theorem ruleId_ne_of_mem_whenEnabled (hother : id ≠ other)
    (hmeet : AllMeet context.unit id remarks)
    (h : remark ∈ context.whenEnabled id remarks) : remark.ruleId ≠ other := by
  rw [(hmeet remark (mem_of_mem_whenEnabled h)).ruleId_eq]
  exact hother

/-- Remarks under another rule are none of those under a rule. -/
theorem filter_whenEnabled_of_ne (hother : id ≠ other) (hmeet : AllMeet context.unit id remarks) :
    (context.whenEnabled id remarks).filter (·.ruleId == other) = [] :=
  List.filter_eq_nil_iff.mpr fun _ hremark heq =>
    ruleId_ne_of_mem_whenEnabled hother hmeet hremark (beq_iff_eq.mp heq)

/-- The remarks under a rule that is enabled. -/
theorem filter_whenEnabled_self (henabled : context.enabled id = true)
    (hmeet : AllMeet context.unit id remarks) :
    (context.whenEnabled id remarks).filter (·.ruleId == id) = remarks := by
  rw [Context.whenEnabled, if_pos henabled]
  exact List.filter_eq_self.mpr fun remark hremark =>
    beq_iff_eq.mpr (hmeet remark hremark).ruleId_eq

end WhenEnabled

end GoConventions
