import GoConventions.Proofs.Tree.Anchors
import GoConventions.Proofs.Tree.CollectedComments
import GoConventions.Proofs.Tree.TranscribedFile

/-!
# The comments of declarations

A declaration of the file is commented at its anchor, the node above whose first line the comments
stand: a specification in parentheses is an anchor of its own, and everything else is anchored at
the whole declaration.  Whatever a walk adds in between, the declarations of the file are added one
for each place where something is declared, in the order of the places (`declaresAt_readFile`).

What is attached can then be said without an index by lines: the doc is the last block that stands
alone and ends just above the anchor, and the detached comment the last one that ends one line
higher, if the line between is blank and there is no doc (`attachesComments_of_readTree`).

## Main definitions

* `DeclaredPlace`, `Members.declaredPlaces`: where a declaration of the file declares something.
* `SourceUnit.IsLastEndingOn`: the last block that stands alone and ends on a line.
* `SourceUnit.AttachesComments`: what is promised of the comments of a model.

## Main results

* `commentEndingOn?_eq_some_iff`: the comment that is looked up by its last line.
* `attachesComments_of_readTree`: the comments of every model are collected and attached so.
-/

namespace GoConventions

/-! ## Places -/

/-- Where something is declared: the node of its name, and the node above which its comments
stand. -/
structure DeclaredPlace where
  name : Members
  anchor : Members

/-- The names that a specification declares; nothing is declared under the blank name. -/
def Members.declaredNames (spec : Members) (token : Json) : List Members :=
  if token.isText "type" then (spec.get "name").members?.toList
  else (spec.nodesAt "names").filter fun name => Members.name name != "_"

/-- The places where a declaration of a file declares types, values and functions. -/
def Members.declaredPlaces (src : SourceText) (decl : Members) : List DeclaredPlace :=
  if decl.hasKind "GenDecl" then
    if (decl.get "tok").isText "import" then []
    else (decl.nodesAt "specs").flatMap fun spec =>
      let anchor := if isParenthesized src decl matches .ok true then spec else decl
      (spec.declaredNames (decl.get "tok")).map (⟨·, anchor⟩)
  else if decl.hasKind "FuncDecl" then (decl.get "name").members?.toList.map (⟨·, decl⟩)
  else []

namespace CommentedText

/-- A declaration is the one at a place: it has the name there, and the comments of the anchor. -/
structure Documents (src : CommentedText) (place : DeclaredPlace) (decl : Declaration) : Prop where
  name : decl.name = place.name.name
  nameSpan : src.span place.name = .ok decl.nameSpan
  docs : ∃ anchor group, src.span place.anchor = .ok anchor ∧
    decl.doc = (docsAt src anchor.start.line group).doc ∧
    decl.detachedDoc = (docsAt src anchor.start.line group).detached

/-- A step of the reader adds declarations, among them one for each of some places, in their
order. -/
def DeclaresAt {α : Type} (src : CommentedText) (places : List DeclaredPlace)
    (step : TreeReader α) : Prop :=
  ∀ draft a later, step.run draft = .ok (a, later) → ∃ added,
    later.declarations = draft.declarations ++ added ∧
      List.SublistForall₂ src.Documents places added

end CommentedText

/-! ## Steps that add declarations -/

/-- A draft that grows in its declarations, if at all, at their end. -/
def declarationGrowth : Growth where
  Grows draft later := draft.declarations <+: later.declarations
  Declares _ := True
  refl _ := List.prefix_refl _
  trans := List.IsPrefix.trans
  scope _ _ := List.prefix_refl _
  identifier _ _ := List.prefix_refl _
  call _ _ := List.prefix_refl _
  declaration _ _ _ := List.prefix_append _ _
  undetached _ _ := trivial

namespace CommentedText.DeclaresAt

variable {α β γ : Type} {src : CommentedText} {places more : List DeclaredPlace}
  {step : TreeReader α} {next : α → TreeReader β}

theorem of_keeps (h : declarationGrowth.Keeps step) : src.DeclaresAt [] step := by
  intro draft a later hrun
  obtain ⟨added, hadded⟩ := h draft a later hrun
  exact ⟨added, hadded.symm, .nil⟩

theorem bind (hstep : src.DeclaresAt places step) (hnext : ∀ a, src.DeclaresAt more (next a)) :
    src.DeclaresAt (places ++ more) (step >>= next) := by
  intro draft b later h
  obtain ⟨a, middle, hfirst, hrest⟩ := run_bind_eq_ok.mp h
  obtain ⟨added, hmiddle, hplaces⟩ := hstep draft a middle hfirst
  obtain ⟨last, hlater, hmore⟩ := hnext a middle b later hrest
  refine ⟨added ++ last, by rw [hlater, hmiddle, List.append_assoc], ?_⟩
  obtain ⟨declared, hdeclared, hsublist⟩ := List.sublistForall₂_iff.mp hplaces
  obtain ⟨others, hothers, hrestSublist⟩ := List.sublistForall₂_iff.mp hmore
  exact List.sublistForall₂_iff.mpr
    ⟨declared ++ others, List.rel_append hdeclared hothers, hsublist.append hrestSublist⟩

/-- A step that declares nothing of its own comes first. -/
theorem after (hstep : declarationGrowth.Keeps step)
    (hnext : ∀ a, src.DeclaresAt places (next a)) : src.DeclaresAt places (step >>= next) :=
  (of_keeps hstep).bind hnext

theorem bind_of_keeps (hstep : src.DeclaresAt places step)
    (hnext : ∀ a, declarationGrowth.Keeps (next a)) : src.DeclaresAt places (step >>= next) := by
  rw [← List.append_nil places]
  exact hstep.bind fun a => of_keeps (hnext a)

theorem found_bind {result : TreeResult α}
    (hnext : ∀ a, result = .ok a → src.DeclaresAt places (next a)) :
    src.DeclaresAt places (liftM result >>= next) := by
  intro draft b later h
  obtain ⟨a, ha, hrest⟩ := run_lift_bind_eq_ok.mp h
  exact hnext a ha draft b later hrest

theorem forM {xs : List γ} {f : γ → TreeReader Unit} {at_ : γ → List DeclaredPlace}
    (hf : ∀ x ∈ xs, src.DeclaresAt (at_ x) (f x)) :
    src.DeclaresAt (xs.flatMap at_) (xs.forM f) := by
  induction xs with
  | nil => exact of_keeps (.pure PUnit.unit)
  | cons x xs ih =>
    exact (hf x List.mem_cons_self).bind fun _ =>
      ih fun y hy => hf y (List.mem_cons_of_mem x hy)

end CommentedText.DeclaresAt

/-! ## Declarations of a file -/

section Files

open CommentedText

variable {src : CommentedText} {root : Nat} {decl spec : Members}

theorem declaresAt_declare {place : DeclaredPlace} {declared : Declaration}
    (h : src.Documents place declared) : src.DeclaresAt [place] (declare declared) := by
  intro draft a later hrun
  obtain ⟨-, rfl⟩ := Prod.mk.inj (Except.ok.inj hrun)
  exact ⟨[declared], rfl, .cons h .nil⟩

/-- A name is declared, unless it is blank. -/
theorem declaresAt_declareValue {anchor : Span} {group : Option CommentBlock} {node name : Members}
    (hanchor : src.span node = .ok anchor) (kind : DeclKind) (calls : List CallSite) (index : Nat)
    (value : Option Members) :
    src.DeclaresAt (([name].filter fun name => Members.name name != "_").map (⟨·, node⟩))
      (declareValue src.toSourceText kind root anchor (docsAt src anchor.start.line group) calls
        index name value) := by
  unfold declareValue
  refine .after (Growth.keeps_recordIdentifier _ _) fun _ => ?_
  split
  case isTrue hname =>
    rw [List.filter_singleton, hname]
    have hdeclared : ∀ initCall, src.DeclaresAt [⟨name, node⟩] (do
        let nameSpan ← src.span name
        declare {
          name := name.name, kind, exported := root == 0 && isExported name.name, scope := root
          span := if index = 0 then anchor else ⟨nameSpan.start, anchor.stop⟩
          nameSpan, doc := (docsAt src anchor.start.line group).doc
          detachedDoc := (docsAt src anchor.start.line group).detached
          groupDoc := (docsAt src anchor.start.line group).group, initCall }) :=
      fun initCall => .found_bind fun nameSpan hspan =>
        declaresAt_declare ⟨rfl, hspan, anchor, group, hanchor, rfl, rfl⟩
    cases value with
    | some value => exact .found_bind fun initCall _ => hdeclared initCall
    | none => exact .after (.pure _) hdeclared
  case isFalse hblank =>
    rw [List.filter_singleton, Bool.eq_false_iff.mpr hblank]
    exact .of_keeps (.pure _)

/-- A specification of values declares its names, at the anchor it is given. -/
theorem declaresAt_walkValueSpec {token : Json} (htoken : token.isText "type" = false)
    {anchor : Span} {group : Option CommentBlock} {node : Members}
    (hanchor : src.span node = .ok anchor) :
    src.DeclaresAt ((spec.declaredNames token).map (⟨·, node⟩))
      (walkValueSpec src.toSourceText (walkTree src.toSourceText) spec token root anchor
        (docsAt src anchor.start.line group)) := by
  unfold walkValueSpec
  refine .found_bind fun names hnames => .found_bind fun values _ => ?_
  refine .after (Growth.keeps_walkTree _ _ _) fun _ => .after .get fun before => ?_
  refine .after (.forM fun value _ => Growth.keeps_walkTree _ _ _) fun _ => ?_
  refine .after .get fun after => ?_
  have hplaces : ((spec.declaredNames token).map fun name => DeclaredPlace.mk name node) =
      names.zipIdx.flatMap fun entry =>
        ([entry.1].filter fun name => Members.name name != "_").map (⟨·, node⟩) := by
    rw [Members.declaredNames, htoken, if_neg Bool.false_ne_true, nodesAt_of_nodesIn hnames,
      ← List.map_flatMap, ← List.filter_flatMap, ← List.map_eq_flatMap, List.zipIdx_map_fst]
  rw [hplaces]
  exact .forM fun entry _ => declaresAt_declareValue hanchor _ _ _ _

/-- What has a position is a node. -/
theorem members?_of_span {value : Json} {node : Members} {span : Span}
    (hnode : nodeOrEmpty value = .ok node) (hspan : src.span node = .ok span) :
    value.members? = some node := by
  rcases nodeOrEmpty_eq_ok hnode with rfl | rfl
  · rfl
  · cases hspan

theorem declaresAt_readTypeSpec {token : Json} (htoken : token.isText "type" = true)
    {anchor : Span} {group : Option CommentBlock} {node : Members}
    (hanchor : src.span node = .ok anchor) :
    src.DeclaresAt ((spec.declaredNames token).map (⟨·, node⟩))
      (readTypeSpec src spec root anchor (docsAt src anchor.start.line group)) := by
  unfold readTypeSpec
  refine .after (Growth.keeps_recordIdentifier _ _) fun _ => ?_
  refine .after (Growth.keeps_walkTree _ _ _) fun _ => .found_bind fun name hname => ?_
  refine .found_bind fun nameSpan hspan => ?_
  rw [Members.declaredNames, htoken, if_pos rfl, members?_of_span hname hspan]
  exact declaresAt_declare ⟨rfl, hspan, anchor, group, hanchor, rfl, rfl⟩

/-- **Types and values are declared where they should be**: at their specification in parentheses,
else at the declaration. -/
theorem declaresAt_readGeneral (hkind : decl.hasKind "GenDecl" = true)
    (himport : (decl.get "tok").isText "import" = false) :
    src.DeclaresAt (decl.declaredPlaces src.toSourceText) (readGeneral src decl root) := by
  unfold readGeneral
  refine .found_bind fun span hspan => .found_bind fun specs hspecs => ?_
  refine .found_bind fun grouped hgrouped => ?_
  rw [Members.declaredPlaces, if_pos hkind, himport, if_neg Bool.false_ne_true,
    nodesAt_of_nodesIn hspecs, hgrouped]
  refine .forM fun spec hspec => .found_bind fun specSpan hspecSpan => ?_
  -- The two kinds of specifications declare at the anchor that they are given.
  have hread : ∀ {anchor node group}, src.span node = .ok anchor →
      src.DeclaresAt ((spec.declaredNames (decl.get "tok")).map (⟨·, node⟩))
        (if (decl.get "tok").isText "type" then
          readTypeSpec src spec root anchor (docsAt src anchor.start.line group)
        else walkValueSpec src.toSourceText (walkTree src.toSourceText) spec (decl.get "tok") root
          anchor (docsAt src anchor.start.line group)) := by
    intro anchor node group hanchor
    split
    case isTrue htype => exact declaresAt_readTypeSpec htype hanchor
    case isFalse hvalue => exact declaresAt_walkValueSpec (Bool.eq_false_iff.mpr hvalue) hanchor
  cases grouped with
  | true => exact hread hspecSpan
  | false => exact hread hspan

/-- A function is declared at itself. -/
theorem declaresAt_readFunction (hgeneral : decl.hasKind "GenDecl" = false)
    (hkind : decl.hasKind "FuncDecl" = true) :
    src.DeclaresAt (decl.declaredPlaces src.toSourceText) (readFunction src decl root) := by
  unfold readFunction
  refine .found_bind fun span hspan => .found_bind fun name hname => ?_
  refine .after (Growth.keeps_recordIdentifier _ _) fun _ => ?_
  refine .after (Growth.keeps_receiver? _) fun receiver => ?_
  refine .after (Growth.keeps_openScope _ _ _ _) fun body => .found_bind fun signature _ => ?_
  refine .after (Growth.keeps_declareParameters Growth.keeps_walkTree _) fun params => ?_
  refine .after (Growth.keeps_resultTypes Growth.keeps_walkTree _) fun results => ?_
  refine .found_bind fun nameSpan hnameSpan => ?_
  rw [Members.declaredPlaces, hgeneral, if_neg Bool.false_ne_true, if_pos hkind,
    members?_of_span hname hnameSpan]
  refine .bind_of_keeps (declaresAt_declare ?_) fun _ => ?_
  · exact ⟨rfl, hnameSpan, span, none, hspan, rfl, rfl⟩
  · exact Growth.keeps_walkBody Growth.keeps_walkTree _

theorem declaresAt_readDeclaration :
    src.DeclaresAt (decl.declaredPlaces src.toSourceText) (readDeclaration src root decl) := by
  unfold readDeclaration
  split
  case isTrue hgeneral =>
    split
    case isTrue himport =>
      rw [Members.declaredPlaces, if_pos hgeneral, if_pos himport]
      exact .of_keeps (Growth.keeps_readImports fun _ => .ofModify fun _ => List.prefix_refl _)
    case isFalse hother => exact declaresAt_readGeneral hgeneral (Bool.eq_false_iff.mpr hother)
  case isFalse hgeneral =>
    have hgeneral := Bool.eq_false_iff.mpr hgeneral
    split
    case isTrue hfunction => exact declaresAt_readFunction hgeneral hfunction
    case isFalse hother =>
      rw [Members.declaredPlaces, hgeneral, Bool.eq_false_iff.mpr hother]
      exact .of_keeps (Growth.keeps_walkTree _ _ _)

/-- **A file declares at its places**, one declaration after the other. -/
theorem declaresAt_readFile {tree : Members} :
    src.DeclaresAt ((tree.nodesAt "decls").flatMap (Members.declaredPlaces src.toSourceText))
      (readFile src tree) := by
  unfold readFile
  refine .after (Growth.keeps_openScope _ _ _ _) fun root => .found_bind fun clause _ => ?_
  refine .after (Growth.keeps_declare trivial) fun _ => .found_bind fun decls hdecls => ?_
  rw [nodesAt_of_nodesIn hdecls, ← List.append_nil (List.flatMap _ _)]
  exact .bind (.forM fun decl _ => declaresAt_readDeclaration) fun _ => .of_keeps (.pure _)

end Files

/-! ## Comments by their last line -/

/-- A block is the last one that stands alone and ends on a line. -/
structure SourceUnit.IsLastEndingOn (unit : SourceUnit) (line : Int) (block : CommentBlock) :
    Prop where
  mem : block ∈ unit.comments
  alone : unit.standsAlone block = true
  stop : block.span.stop.line = line
  last : ∀ other ∈ unit.comments, unit.standsAlone other = true → other.span.stop.line = line →
    other.span.start.offset ≤ block.span.start.offset

section LastLines

variable {unit : SourceUnit} {line : Int}

/-- The last element of an ascending list is the greatest. -/
theorem getLast?_eq_some_iff_of_pairwise {α : Type} {key : α → Int} {xs : List α}
    (h : xs.Pairwise fun x y => key x < key y) {x : α} :
    xs.getLast? = some x ↔ x ∈ xs ∧ ∀ y ∈ xs, key y ≤ key x := by
  rcases List.eq_nil_or_concat xs with rfl | ⟨before, last, rfl⟩
  · exact iff_of_false nofun fun hmem => List.not_mem_nil hmem.1
  · obtain ⟨-, -, hbefore⟩ := List.pairwise_append.mp (List.concat_eq_append ▸ h)
    rw [List.concat_eq_append, List.getLast?_concat, Option.some_inj]
    constructor
    · rintro rfl
      refine ⟨List.mem_append_right _ (List.mem_singleton_self _), fun y hy => ?_⟩
      rcases List.mem_append.mp hy with hy | hy
      · exact Int.le_of_lt (hbefore y hy last (List.mem_singleton_self _))
      · exact Int.le_of_eq (congrArg key (List.mem_singleton.mp hy))
    · rintro ⟨hx, hgreatest⟩
      rcases List.mem_append.mp hx with hx | hx
      · have hlt := hbefore x hx last (List.mem_singleton_self _)
        have hle := hgreatest last (List.mem_append_right _ (List.mem_singleton_self _))
        omega
      · exact (List.mem_singleton.mp hx).symm

/-- The blocks among which the one that ends on a line is looked up. -/
theorem mem_filter_alone {block : CommentBlock} :
    block ∈ ((unit.withComments unit.comments).alone.filter fun block =>
        block.span.stop.line == line) ↔
      block ∈ unit.comments ∧ unit.standsAlone block = true ∧ block.span.stop.line = line := by
  simp only [SourceText.withComments, SourceText.standalone, List.mem_filter, beq_iff_eq, and_assoc]

/-- **The comment that is looked up by its last line** is the last one that stands alone and ends
there. -/
theorem commentEndingOn?_eq_some_iff
    (hascending : unit.comments.Pairwise fun block later =>
      block.span.start.offset < later.span.start.offset) {block : CommentBlock} :
    (unit.withComments unit.comments).commentEndingOn? line = some block ↔
      unit.IsLastEndingOn line block := by
  have hsorted : ((unit.withComments unit.comments).alone.filter fun block =>
      block.span.stop.line == line).Pairwise fun block later =>
        block.span.start.offset < later.span.start.offset :=
    (hascending.filter _).filter _
  rw [CommentedText.commentEndingOn?, getLast?_eq_some_iff_of_pairwise hsorted]
  simp only [mem_filter_alone, and_imp]
  exact ⟨fun ⟨⟨hmem, halone, hstop⟩, hlast⟩ => ⟨hmem, halone, hstop, hlast⟩,
    fun h => ⟨⟨h.mem, h.alone, h.stop⟩, h.last⟩⟩

theorem commentEndingOn?_eq_none_iff :
    (unit.withComments unit.comments).commentEndingOn? line = none ↔
      ∀ block ∈ unit.comments, unit.standsAlone block = true → block.span.stop.line ≠ line := by
  rw [CommentedText.commentEndingOn?, List.getLast?_eq_none_iff, List.eq_nil_iff_forall_not_mem]
  simp only [mem_filter_alone, not_and]

end LastLines

/-! ## The comments of a model -/

namespace SourceUnit

/-- A declaration has the comments of a line: its doc ends just above, and unless it has one, what
ends above a blank line is detached from it. -/
structure HasCommentsOf (unit : SourceUnit) (line : Int) (decl : Declaration) : Prop where
  doc : ∀ block, decl.doc = some block ↔ unit.IsLastEndingOn (line - 1) block
  undocumented : decl.doc = none ↔
    ∀ block ∈ unit.comments, unit.standsAlone block = true → block.span.stop.line ≠ line - 1
  detached : ∀ block, decl.detachedDoc = some block ↔
    decl.doc = none ∧ unit.lineIsBlank (line - 1) = true ∧ unit.IsLastEndingOn (line - 2) block

/-- A declaration is the one at a place, and has the comments of its anchor. -/
structure IsDocumentedAt (unit : SourceUnit) (place : DeclaredPlace) (decl : Declaration) :
    Prop where
  name : decl.name = place.name.name
  nameSpan : unit.span place.name = .ok decl.nameSpan
  comments : ∃ anchor, unit.span place.anchor = .ok anchor ∧
    unit.HasCommentsOf anchor.start.line decl

/-- The comments of a model are those of its tree, and the declarations of the file have theirs. -/
structure AttachesComments (unit : SourceUnit) (tree : Members) : Prop where
  collected : unit.CollectsComments tree unit.comments
  attached : List.SublistForall₂ unit.IsDocumentedAt
    ((tree.nodesAt "decls").flatMap (Members.declaredPlaces unit.toSourceText)) unit.declarations

end SourceUnit

variable {unit : SourceUnit} {tree : Members}

/-- What is read at a place has the comments of its anchor. -/
theorem isDocumentedAt_of_documents (hcollected : unit.CollectsComments tree unit.comments)
    {place : DeclaredPlace} {decl : Declaration}
    (h : (unit.withComments unit.comments).Documents place decl) :
    unit.IsDocumentedAt place decl := by
  obtain ⟨anchor, group, hanchor, hdoc, hdetached⟩ := h.docs
  have hending : ∀ {line block},
      (unit.withComments unit.comments).commentEndingOn? line = some block ↔
        unit.IsLastEndingOn line block := commentEndingOn?_eq_some_iff hcollected.ascending
  refine ⟨h.name, h.nameSpan, anchor, hanchor, ?_, ?_, ?_⟩
  · intro block
    rw [hdoc]
    exact hending
  · rw [hdoc]
    exact commentEndingOn?_eq_none_iff
  · intro block
    rw [hdetached, hdoc, ← hending, docsAt, CommentedText.detachedComment?]
    -- Where there is a doc, nothing is looked up above it.
    cases (unit.withComments unit.comments).leadingComment? anchor.start.line with
    | some doc => simp
    | none =>
      dsimp only
      rw [if_neg (by simp), Option.ite_none_right_eq_some]
      exact ⟨fun h => ⟨rfl, h⟩, And.right⟩

/-- **Comments are collected and attached exactly.** -/
theorem attachesComments_of_readTree {path text : String} {unit : SourceUnit}
    (h : readTree path text tree = .ok unit) : unit.AttachesComments tree := by
  unfold readTree at h
  dsimp only at h
  split at h
  case isTrue => cases h
  case isFalse =>
    obtain ⟨comments, hcomments, h⟩ := bind_eq_ok.mp h
    obtain ⟨⟨clause, draft⟩, hread, h⟩ := bind_eq_ok.mp h
    obtain rfl := Except.ok.inj h
    have hcollected := collectsComments_of_collectComments hcomments
    obtain ⟨added, hadded, hplaces⟩ := declaresAt_readFile _ _ _ hread
    refine ⟨hcollected, ?_⟩
    obtain ⟨declared, hdeclared, hsublist⟩ := List.sublistForall₂_iff.mp hplaces
    refine List.sublistForall₂_iff.mpr ⟨declared, ?_, hadded ▸ hsublist⟩
    exact hdeclared.imp fun _ _ h => isDocumentedAt_of_documents hcollected h

/-! ## A type, a group and a function -/

/-- The comment of the type is listed by the file and hangs below the declaration, that of the
variable hangs below its specification only, and that of the function is detached. -/
def commentedText : SourceText where
  path := "p.go"
  text := "package p\n\n// T is.\ntype T int\n\nvar (\n\t// A is.\n\tA int // one\n)\n\n" ++
    "// F is.\n\nfunc f() \x7b\n\x7d\n"

def commentedTree : Members :=
  node "File" 0 88 [
    ("package", name 8 9 "p"),
    ("comments", .arr [comment 11 19 "// T is.", comment 65 73 "// F is."]),
    ("decls", .arr [
      declaration 20 30 "type" [("doc", comment 11 19 "// T is.")]
        (node "TypeSpec" 25 30 [("name", name 25 26 "T")]),
      declaration 32 63 "var" []
        (node "ValueSpec" 49 54 [("doc", comment 39 47 "// A is."),
          ("comment", comment 55 61 "// one"), ("names", .arr [name 49 50 "A"])]),
      .obj (node "FuncDecl" 75 87 [("name", name 80 81 "f")])])]
where
  node (kind : String) (start stop : Int) (parts : Members) : Members :=
    spannedNode kind (commentedText.spanOf start stop) parts
  name (start stop : Int) (text : String) : Json :=
    .obj (node "Ident" start stop [("name", .str text)])
  comment (start stop : Int) (text : String) : Json :=
    .obj (node "CommentGroup" start stop [
      ("list", .arr [.obj (node "Comment" start stop [("text", .str text)])])])
  declaration (start stop : Int) (token : String) (parts spec : Members) : Json :=
    .obj (node "GenDecl" start stop (parts ++ [("tok", .str token), ("specs", .arr [.obj spec])]))

/-- There are four blocks; the type and the variable have docs, and the function a detached
comment. -/
theorem attachesComments_commentedTree : ∃ unit,
    readTree commentedText.path commentedText.text commentedTree = .ok unit ∧
      unit.comments.map (·.text) = ["T is.", "A is.", "one", "F is."] ∧
      unit.declarations.map (fun decl =>
        (decl.name, decl.doc.map (·.text), decl.detachedDoc.map (·.text))) =
        [("p", none, none), ("T", some "T is.", none), ("A", some "A is.", none),
          ("f", none, some "F is.")] ∧
      unit.AttachesComments commentedTree := by
  have hread : ((readTree commentedText.path commentedText.text commentedTree).toOption.map
      fun unit => (unit.comments.map (·.text), unit.declarations.map fun decl =>
        (decl.name, decl.doc.map (·.text), decl.detachedDoc.map (·.text)))) =
      some (["T is.", "A is.", "one", "F is."],
        [("p", none, none), ("T", some "T is.", none), ("A", some "A is.", none),
          ("f", none, some "F is.")]) := by decide +kernel
  obtain ⟨unit, hunit, hvalues⟩ := Option.map_eq_some_iff.mp hread
  obtain ⟨hcomments, hdeclarations⟩ := Prod.mk.inj hvalues
  have hread := toOption_eq_some.mp hunit
  exact ⟨unit, hread, hcomments, hdeclarations, attachesComments_of_readTree hread⟩

end GoConventions
