import GoConventions.Files.Loading
import GoConventions.Files.Store
import GoConventions.Proofs.Tree.File

/-!
# Source texts from files

A document that does not hold its source is read with the text of a file.  Reading a file turns
its line ends into line feeds, so the document is read as if it held that text, and not the text
of the file: the two agree when the file has no carriage return, and never when the document that
holds the text of the file is accepted and the text has one.  The positions of a tree are those of
the text that was parsed, so a carriage return more moves all that stands behind it.

## Main definitions

* `Members.embedding`: a document that holds its source.
* `LeavesSource`: a document whose source is the text of a file.

## Main results

* `withLineFeeds_eq_self_iff`: the texts that reading leaves as they are.
* `unitOfDocument_eq_embedding`: what is read from a file next to what is read from the document
  that holds the text of the file.
-/

namespace GoConventions

variable {store : FileStore} {directory : FilePath} {document : Members} {path text : String}

/-! ## Line ends -/

namespace Text

theorem not_mem_withLineFeedsChars (chars : List Char) : '\r' ∉ withLineFeedsChars chars := by
  induction chars using withLineFeedsChars.induct with
  | case1 => exact List.not_mem_nil
  | case2 rest ih =>
    rw [withLineFeedsChars]
    exact List.not_mem_cons_of_ne_of_not_mem (by decide) ih
  | case3 c rest hnot ih =>
    rw [withLineFeedsChars.eq_3 c rest hnot]
    refine List.not_mem_cons_of_ne_of_not_mem ?_ ih
    by_cases hc : c = '\r'
    · rw [if_pos hc]
      decide
    · rw [if_neg hc]
      exact Ne.symm hc

theorem withLineFeedsChars_of_not_mem {chars : List Char} (h : '\r' ∉ chars) :
    withLineFeedsChars chars = chars := by
  induction chars using withLineFeedsChars.induct with
  | case1 => rfl
  | case2 rest ih => exact absurd List.mem_cons_self h
  | case3 c rest hnot ih =>
    obtain ⟨hc, hrest⟩ := not_or.mp (mt List.mem_cons.mpr h)
    rw [withLineFeedsChars.eq_3 c rest hnot, if_neg (Ne.symm hc), ih hrest]

/-- Reading leaves a text as it is exactly when the text has no carriage return. -/
theorem withLineFeeds_eq_self_iff : withLineFeeds text = text ↔ '\r' ∉ text.toList := by
  constructor
  · intro h
    rw [← h, withLineFeeds, String.toList_ofList]
    exact not_mem_withLineFeedsChars text.toList
  · intro h
    rw [withLineFeeds, withLineFeedsChars_of_not_mem h, String.ofList_toList]

end Text

/-! ## Documents that hold their source -/

/-- The document with a text as its source. -/
def Members.embedding (document : Members) (text : String) : Members :=
  ("source", .str text) :: document.filter (·.1 != "source")

@[simp] theorem Members.get_source_embedding : (document.embedding text).get "source" = .str text :=
  rfl

theorem Members.get_filter_of_ne {key dropped : String} (h : key ≠ dropped) (members : Members) :
    Members.get (members.filter (·.1 != dropped)) key = members.get key := by
  induction members with
  | nil => rfl
  | cons part members ih =>
    obtain ⟨other, value⟩ := part
    rw [get_cons]
    by_cases hother : other = dropped
    · rw [List.filter_cons_of_neg (by simpa using hother), ih, if_neg (hother ▸ h)]
    · rw [List.filter_cons_of_pos (by simpa using hother), get_cons, ih]

/-- Everything but the source is left as it was. -/
theorem Members.get_embedding_of_ne {key : String} (h : key ≠ "source") :
    (document.embedding text).get key = document.get key := by
  rw [Members.embedding, get_cons, if_neg h, Members.get_filter_of_ne h]

theorem unitOfText_embedding {new : String} :
    unitOfText (document.embedding new) path text = unitOfText document path text := by
  rw [unitOfText, Members.get_embedding_of_ne (by decide), unitOfText]

/-- A document that does not hold its source, which is the text of a file of the store. -/
structure LeavesSource (store : FileStore) (directory : FilePath) (document : Members)
    (text : String) : Prop where
  absent : document.get "source" = .null
  file : ∀ path, document.get "path" = .str path → path ≠ "" →
    store.read (sourceFile directory path) = .ok text

/-! ## Reading the source -/

/-- There is something where a file can be read. -/
theorem FileStore.look_of_read {file : FilePath} (h : store.read file = .ok text) :
    ∃ place, store.look file = .ok place ∧ place ≠ .nothing := by
  obtain ⟨spot, hspot, h⟩ := bind_eq_ok.mp h
  refine ⟨spot.place, by rw [FileStore.look, hspot], ?_⟩
  cases spot with
  | vacant => cases h
  | _ => exact nofun

/-- A step of a run whose answer and next state are known. -/
theorem run_bind_of_run_eq {σ α β : Type} {step : StateM σ α} {next : α → StateM σ β}
    {before after : σ} {answer : α} (h : step.run before = (answer, after)) :
    (step >>= next).run before = (next answer).run after := by
  rw [StateT.run_bind, h]
  rfl

/-- A file that can be read is found and read, and the store stays as it is. -/
theorem run_look_read {file : FilePath} (h : store.read file = .ok text) :
    (∃ place, (FileStore.access.look file).run store = (.ok place, store) ∧ place ≠ .nothing) ∧
      (FileStore.access.read file).run store = (.ok text, store) := by
  obtain ⟨place, hlook, hplace⟩ := FileStore.look_of_read h
  constructor
  · refine ⟨place, ?_, hplace⟩
    rw [← hlook]
    rfl
  · rw [← h]
    rfl

/-- The text of a file is read with line feeds at the ends of its lines. -/
theorem run_readText {file : FilePath} (h : store.read file = .ok text) :
    (readText FileStore.access file).run store = (.ok (Text.withLineFeeds text), store) := by
  obtain ⟨⟨place, hlook, hplace⟩, hread⟩ := run_look_read h
  rw [readText, run_bind_of_run_eq hlook]
  cases place with
  | nothing => exact absurd rfl hplace
  | _ => exact run_bind_of_run_eq hread

/-- The source of a document that leaves it to a file. -/
theorem run_loadSource_of_leavesSource (h : LeavesSource store directory document text)
    (hpath : document.get "path" = .str path) (hne : path ≠ "") :
    (loadSource FileStore.access directory document).run store =
      (.ok (path, Text.withLineFeeds text), store) := by
  have horigin : sourceOrigin document = .ok (path, .file) := by
    simp [sourceOrigin, hpath, h.absent, hne]
  obtain ⟨⟨place, hlook, hplace⟩, -⟩ := run_look_read (h.file path hpath hne)
  rw [loadSource, horigin]
  dsimp only
  rw [run_bind_of_run_eq hlook]
  cases place with
  | nothing => exact absurd rfl hplace
  | _ => exact run_bind_of_run_eq (run_readText (h.file path hpath hne))

/-- The source of a document that holds it. -/
theorem run_loadSource_embedding (hpath : document.get "path" = .str path) (hne : path ≠ "") :
    (loadSource FileStore.access directory (document.embedding text)).run store =
      (.ok (path, text), store) := by
  have horigin : sourceOrigin (document.embedding text) = .ok (path, .embedded text) := by
    rw [sourceOrigin, Members.get_embedding_of_ne (by decide), hpath]
    simp [hne]
  rw [loadSource, horigin]
  rfl

/-! ## Reading the document -/

/-- The answer that the reading of a document gives in a store, and the store after it. -/
def FileStore.load (store : FileStore) (directory : FilePath) (document : Members) :
    Except DocumentFault SourceUnit × FileStore :=
  (unitOfDocument FileStore.access directory document).run store

theorem load_of_leavesSource (h : LeavesSource store directory document text)
    (hpath : document.get "path" = .str path) (hne : path ≠ "") :
    store.load directory document =
      ((unitOfText document path (Text.withLineFeeds text)).mapError .tree, store) := by
  rw [FileStore.load, unitOfDocument,
    run_bind_of_run_eq (run_loadSource_of_leavesSource h hpath hne)]
  rfl

theorem load_embedding (hpath : document.get "path" = .str path) (hne : path ≠ "") :
    store.load directory (document.embedding text) =
      ((unitOfText document path text).mapError .tree, store) := by
  rw [FileStore.load, unitOfDocument, run_bind_of_run_eq (run_loadSource_embedding hpath hne)]
  dsimp only
  rw [unitOfText_embedding]
  rfl

/-- A document that names no file has no source, whether it holds one or not. -/
theorem load_of_unnamed (h : ∀ path, document.get "path" = .str path → path = "") :
    store.load directory document = (.error (.tree (.malformed none .missingPath)), store) := by
  have horigin : sourceOrigin document = .error (.malformed none .missingPath) := by
    rw [sourceOrigin]
    split
    next path hpath => rw [if_pos (String.isEmpty_iff.mpr (h path hpath))]
    next => rfl
  rw [FileStore.load, unitOfDocument, loadSource, horigin]
  rfl

/-- A document names a file, or none. -/
theorem named_or_unnamed (document : Members) :
    (∃ path, document.get "path" = .str path ∧ path ≠ "") ∨
      ∀ path, document.get "path" = .str path → path = "" := by
  by_cases h : ∃ path, document.get "path" = .str path ∧ path ≠ ""
  · exact .inl h
  · exact .inr fun path hpath => by_contra fun hne => h ⟨path, hpath, hne⟩

/-- A document that leaves its source to a file is read as the one that holds the text with line
feeds at the ends of its lines. -/
theorem load_eq_load_embedding_withLineFeeds (h : LeavesSource store directory document text) :
    store.load directory document =
      store.load directory (document.embedding (Text.withLineFeeds text)) := by
  rcases named_or_unnamed document with ⟨path, hpath, hne⟩ | hunnamed
  · rw [load_of_leavesSource h hpath hne, load_embedding hpath hne]
  · rw [load_of_unnamed hunnamed, load_of_unnamed]
    rwa [Members.get_embedding_of_ne (by decide)]

/-- The model that is read from a document has the text that the document holds. -/
theorem text_of_load_embedding {unit : SourceUnit}
    (h : (store.load directory (document.embedding text)).1 = .ok unit) : unit.text = text := by
  rcases named_or_unnamed document with ⟨path, hpath, hne⟩ | hunnamed
  · rw [load_embedding hpath hne, unitOfText] at h
    split at h
    next tree _ =>
      cases hread : readTree path text tree with
      | error fault =>
        rw [hread] at h
        cases h
      | ok read =>
        rw [hread] at h
        obtain rfl := Except.ok.inj h
        exact (exists_history_of_readTree hread).2.1
    next => cases h
  · have hpath := @Members.get_embedding_of_ne document text "path" (by decide)
    rw [load_of_unnamed (hpath ▸ hunnamed)] at h
    cases h

/-- **What is read from a file** is what is read from the document that holds the text of the file
with line feeds at the ends of its lines.  So it is what is read from the document that holds the
text itself if the text has no carriage return; if it has one, no model is read from both. -/
theorem load_eq_load_embedding (h : LeavesSource store directory document text) :
    store.load directory document =
        store.load directory (document.embedding (Text.withLineFeeds text)) ∧
      ('\r' ∉ text.toList →
        store.load directory document = store.load directory (document.embedding text)) ∧
      ('\r' ∈ text.toList → ∀ unit,
        (store.load directory (document.embedding text)).1 = .ok unit →
          (store.load directory document).1 ≠ .ok unit) := by
  have hfile := load_eq_load_embedding_withLineFeeds h
  refine ⟨hfile, ?_, ?_⟩
  · intro hnone
    rw [hfile, Text.withLineFeeds_eq_self_iff.mpr hnone]
  · intro hsome unit hembedded hloaded
    rw [hfile] at hloaded
    have hsame : Text.withLineFeeds text = text :=
      (text_of_load_embedding hloaded).symm.trans (text_of_load_embedding hembedded)
    exact Text.withLineFeeds_eq_self_iff.mp hsame hsome

/-! ## A file with carriage returns -/

/-- A constant on the second line of a file whose lines end with a carriage return. -/
def returnText : String := "package p\r\nconst a_b = 1;\r\n"

def returnStore : FileStore := .ofFiles [(["p.go"], returnText)]

/-- The document of the file, its positions being those of its text. -/
def returnDocument : Members :=
  [("path", .str "p.go"), ("tree", .obj (node "File" 0 27 [
    ("package", .obj (node "Ident" 8 9 [("name", .str "p")])),
    ("decls", .arr [.obj (node "GenDecl" 11 24 [
      ("tok", .str "const"),
      ("specs", .arr [.obj (node "ValueSpec" 17 24 [
        ("names", .arr [.obj (node "Ident" 17 20 [("name", .str "a_b")])]),
        ("values", .arr [.obj (node "BasicLit" 23 24 [("value", .str "1")])])])])])])]))]
where
  node (kind : String) (start stop : Int) (parts : Members) : Members :=
    spannedNode kind (SourceText.spanOf ⟨"p.go", returnText⟩ start stop) parts

/-- What stands at the names of the declarations that are read from a document. -/
def FileStore.loadedNames (store : FileStore) (document : Members) : List String :=
  match (store.load (.ofText ".") document).1 with
  | .ok unit => unit.declarations.map fun decl => unit.textAt decl.nameSpan
  | .error _ => []

theorem leavesSource_returnDocument :
    LeavesSource returnStore (.ofText ".") returnDocument returnText where
  absent := rfl
  file := by
    rintro path hpath -
    obtain rfl := Json.str.inj hpath
    decide +kernel

/-- The name that is read from the document with its source is one character further left than the
one that is read from the file. -/
theorem load_returnDocument :
    returnStore.loadedNames (returnDocument.embedding returnText) = ["p", "a_b"] ∧
      returnStore.loadedNames returnDocument = ["p", "_b "] := by
  constructor <;> decide +kernel

/-- The two ways of reading differ. -/
theorem not_forall_load_eq_load_embedding :
    ¬ ∀ (store : FileStore) (directory : FilePath) (document : Members) (text : String),
      LeavesSource store directory document text →
        store.load directory document = store.load directory (document.embedding text) := by
  intro h
  have hsame := h returnStore (.ofText ".") returnDocument returnText leavesSource_returnDocument
  obtain ⟨hembedded, hloaded⟩ := load_returnDocument
  rw [FileStore.loadedNames, ← hsame] at hembedded
  rw [FileStore.loadedNames, hembedded] at hloaded
  exact absurd hloaded (by decide)

/-- The carriage returns are lost on the way through the file, and so is the model. -/
theorem load_eq_load_embedding_returnDocument :
    LeavesSource returnStore (.ofText ".") returnDocument returnText ∧
      returnStore.load (.ofText ".") returnDocument =
        returnStore.load (.ofText ".")
          (returnDocument.embedding "package p\nconst a_b = 1;\n") ∧
      ∀ unit, (returnStore.load (.ofText ".") (returnDocument.embedding returnText)).1 = .ok unit →
        (returnStore.load (.ofText ".") returnDocument).1 ≠ .ok unit := by
  obtain ⟨hfile, -, hdiffer⟩ := load_eq_load_embedding leavesSource_returnDocument
  have htext : Text.withLineFeeds returnText = "package p\nconst a_b = 1;\n" := by decide +kernel
  exact ⟨leavesSource_returnDocument, htext ▸ hfile, hdiffer (by decide +kernel)⟩

end GoConventions
