import GoConventions.Files.Access
import GoConventions.Json.Reader
import GoConventions.Rule.Catalog
import GoConventions.Settings.Reader
import GoConventions.Tree.File

/-!
# Loading documents, settings and catalogs

Documents, settings and catalogs are files with JSON texts; a file whose name does not end in
`.json` may also be blank, which reads as null.

A tree document names a source file and either holds its text or leaves it to be read from the place
that the path denotes, seen from the directory of the document.

## Main definitions

* `loadDocument`, `unitOfDocument`, `loadUnit`: a tree document and the model of its source file.
* `loadSettings`, `loadRegistry`.
-/

namespace GoConventions

/-- Why a tree document cannot be used. -/
inductive DocumentFault where
  | tree (fault : TreeFault)
  | file (fault : FileFault)
  /-- The lists and objects of the document lie too deep inside each other. -/
  | tooDeep
  deriving DecidableEq, Repr

/-- Why a text has no value. -/
inductive TextFault where
  | malformed (reason : String)
  | longNumeral (digits : Nat)
  | tooDeep
  deriving DecidableEq, Repr

def TextFault.message : TextFault → String
  | .malformed reason => reason
  | .longNumeral digits => WholeNumberFault.message (.tooLong digits)
  | .tooDeep => "the text is nested too deep"

/-- How a file is written: strictly as JSON, or as a text that may be blank. -/
inductive TextLayout where
  | json
  | blankable
  deriving DecidableEq, Repr

/-- The layout of a file by its name. -/
def TextLayout.ofPath (path : FilePath) : TextLayout :=
  if path.suffix == ".json" then .json else .blankable

/-- How deep lists and objects may lie inside each other. -/
def TextLayout.depth : TextLayout → Nat
  | .json => 980
  | .blankable => 480

/-- The value of a text; a blank text is null, where that is allowed. -/
def TextLayout.parse (layout : TextLayout) (text : String) : Except TextFault Json :=
  if layout == .blankable && Text.isBlankText text then .ok .null
  else
    match Json.ofTextUpTo layout.depth text with
    | .ok value => .ok value
    | .error (.longNumeral digits) => .error (.longNumeral digits)
    | .error .tooDeep => .error .tooDeep
    | .error fault => .error (.malformed (fault.message text.length))

/-- Why a file with a JSON text has no value. -/
inductive StructuredFault where
  | file (fault : FileFault)
  | text (layout : TextLayout) (fault : TextFault)
  deriving DecidableEq, Repr

/-- What a document says of its source. -/
inductive SourceOrigin where
  | embedded (text : String)
  | file
  deriving DecidableEq, Repr

/-- The path that a document names, and where its source is. -/
def sourceOrigin (document : Members) : TreeResult (String × SourceOrigin) :=
  match document.get "path" with
  | .str path =>
    if path.isEmpty then .error (.malformed none .missingPath)
    else
      match document.get "source" with
      | .null => .ok (path, .file)
      | .str text => .ok (path, .embedded text)
      | _ => .error (.malformed (some path) .sourceNotText)
  | _ => .error (.malformed none .missingPath)

/-- The model of the source file of a document, given its text. -/
def unitOfText (document : Members) (path text : String) : TreeResult SourceUnit :=
  match document.get "tree" with
  | .obj tree => readTree path text tree
  | _ => .error (.malformed (some path) .missingTree)

/-- The place of a source file, seen from the directory of its document. -/
def sourceFile (directory : FilePath) (path : String) : FilePath :=
  directory.below (.ofText path)

section Loading

variable {m : Type → Type} [Monad m] (access : FileAccess m)

/-- The value of a file with a JSON text; null if there is no such file. -/
def readStructured (path : FilePath) : m (Except StructuredFault Json) := do
  match ← access.look path with
  | .error fault => return .error (.file fault)
  | .ok .nothing => return .ok .null
  | .ok _ =>
    match ← access.read path with
    | .error fault => return .error (.file fault)
    | .ok text =>
      let layout := TextLayout.ofPath path
      return (layout.parse (Text.withLineFeeds text)).mapError (.text layout)

/-- The members of a tree document. -/
def loadDocument (path : FilePath) : m (Except DocumentFault Members) := do
  let malformed (what : Malformation) : Except DocumentFault Members :=
    .error (.tree (.malformed (some path.text) what))
  match ← readStructured access path with
  | .error (.file fault) => return .error (.file fault)
  | .error (.text _ .tooDeep) => return .error .tooDeep
  -- A text of the wrong form is a fault of the document; a file that cannot be read is not.
  | .error (.text _ fault) => return malformed (.unreadableDocument fault.message)
  | .ok .null => return malformed .missingDocument
  | .ok (.obj members) => return .ok members
  | .ok _ => return malformed .documentNotObject

/-- The text of the source file of a document. -/
def loadSource (directory : FilePath) (document : Members) :
    m (Except DocumentFault (String × String)) := do
  match sourceOrigin document with
  | .error fault => return .error (.tree fault)
  | .ok (path, .embedded text) => return .ok (path, text)
  | .ok (path, .file) =>
    let file := sourceFile directory path
    match ← access.look file with
    | .error fault => return .error (.file fault)
    | .ok .nothing => return .error (.tree (.malformed (some path) (.missingSource file.text)))
    | .ok _ =>
      match ← readText access file with
      | .ok text => return .ok (path, text)
      | .error fault => return .error (.file fault)

/-- The model of the source file of a document. -/
def unitOfDocument (directory : FilePath) (document : Members) :
    m (Except DocumentFault SourceUnit) := do
  match ← loadSource access directory document with
  | .error fault => return .error fault
  | .ok (path, text) => return (unitOfText document path text).mapError .tree

/-- The model of the source file of a document that is a file. -/
def loadUnit (path : FilePath) : m (Except DocumentFault SourceUnit) := do
  match ← loadDocument access path with
  | .error fault => return .error fault
  | .ok document => unitOfDocument access path.parent document

/-- The name of the settings file that is used when none is given. -/
def defaultSettingsFile : String := ".gostyle.yaml"

/-- The settings that the value of a file gives, and what is said about them. -/
def settingsOfValue (path : FilePath) : Json → Except SettingsFault Settings × List LogRecord
  | .obj members =>
    match Settings.ofMembers members with
    | (.ok settings, log) => (.ok settings, log ++ [loaded])
    | (.error fault, log) => (.error fault, log)
  | value => if value.isVacant then (.ok {}, [loaded]) else (.error (.notObject path.text), [])
where
  loaded : LogRecord :=
    { level := .info, source := .settings
      message := "configuration loaded from " ++ path.text }

/-- The settings of a file, and what is said about them. -/
def readSettings (path : FilePath) : m (Except SettingsFault Settings × List LogRecord) := do
  match ← access.read path with
  | .error .nullCharacter => return (.error .nullCharacter, [])
  | .error fault => return (.error (.unreadable path.text fault.message), [])
  | .ok text =>
    match TextLayout.blankable.parse (Text.withLineFeeds text) with
    | .error (.malformed reason) => return (.error (.invalid path.text reason), [])
    | .error (.longNumeral digits) => return (.error (.longNumeral digits), [])
    | .error .tooDeep => return (.error .tooDeep, [])
    | .ok value => return settingsOfValue path value

/-- The settings of the given file, or of the default file when there is one, or the defaults. -/
def loadSettings (path : Option String) :
    m (Except SettingsFault Settings × List LogRecord) := do
  match path.filter (!·.isEmpty) with
  | some path => readSettings access (.ofText path)
  | none =>
    let path := FilePath.ofText defaultSettingsFile
    match ← access.look path with
    | .error _ => return (.ok {}, [])
    | .ok .nothing => return (.ok {}, [])
    | .ok _ => readSettings access path

/-- The registry of a catalog file, and what is said about it. -/
def loadRegistry (path : FilePath) : m (Except CatalogFault Registry × List LogRecord) := do
  match ← access.read path with
  | .error .nullCharacter => return (.error .nullCharacter, [])
  | .error fault => return (.error (.unreadable fault.message), [])
  | .ok text =>
    match TextLayout.blankable.parse (Text.withLineFeeds text) with
    | .error (.malformed reason) => return (.error (.unreadable reason), [])
    | .error (.longNumeral digits) => return (.error (.longNumeral digits), [])
    | .error .tooDeep => return (.error .tooDeep, [])
    | .ok value =>
      match Registry.ofJson value with
      | .error fault => return (.error fault, [])
      | .ok registry => return (.ok registry, [registry.loadedRecord])

/-- What is said about a file that was read. -/
def SourceUnit.readRecord (unit : SourceUnit) : LogRecord where
  level := .debug
  source := .reading
  message := "adapted " ++ unit.path ++ ": " ++ toString unit.declarations.length ++
    " declarations, " ++ toString unit.scopes.length ++ " scopes, " ++
    toString unit.calls.length ++ " calls"

end Loading

end GoConventions
