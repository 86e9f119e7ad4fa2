import GoConventions.Files.Path
import GoConventions.Order.Sorting
import GoConventions.Text.Lines

/-!
# Access to files

The operations on files that the program needs, as a record over any monad: the command line
supplies the real ones, and `FileStore` supplies them for files in memory.

Text is read with all line ends as line feeds and written as it is.

## Main definitions

* `FileAccess`: the operations, and `FileFault`: why one of them fails.
* `makeDirectories`, `writeText`: a directory with all those above it; a file in such a directory.
* `readText`, `documentFiles`: a text file; the documents among roots and below directories.
-/

namespace GoConventions

/-- Why a file cannot be reached. -/
inductive FileFault where
  | missing
  | isDirectory
  /-- There is something already where a directory should be created. -/
  | occupied
  /-- The path goes on below what is no directory. -/
  | notDirectory
  | nameTooLong
  /-- The path holds a null character. -/
  | nullCharacter
  | other (reason : String)
  deriving DecidableEq, Repr

def FileFault.message : FileFault → String
  | .missing => "no such file"
  | .isDirectory => "is a directory"
  | .occupied => "there is something already"
  | .notDirectory => "not a directory"
  | .nameTooLong => "the name is too long"
  | .nullCharacter => "the path holds a null character"
  | .other reason => reason

/-- What a path leads to. -/
inductive Place where
  | file
  | directory
  /-- Something else that can be opened. -/
  | device
  | nothing
  deriving DecidableEq, Repr

structure FileAccess (m : Type → Type) where
  /-- What a path leads to; a fault when that cannot even be asked. -/
  look : FilePath → m (Except FileFault Place)
  /-- The paths of all files below a directory. -/
  filesBelow : FilePath → m (List FilePath)
  read : FilePath → m (Except FileFault String)
  /-- Creates one directory. -/
  makeDirectory : FilePath → m (Except FileFault Unit)
  /-- Writes a file, in place of what it held before. -/
  write : FilePath → String → m (Except FileFault Unit)
  /-- Writes at the end of a file. -/
  append : FilePath → String → m (Except FileFault Unit)

variable {m : Type → Type} [Monad m] (access : FileAccess m)

/-! ## Reading -/

/-- The text of a file, its line ends as line feeds; empty if there is no such file. -/
def readText (path : FilePath) : m (Except FileFault String) := do
  match ← access.look path with
  | .error fault => return .error fault
  | .ok .nothing => return .ok ""
  | .ok _ => return (← access.read path).map Text.withLineFeeds

/-- The endings of the names of tree documents. -/
def documentSuffixes : List String :=
  [".ast.json", ".ast.yaml", ".ast.yml"]

/-- The documents that one root stands for: itself, if it is a file, else the files below it whose
names have one of the endings, in the order of their paths. -/
def documentsBelow (suffixes : List String) (root : FilePath) :
    m (Except FileFault (List FilePath)) := do
  match ← access.look root with
  | .error fault => return .error fault
  | .ok .file => return .ok [root]
  | .ok .directory =>
    let files ← access.filesBelow root
    return .ok (sortBy FilePath.order
      (files.filter fun path => suffixes.any (Text.endsWith path.name)))
  | .ok _ => return .ok []

/-- The documents that the roots stand for, root after root. -/
def documentFiles (suffixes : List String) :
    List FilePath → m (Except FileFault (List FilePath))
  | [] => return .ok []
  | root :: roots => do
    match ← documentsBelow access suffixes root with
    | .error fault => return .error fault
    | .ok files => return (← documentFiles suffixes roots).map (files ++ ·)

/-! ## Writing -/

/-- Forgives the failure to create a directory that is there already. -/
def forgiveDirectory (path : FilePath) :
    Except FileFault Unit → m (Except FileFault Unit)
  | .ok () => return .ok ()
  | .error fault => do
    match ← access.look path with
    | .ok .directory => return .ok ()
    | _ => return .error fault

/-- Creates the directory with the given names, the innermost one first, and those above it as far
as they are missing. -/
def makeDirectoriesFrom (root : String) : List String → m (Except FileFault Unit)
  | [] => do forgiveDirectory access ⟨root, []⟩ (← access.makeDirectory ⟨root, []⟩)
  | name :: above => do
    let path : FilePath := ⟨root, (name :: above).reverse⟩
    match ← access.makeDirectory path with
    | .error .missing =>
      match ← makeDirectoriesFrom root above with
      | .error fault => return .error fault
      | .ok () => forgiveDirectory access path (← access.makeDirectory path)
    | made => forgiveDirectory access path made

/-- Creates a directory, and those above it as far as they are missing. -/
def makeDirectories (path : FilePath) : m (Except FileFault Unit) :=
  makeDirectoriesFrom access path.root path.names.reverse

/-- Writes a file, after creating the directories above it. -/
def writeText (path : FilePath) (text : String) : m (Except FileFault Unit) := do
  match ← makeDirectories access path.parent with
  | .error fault => return .error fault
  | .ok () => access.write path text

/-- Makes sure that a file is there to be appended to, and the directories above it. -/
def openForAppending (path : FilePath) : m (Except FileFault Unit) := do
  match ← makeDirectories access path.parent with
  | .error fault => return .error fault
  | .ok () => access.append path ""

end GoConventions
