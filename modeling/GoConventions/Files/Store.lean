import GoConventions.Files.Access
import GoConventions.Files.Tree

/-!
# Files in memory

A store holds a tree of files, seen from one directory, the *top*.  It answers the operations of
`FileAccess` the way a file system does: a path is followed name by name, each name but the last
must lead to a directory, and two points lead from a directory to the one above it.

A relative path starts at the top, an absolute one at the *root*, which stands under the name `/`;
the directories above the top stand under two points.  They are there as well as the root, and the
null device lies at its usual place; all of these hold nothing but what is written to them, the null
device not even that.

A place in the store is written as its *trail*: the names that lead to it from the top, free of
detours, the innermost one first.

## Main definitions

* `FileStore`: the store, and `FileStore.access`: the operations on a store that is a state.
* `FileStore.locate`: what a path leads to.
-/

namespace GoConventions

/-- The files and directories that were created. -/
structure FileStore where
  tree : FileTree := .directory []

/-- What following a path leads to: a file, a directory with its entries, or a name that is free in
a directory. -/
inductive Spot where
  | file (trail : List String) (text : String)
  | directory (trail : List String) (entries : List (String × FileTree))
  | vacant (trail : List String)
  | nullDevice

def Spot.place : Spot → Place
  | .file .. => .file
  | .directory .. => .directory
  | .vacant _ => .nothing
  | .nullDevice => .device

namespace FileStore

variable (store : FileStore)

/-- The greatest number of bytes in a name. -/
def longestName : Nat := 255

/-- The number of bytes that a whole path must not reach. -/
def longestPath : Nat := 4096

/-- The trail of the root. -/
def rootTrail : List String := ["/"]

/-- The trail of the null device. -/
def nullDeviceTrail : List String := ["null", "dev", "/"]

/-- Whether a trail leads to the top or to a directory above it. -/
def isAboveTop (trail : List String) : Bool :=
  trail.all (· == "..")

/-- Whether a directory stands under a trail without having been created. -/
def isGiven (trail : List String) : Bool :=
  isAboveTop trail || trail == rootTrail || trail == nullDeviceTrail.drop 1

/-- What a trail leads to, given what stands there. -/
def spotOf (trail : List String) : Option FileTree → Spot
  | some (.file text) => .file trail text
  | some (.directory entries) => .directory trail entries
  | none =>
    if trail == nullDeviceTrail then .nullDevice
    else if isGiven trail then .directory trail []
    else .vacant trail

/-- What a trail leads to, when all but its innermost name lead to a directory. -/
def spotAt (trail : List String) : Spot :=
  spotOf trail (store.tree.at? trail.reverse)

/-- The trail of the directory above another one; there is none above the root. -/
def trailAbove (trail : List String) : List String :=
  if trail == rootTrail then trail
  else if isAboveTop trail then ".." :: trail
  else trail.drop 1

/-- Follows one more name. -/
def follow (spot : Spot) (name : String) : Except FileFault Spot :=
  match spot with
  | .vacant _ => .error .missing
  | .directory trail entries =>
    if name == ".." then .ok (store.spotAt (trailAbove trail))
    else if longestName < name.utf8ByteSize then .error .nameTooLong
    else .ok (spotOf (name :: trail) (entries.lookup name))
  | _ => .error .notDirectory

/-- What a path leads to. -/
def locate (path : FilePath) : Except FileFault Spot :=
  if path.names.any (Text.hasChar '\x00') then .error .nullCharacter
  else if longestPath ≤ path.text.utf8ByteSize then .error .nameTooLong
  else path.names.foldlM store.follow (store.spotAt (if path.isAbsolute then rootTrail else []))

/-- The place that a path leads to; a path that cannot be followed to its end leads nowhere. -/
def look (path : FilePath) : Except FileFault Place :=
  match store.locate path with
  | .ok spot => .ok spot.place
  | .error .nameTooLong => .error .nameTooLong
  | .error _ => .ok .nothing

/-- The files below a directory. -/
def filesBelow (path : FilePath) : List FilePath :=
  match store.locate path with
  | .ok (.directory _ entries) =>
    -- The directories above the top and the root are reached through it, but do not lie below it.
    (FileTree.directory (entries.filter fun entry => entry.1 != ".." && entry.1 != "/")).files.map
      fun file => path.below ⟨"", file.1⟩
  | _ => []

def read (path : FilePath) : Except FileFault String := do
  match ← store.locate path with
  | .file _ text => return text
  | .directory .. => throw .isDirectory
  | .vacant _ => throw .missing
  | .nullDevice => return ""

/-- The store with a file or a directory at the end of a trail. -/
def put (trail : List String) (new : FileTree) : FileStore :=
  ⟨store.tree.put trail.reverse new⟩

/-- The store with a file changed, or created from the empty text. -/
def change (path : FilePath) (edit : String → String) : Except FileFault FileStore := do
  match ← store.locate path with
  | .file trail text => return store.put trail (.file (edit text))
  | .vacant trail => return store.put trail (.file (edit ""))
  | .directory .. => throw .isDirectory
  | .nullDevice => return store

/-- The store with one directory more. -/
def makeDirectory (path : FilePath) : Except FileFault FileStore := do
  match path.names.getLast? with
  | none => throw .occupied
  | some ".." =>
    -- Two points always name a directory that is there, if the way to them is.
    match ← store.locate path.parent with
    | .directory .. => throw .occupied
    | .vacant _ => throw .missing
    | _ => throw .notDirectory
  | some _ =>
    match ← store.locate path with
    | .vacant trail => return store.put trail (.directory [])
    | _ => throw .occupied

/-- A step that changes the store, or leaves it when it fails. -/
def updating (step : FileStore → Except FileFault FileStore) :
    StateM FileStore (Except FileFault Unit) := do
  match step (← get) with
  | .ok store => set store; return .ok ()
  | .error fault => return .error fault

/-- The operations on a store that is a state. -/
def access : FileAccess (StateM FileStore) where
  look path := do return (← get).look path
  filesBelow path := do return (← get).filesBelow path
  read path := do return (← get).read path
  makeDirectory path := updating fun store => store.makeDirectory path
  write path text := updating fun store => store.change path fun _ => text
  append path text := updating fun store => store.change path (· ++ text)

/-- The texts of all files, under the names that lead to them. -/
def files : List (List String × String) :=
  store.tree.files

/-- The store with the given texts, each under the names that lead to it. -/
def ofFiles (files : List (List String × String)) : FileStore :=
  files.foldl (fun store file => store.put file.1.reverse (.file file.2)) {}

example : ((writeText access (.ofText "a/../b/c") "x").run {}).2.files = [(["b", "c"], "x")] := by
  decide +kernel
example : ((writeText access (.ofText "c/d") "x").run (ofFiles [(["c"], "")])).1.toOption =
    none := by decide +kernel
example : ((ofFiles [(["b", "c"], "x")]).read (.ofText "b/../b/./c")).toOption = some "x" := by
  decide +kernel

end FileStore

end GoConventions
