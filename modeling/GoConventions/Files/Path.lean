import GoConventions.Text.Search

/-!
# Paths

A path is a list of names below a root, which is empty for a relative path.  Empty names and single
points say nothing and are left out, so a path has one written form; double points are kept, since
what they mean depends on the file system.

Paths are ordered by their names, one after the other, and not by their written form: what lies
below `a` comes before `a-b`.
-/

namespace GoConventions

structure FilePath where
  root : String
  names : List String
  deriving DecidableEq, Repr

namespace FilePath

/-- The path that a text denotes. -/
def ofText (s : String) : FilePath where
  root :=
    if Text.startsWith s "//" && !Text.startsWith s "///" then "//"
    else if Text.startsWith s "/" then "/"
    else ""
  names := (Text.splitAt '/' s).filter fun name => !name.isEmpty && name != "."

/-- The written form of a path. -/
def text (path : FilePath) : String :=
  if path.root.isEmpty && path.names.isEmpty then "."
  else path.root ++ "/".intercalate path.names

def isAbsolute (path : FilePath) : Bool :=
  !path.root.isEmpty

/-- A path as seen from a directory; an absolute path stays as it is. -/
def below (directory path : FilePath) : FilePath :=
  if path.isAbsolute then path else { directory with names := directory.names ++ path.names }

/-- The directory that a path lies in. -/
def parent (path : FilePath) : FilePath :=
  { path with names := path.names.dropLast }

/-- The last name of a path. -/
def name (path : FilePath) : String :=
  path.names.getLast?.getD ""

/-- The last name from its last point on; empty when the point is its first or last character. -/
def suffix (path : FilePath) : String :=
  let chars := path.name.toList
  let ending := chars.reverse.takeWhile (· != '.')
  if ending.isEmpty || chars.length ≤ ending.length + 1 then ""
  else String.ofList ('.' :: ending.reverse)

/-- Names are compared one after the other. -/
def compareNames : List String → List String → Ordering
  | [], [] => .eq
  | [], _ :: _ => .lt
  | _ :: _, [] => .gt
  | a :: as, b :: bs => (compare a b).then (compareNames as bs)

/-- The order of paths. -/
def order (p q : FilePath) : Ordering :=
  (compare p.root q.root).then (compareNames p.names q.names)

example : (ofText "./a//b/../c/").text = "a/b/../c" := by decide +kernel
example : (ofText "x.ast.json").suffix = ".json" ∧ (ofText ".json").suffix = "" := by
  decide +kernel
example : order (ofText "a/b") (ofText "a-b") = .lt := by decide +kernel

end FilePath

end GoConventions
