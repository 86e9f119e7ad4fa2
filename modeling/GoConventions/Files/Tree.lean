/-!
# Trees of files

What stands in a file system, as a value: a file with its text, or a directory with what stands
under each of its names.

A list of names leads from a tree to what stands there.  Nothing stands below a file; when something
is put there all the same, the file gives way to a directory.

## Main definitions

* `FileTree`, with `FileTree.at?` and `FileTree.put`: what stands under names, and putting it there.
* `FileTree.files`: all files with the names that lead to them.
-/

namespace GoConventions

inductive FileTree where
  | file (text : String)
  | directory (entries : List (String × FileTree))
  deriving Repr

namespace FileTree

/-- What stands under the names of a directory; a file has none. -/
def entries : FileTree → List (String × FileTree)
  | .file _ => []
  | .directory entries => entries

/-- What stands under a list of names. -/
def at? : FileTree → List String → Option FileTree
  | tree, [] => some tree
  | tree, name :: names => (tree.entries.lookup name).bind fun below => below.at? names

/-- Entries with a tree under a name, in the place of what stood there before. -/
def putEntry (name : String) (tree : FileTree) (entries : List (String × FileTree)) :
    List (String × FileTree) :=
  if entries.any (·.1 == name) then
    entries.map fun entry => if entry.1 == name then (name, tree) else entry
  else entries ++ [(name, tree)]

/-- A tree with another one under a list of names; the directories on the way are created. -/
def put : FileTree → List String → FileTree → FileTree
  | _, [], new => new
  | tree, name :: names, new =>
    .directory (putEntry name
      (((tree.entries.lookup name).getD (.directory [])).put names new) tree.entries)

mutual

/-- The texts of all files, under the names that lead to them. -/
def files : FileTree → List (List String × String)
  | .file text => [([], text)]
  | .directory entries => filesOfEntries entries

/-- The texts of all files among entries. -/
def filesOfEntries : List (String × FileTree) → List (List String × String)
  | [] => []
  | (name, tree) :: entries =>
    (tree.files.map fun file => (name :: file.1, file.2)) ++ filesOfEntries entries

end

example : ((directory []).put ["a", "b"] (.file "x")).files = [(["a", "b"], "x")] := by
  decide +kernel

theorem lookup_putEntry (name : String) (tree : FileTree) (entries : List (String × FileTree)) :
    (putEntry name tree entries).lookup name = some tree := by
  unfold putEntry
  split <;> rename_i h
  · induction entries with
    | nil => simp at h
    | cons entry entries ih =>
      obtain ⟨other, below⟩ := entry
      by_cases he : other = name
      · simp [he]
      · have hn : (name == other) = false := by simpa using Ne.symm he
        simpa [he, List.lookup_cons, hn] using ih (by simpa [he] using h)
  · induction entries with
    | nil => simp
    | cons entry entries ih =>
      obtain ⟨other, below⟩ := entry
      simp only [List.any_cons, Bool.or_eq_true, beq_iff_eq, not_or] at h
      have hn : (name == other) = false := by simpa using Ne.symm h.1
      simpa [List.lookup_cons, hn] using ih h.2

/-- What was put under names stands there. -/
theorem at?_put (tree : FileTree) (names : List String) (new : FileTree) :
    (tree.put names new).at? names = some new := by
  induction names generalizing tree with
  | nil => rfl
  | cons name names ih => simp [put, at?, entries, lookup_putEntry, ih]

end FileTree

end GoConventions
