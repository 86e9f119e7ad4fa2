import GoConventions.CommandLine.Program
import Std.Time.Zoned

/-!
# The command line

The program on its real host, which is the operating system with its files and its clock, and the
entry point, which prints what a run has written and ends with its exit code.
-/

namespace GoConventions

/-- Whether a path of the operating system is a directory, and whether it is there at all. -/
def placeOf (path : String) : IO (Option Bool) := do
  try
    let place ← IO.FS.realPath path
    if ← place.pathExists then return some (← place.isDir) else return none
  catch _ => return none

/-- The files below a directory. -/
partial def listBelow (path : FilePath) : IO (List FilePath) := do
  let names : List String ←
    try
      let entries ← (← IO.FS.realPath path.text).readDir
      pure (entries.toList.map fun entry => entry.fileName)
    catch _ => pure []
  let below ← names.mapM fun name => do
    let inner := path.below ⟨"", [name]⟩
    match ← placeOf inner.text with
    | some true => listBelow inner
    | some false => return [inner]
    | none => return []
  return below.flatten

/-- Runs an action on a file; a directory in its way is told apart from other failures. -/
def attempt {α : Type} (path : String) (action : IO α) :
    IO (Except FileFault α) := do
  try return .ok (← action)
  catch fault =>
    return .error (if (← placeOf path) == some true then .isDirectory else .other (toString fault))

/-- Creates one directory. -/
def createDirectory (path : FilePath) : IO (Except FileFault Unit) := do
  if (← placeOf path.text).isSome then return .error .occupied
  if (← placeOf path.parent.text).isNone then return .error .missing
  attempt path.text (IO.FS.createDir path.text)

/-- Writes at the end of a file. -/
def appendText (path : FilePath) (text : String) : IO Unit := do
  let file ← IO.FS.Handle.mk path.text .append
  file.putStr text

/-- A number with at least the given number of digits. -/
def padded (width : Nat) (n : Int) : String :=
  let digits := toString n
  String.ofList (List.replicate (width - digits.length) '0') ++ digits

/-- The present time: day, time of day and milliseconds. -/
def presentTime : IO String := do
  let now ← Std.Time.PlainDateTime.now
  let day := "-".intercalate
    [padded 4 now.year, padded 2 now.month.val, padded 2 now.day.val]
  let clock := ":".intercalate
    [padded 2 now.hour.val, padded 2 now.minute.val, padded 2 now.second.val]
  return day ++ " " ++ clock ++ "," ++ padded 3 (now.nanosecond.val / 1000000)

/-- The operating system. -/
def systemHost : Host IO where
  look path := do
    match ← placeOf path.text with
    | none => return .ok .nothing
    | some true => return .ok .directory
    | some false => return .ok .file
  filesBelow path := do
    if (← placeOf path.text) == some true then listBelow path else return []
  read path := do
    if (← placeOf path.text).isNone then return .error .missing
    attempt path.text (IO.FS.readFile path.text)
  makeDirectory := createDirectory
  write path text := attempt path.text (IO.FS.writeFile path.text text)
  append path text := attempt path.text (appendText path text)
  time := presentTime

end GoConventions

open GoConventions in
/-- Runs the program with the given arguments. -/
def main (arguments : List String) : IO UInt32 := do
  let (ending, console) ← execute systemHost arguments
  IO.eprint console.diagnostics
  IO.print console.output
  match ending with
  | .ok code => return code.toUInt32
  | .error stop =>
    match stop, stop.message? with
    | .fault _, none => IO.eprintln (programName ++ ": internal error")
    | _, _ => pure ()
    return stop.exitCode.toUInt32
