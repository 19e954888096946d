import Moo.CommandLine

/-!
# The program

The command line on the real disk and console.
-/
namespace Moo

/-- Only a directory has itself as an entry. -/
def isRealDirectory (path : Path) : IO Bool := do
  try
    discard (IO.FS.Handle.mk (path.text ++ "/.") .read)
    pure true
  catch _ => pure false

/-- Does something on the disk at a path. Refusals that are none of a path's flaws stay exceptions. -/
def onDisk {α : Type} (path : Path) (action : IO α) : IO (Except DiskError α) := do
  if path.holdsNull then pure (.error ⟨.holdsNull, path⟩)
  else
    try
      let result ← action
      pure (.ok result)
    catch
      | .noFileOrDirectory .. => pure (.error ⟨.missing, path⟩)
      | .alreadyExists .. => pure (.error ⟨.taken, path⟩)
      | .inappropriateType .. => do
        let flaw := if ← isRealDirectory path then PathFlaw.isADirectory else .notADirectory
        pure (.error ⟨flaw, path⟩)
      | .invalidArgument _ 36 _ => pure (.error ⟨.tooLong, path⟩)
      | error => throw error

/-- Whether a path leads to something, even to what may not be opened. -/
def canFind (path : Path) : IO (Except DiskError Bool) := do
  try
    match ← onDisk path (IO.FS.Handle.mk path.text .read) with
    | .ok _ => pure (.ok true)
    | .error error => pure error.asAbsent
  catch _ => pure (.ok true)

instance : Disk IO where
  contains path := canFind path
  isDirectory path := isRealDirectory path
  read path := onDisk path do pure (← IO.FS.readBinFile path.text).toList
  makeDirectory path := onDisk path (IO.FS.createDir path.text)
  write path text := onDisk path (IO.FS.writeFile path.text text)

instance : Console IO where
  print text := do
    (← IO.getStdout).putStr text
    (← IO.getStdout).flush
  warn text := do (← IO.getStderr).putStr text

end Moo

def main (args : List String) : IO UInt32 := do
  match ← (Moo.runArgs args : ExceptT Moo.Failure IO Nat).run with
  | .ok code => pure code.toUInt32
  | .error failure =>
    (← IO.getStderr).putStr (failure.message ++ "\n")
    pure 1
