import Moo.Path
import Moo.Text.Quoted

/-!
# Disks and consoles

What the compiler needs from the world: a disk with files and directories,
a console with two streams. Both are given by a monad, so the compiler works
on a real disk as on one that is a value.

A disk may refuse an operation; it then leaves everything as it was.
-/
namespace Moo

/-- Why a disk refuses a path. -/
inductive PathFlaw
  | missing
  /-- Something else is there already. -/
  | taken
  /-- A name in front of the last one is no directory. -/
  | notADirectory
  | isADirectory
  /-- The path, or a name that is looked for on the way, is longer than the disk takes. -/
  | tooLong
  /-- The path holds the null character. -/
  | holdsNull
deriving DecidableEq

structure DiskError where
  flaw : PathFlaw
  path : Path

def PathFlaw.text : PathFlaw → String
  | missing => "[Errno 2] No such file or directory"
  | taken => "[Errno 17] File exists"
  | notADirectory => "[Errno 20] Not a directory"
  | isADirectory => "[Errno 21] Is a directory"
  | tooLong => "[Errno 36] File name too long"
  | holdsNull => "embedded null byte"

/-- A refusal in words. It names the path, unless the path is none at all. -/
def DiskError.message (error : DiskError) : String :=
  match error.flaw with
  | .holdsNull => error.flaw.text
  | flaw => flaw.text ++ ": " ++ quoted error.path.text

/-- Takes it that nothing is at a path that leads nowhere. Of a path that is too long nothing is
known. -/
def DiskError.asAbsent (error : DiskError) : Except DiskError Bool :=
  match error.flaw with
  | .tooLong => .error error
  | _ => .ok false

class Disk (m : Type → Type) where
  /-- Whether there is anything at a path. -/
  contains : Path → m (Except DiskError Bool)
  isDirectory : Path → m Bool
  read : Path → m (Except DiskError (List UInt8))
  /-- Creates one directory. -/
  makeDirectory : Path → m (Except DiskError Unit)
  /-- Writes a whole file, new or not. -/
  write : Path → String → m (Except DiskError Unit)

class Console (m : Type → Type) where
  print : String → m Unit
  /-- Writes to the stream for errors. -/
  warn : String → m Unit

namespace Disk

variable {m : Type → Type} [Monad m] [Disk m]

/-- Takes it that a refusal to create a directory is no harm if there is one. -/
def unlessDirectory (error : DiskError) : m (Except DiskError Unit) := do
  if ← isDirectory error.path then pure (.ok ()) else pure (.error error)

/-- Sees to it that there is a directory at a path, and creates those above it that are missing.
The names of the path come last one first. -/
def ensureDirectory (root : String) : (names : List String) → m (Except DiskError Unit)
  | [] => do
    match ← makeDirectory ⟨root, []⟩ with
    | .ok () => pure (.ok ())
    | .error ⟨.missing, path⟩ => pure (.error ⟨.missing, path⟩)
    | .error error => unlessDirectory error
  | name :: above => do
    let path : Path := ⟨root, (name :: above).reverse⟩
    match ← makeDirectory path with
    | .ok () => pure (.ok ())
    | .error ⟨.missing, _⟩ =>
      match ← ensureDirectory root above with
      | .error error => pure (.error error)
      | .ok () =>
        match ← makeDirectory path with
        | .ok () => pure (.ok ())
        | .error ⟨.missing, path⟩ => pure (.error ⟨.missing, path⟩)
        | .error error => unlessDirectory error
    | .error error => unlessDirectory error

/-- Sees to it that the directory of a path exists. -/
def ensureParent (path : Path) : m (Except DiskError Unit) :=
  ensureDirectory path.parent.root path.parent.names.reverse

end Disk

end Moo
