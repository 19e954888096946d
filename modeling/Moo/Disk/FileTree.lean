import Moo.Disk

/-!
# File trees

A disk that is a value: the files and directories that differ from an empty
working directory, inside it and elsewhere. The directories above the
working directory exist, and so does the root of absolute paths; nothing
else is known to be in them.
-/
namespace Moo

/-- Where the way to a place on a disk starts. -/
inductive Anchor
  /-- So many steps above the working directory. -/
  | above (steps : Nat)
  | root
deriving DecidableEq

/-- A place on a disk, by the names that lead there from an anchor, last one first. -/
structure Location where
  anchor : Anchor
  names : List String
deriving DecidableEq

namespace Location

/-- Where a relative path starts, or an absolute one. -/
def start (path : Path) : Location :=
  ⟨if path.root.isEmpty then .above 0 else .root, []⟩

/-- One name further. -/
def step (location : Location) (name : String) : Location :=
  if name ≠ ".." then { location with names := name :: location.names }
  else
    match location with
    | ⟨anchor, _ :: names⟩ => ⟨anchor, names⟩
    | ⟨.above steps, []⟩ => ⟨.above (steps + 1), []⟩
    | ⟨.root, []⟩ => ⟨.root, []⟩

end Location

/-- What is at a place. -/
inductive FileEntry
  | file (bytes : List UInt8)
  | directory (entries : List (String × FileEntry))

/-- Gives a key a value, in place of the one it had. -/
def assign {κ ν : Type} [DecidableEq κ] (key : κ) (value : ν) : List (κ × ν) → List (κ × ν)
  | [] => [(key, value)]
  | (other, old) :: pairs =>
    if other = key then (key, value) :: pairs else (other, old) :: assign key value pairs

namespace FileEntry

/-- The entries of a directory; nothing else has any. -/
def entries : FileEntry → List (String × FileEntry)
  | directory entries => entries
  | file _ => []

/-- What names lead to from here, downwards only. -/
def find? (entry : FileEntry) : List String → Option FileEntry
  | [] => some entry
  | name :: names => (entry.entries.lookup name).bind (·.find? names)

/-- Changes what names lead to. Directories that are missing on the way are added. -/
def update (change : Option FileEntry → FileEntry) : List String → Option FileEntry → FileEntry
  | [], entry => change entry
  | name :: names, entry =>
    let entries := (entry.map FileEntry.entries).getD []
    .directory (assign name (update change names (entries.lookup name)) entries)

mutual

/-- The files here and below, by the names that lead to them. The names that lead here come
last one first. -/
def files (names : List String) : FileEntry → List (List String × List UInt8)
  | file bytes => [(names.reverse, bytes)]
  | directory entries => filesIn names entries

def filesIn (names : List String) : List (String × FileEntry) → List (List String × List UInt8)
  | [] => []
  | (name, entry) :: entries => entry.files (name :: names) ++ filesIn names entries

end

end FileEntry

/-- What is known to be below each anchor. -/
structure FileTree where
  anchored : List (Anchor × FileEntry)

namespace FileTree

/-- How many octets a name may have. -/
def nameLimit : Nat := 255

/-- How many octets a whole path may have. -/
def pathLimit : Nat := 4095

def empty : FileTree := ⟨[]⟩

/-- The directory at an anchor. -/
def top (tree : FileTree) (anchor : Anchor) : FileEntry :=
  (tree.anchored.lookup anchor).getD (.directory [])

def find? (tree : FileTree) (location : Location) : Option FileEntry :=
  (tree.top location.anchor).find? location.names.reverse

/-- Changes what is at a location. -/
def update (tree : FileTree) (location : Location) (change : Option FileEntry → FileEntry) :
    FileTree :=
  let top := FileEntry.update change location.names.reverse (some (tree.top location.anchor))
  ⟨assign location.anchor top tree.anchored⟩

/-- Where names lead from a location, and what is there. Each name but the last has to lead to a
directory, and a name is looked for only in a directory. -/
def walk (tree : FileTree) (location : Location) (here : Option FileEntry) :
    List String → Except PathFlaw (Location × Option FileEntry)
  | [] => .ok (location, here)
  | name :: names =>
    match here with
    | some (.directory entries) =>
      if nameLimit < name.utf8ByteSize then .error .tooLong
      else
        let next := location.step name
        tree.walk next (if name = ".." then tree.find? next else entries.lookup name) names
    | some (.file _) => .error .notADirectory
    | none => .error .missing

/-- Why a path is refused before it is followed. -/
def refusal? (path : Path) : Option PathFlaw :=
  if path.holdsNull then some .holdsNull
  else if pathLimit < path.text.utf8ByteSize then some .tooLong
  else none

/-- Where a path leads, and what is there. -/
def locate (tree : FileTree) (path : Path) : Except DiskError (Location × Option FileEntry) :=
  let start := Location.start path
  match refusal? path with
  | some flaw => .error ⟨flaw, path⟩
  | none =>
    match tree.walk start (tree.find? start) path.names with
    | .ok place => .ok place
    | .error flaw => .error ⟨flaw, path⟩

def contains (tree : FileTree) (path : Path) : Except DiskError Bool :=
  match tree.locate path with
  | .ok (_, entry) => .ok entry.isSome
  | .error error => error.asAbsent

def isDirectory (tree : FileTree) (path : Path) : Bool :=
  match tree.locate path with
  | .ok (_, some (.directory _)) => true
  | _ => false

def read (tree : FileTree) (path : Path) : Except DiskError (List UInt8) := do
  match ← tree.locate path with
  | (_, some (.file bytes)) => .ok bytes
  | (_, some (.directory _)) => .error ⟨.isADirectory, path⟩
  | (_, none) => .error ⟨.missing, path⟩

def makeDirectory (tree : FileTree) (path : Path) : Except DiskError FileTree := do
  match ← tree.locate path with
  | (location, none) => .ok (tree.update location fun _ => .directory [])
  | (_, some _) => .error ⟨.taken, path⟩

def write (tree : FileTree) (path : Path) (text : String) : Except DiskError FileTree := do
  match ← tree.locate path with
  | (_, some (.directory _)) => .error ⟨.isADirectory, path⟩
  | (location, _) => .ok (tree.update location fun _ => .file text.toUTF8.toList)

/-! ## Setting up -/

/-- Where a path below the working directory leads, if nothing is known of the disk. -/
def below (path : Path) : Location :=
  ⟨.above 0, path.names.reverse⟩

/-- A tree with one file more in the working directory or below. -/
def plantFile (tree : FileTree) (path : Path) (bytes : List UInt8) : FileTree :=
  tree.update (below path) fun _ => .file bytes

/-- A tree with a directory more in the working directory or below, unless it is there. -/
def plantDirectory (tree : FileTree) (path : Path) : FileTree :=
  tree.update (below path) fun entry => .directory ((entry.map FileEntry.entries).getD [])

/-- The files in the working directory and below, by their paths. -/
def files (tree : FileTree) : List (String × List UInt8) :=
  ((tree.top (.above 0)).files []).map fun (names, bytes) => ("/".intercalate names, bytes)

end FileTree

/-- A disk that is a value, and what was written to the console. -/
structure World where
  disk : FileTree
  printed : String
  warned : String

namespace World

/-- Carries out a change of the disk, unless it is refused. -/
def change (f : FileTree → Except DiskError FileTree) : StateM World (Except DiskError Unit) :=
  fun world =>
    match f world.disk with
    | .ok disk => (.ok (), { world with disk })
    | .error error => (.error error, world)

instance : Disk (StateM World) where
  contains path := do pure ((← get).disk.contains path)
  isDirectory path := do pure ((← get).disk.isDirectory path)
  read path := do pure ((← get).disk.read path)
  makeDirectory path := change (·.makeDirectory path)
  write path text := change (·.write path text)

instance : Console (StateM World) where
  print text := modify fun world => { world with printed := world.printed ++ text }
  warn text := modify fun world => { world with warned := world.warned ++ text }

end World

end Moo
