/-!
# Paths

A path is a root, which a relative path does not have, and names. Steps to
the same directory and empty names are left out of it; a step to the parent
is a name like any other, for what it leads to depends on the disk.
-/
namespace Moo

structure Path where
  root : String
  names : List String
deriving DecidableEq

namespace Path

/-- Splits a text at every slash. -/
def splitSlashes : List Char → List (List Char)
  | [] => [[]]
  | c :: text =>
    match splitSlashes text with
    | [] => [[c]]
    | first :: others => if c = '/' then [] :: first :: others else (c :: first) :: others

/-- The root that a path is written with. Two slashes are a root of their own, more count as one. -/
def rootOf : List Char → String
  | '/' :: '/' :: '/' :: _ => "/"
  | '/' :: '/' :: _ => "//"
  | '/' :: _ => "/"
  | _ => ""

def ofString (text : String) : Path :=
  let names := (splitSlashes text.toList).filter fun name => name ≠ [] && name ≠ ['.']
  ⟨rootOf text.toList, names.map String.ofList⟩

/-- A path as it is written; the working directory is a dot. -/
def text (path : Path) : String :=
  if path.root.isEmpty && path.names.isEmpty then "."
  else path.root ++ "/".intercalate path.names

/-- The path without its last name. -/
def parent (path : Path) : Path :=
  { path with names := path.names.dropLast }

/-- Whether a path holds the null character, which no disk takes in a name. -/
def holdsNull (path : Path) : Bool :=
  path.text.toList.contains '\x00'

end Path

end Moo
