/-!
# File trees

A tree of files and directories below a top directory, and the paths that lead through
it. A location is the list of names from the top directory down. Above the top directory
there are only directories, up to the root of all paths, and nothing else in them is
known.

The entries are those that a test for existence sees. A link is the entry that it leads to.
What such a test cannot reach is not there: a link that leads nowhere, or an entry in a
directory that may not be searched.
-/

namespace DitaTopic.Config

/-- What is at a location, links followed. -/
inductive FileEntry where
  | file (bytes : ByteArray)
  /-- A file that is seen to be there but may not be read. -/
  | locked
  | directory

/-- Files and directories by location, the later of two at the same place counting. The
directories on the way to them are there as well. -/
structure FileTree where
  entries : List (List String × FileEntry)

/-- The parts of a path, between its slashes. -/
def pathParts (path : String) : List String := path.splitOn "/"

/-- The location that a path from the top directory names, whether or not there is anything. -/
def locate (path : String) : List String :=
  (pathParts path).foldl (fun location part =>
    if part = "" ∨ part = "." then location
    else if part = ".." then location.dropLast
    else location ++ [part]) []

namespace FileTree

/-- The tree with files and directories at the places that paths from the top directory name. -/
def ofPaths (entries : List (String × FileEntry)) : FileTree :=
  ⟨entries.map fun e => (locate e.1, e.2)⟩

/-- The entry that is seen at a location, and none where a test for existence fails. -/
def find? (tree : FileTree) (location : List String) : Option FileEntry :=
  match tree.entries.reverse.find? fun e => e.1 == location with
  | some e => some e.2
  | none =>
    if location.isEmpty || tree.entries.any fun e => location.isPrefixOf e.1 then some .directory
    else none

/-- Whether there is a directory at a location. -/
def isDirectory (tree : FileTree) (location : List String) : Bool :=
  match tree.find? location with
  | some .directory => true
  | _ => false

end FileTree

/-- A place that a path can lead to: inside the tree, some levels above its top, or the root. -/
inductive Place where
  | inside (location : List String)
  /-- A directory `levels + 1` levels above the top. -/
  | above (levels : Nat)
  /-- The directory that paths with a slash at the start go out from. -/
  | root
  deriving Repr, DecidableEq

namespace Place

def entry? (tree : FileTree) : Place → Option FileEntry
  | inside location => tree.find? location
  | above _ => some .directory
  | root => some .directory

/-- The place one level up. Above the root there is nothing but the root. -/
def parent : Place → Place
  | inside [] => above 0
  | inside location => inside location.dropLast
  | above levels => above (levels + 1)
  | root => root

/-- The place that one part of a path leads to from a directory. -/
def step? (tree : FileTree) (place : Place) (part : String) : Option Place :=
  match place.entry? tree with
  | some .directory =>
    if part = "" ∨ part = "." then some place
    else if part = ".." then some place.parent
    else
      match place with
      | inside location =>
        let next := location ++ [part]
        (tree.find? next).map fun _ => inside next
      | above _ => none
      | root => none
  | _ => none

end Place

def pathLimit : Nat := 4095

/-- The place that a path leads to from a directory. A path that starts with a slash goes out from
the root. An empty path leads nowhere, and so does one that is too long. -/
def resolvePath? (tree : FileTree) (directory : Place) (path : String) : Option Place :=
  if path.isEmpty ∨ pathLimit < path.utf8ByteSize then none
  else
    (pathParts path).foldlM (Place.step? tree) (if path.startsWith "/" then .root else directory)

end DitaTopic.Config
