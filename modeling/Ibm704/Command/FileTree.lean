import Ibm704.Command.Path
import Ibm704.Command.Shell

/-!
# File trees

A file tree has the files and directories that a command can reach.  Most lie in
the working directory; paths may also lead above it, or start at the root, where
some directories always stand and devices take the place of files.
-/

namespace Ibm704
namespace Command

/-!
# Places

A place is a directory and the names that lead down from it.  Directories above the
working directory have no names of their own here, so they are counted.
-/

inductive Start where
  | root
  | above (levels : Nat)
  deriving DecidableEq, Repr

structure Place where
  start : Start
  names : List Text
  deriving DecidableEq, Repr

namespace Place

def within (names : List Text) : Place :=
  ⟨.above 0, names⟩

def child (place : Place) (name : Text) : Place :=
  { place with names := place.names ++ [name] }

def parent (place : Place) : Place :=
  if place.names.isEmpty then
    match place.start with
    | .root => place
    | .above levels => ⟨.above (levels + 1), []⟩
  else
    { place with names := place.names.dropLast }

end Place

inductive Device where
  | nothing
  | input
  | output
  | errors
  deriving DecidableEq, Repr

namespace Device

def names : List (Text × Device) :=
  [(.ofString "null", nothing),
   (.ofString "stdin", input),
   (.ofString "stdout", output),
   (.ofString "stderr", errors)]

def at? (place : Place) : Option Device :=
  match place with
  | ⟨.root, [directory, name]⟩ =>
      if directory = .ofString "dev" then names.lookup name else none
  | _ => none

end Device

def rootDirectories : List Text :=
  ["bin", "boot", "dev", "etc", "home", "lib", "media", "mnt", "opt", "proc", "root", "run",
    "sbin", "srv", "sys", "tmp", "usr", "var"].map Text.ofString

/-!
# File trees

A tree holds files and directories, most of them in a working directory.  Some
directories stand whatever the tree holds, and devices take the place of files.
-/

structure FileTree where
  nodes : List (Place × Node)
  deriving DecidableEq, Repr

namespace FileTree

def empty : FileTree :=
  ⟨[]⟩

def isStanding (place : Place) : Bool :=
  match place with
  | ⟨_, []⟩ => true
  | ⟨.root, [name]⟩ => rootDirectories.contains name
  | _ => false

def node? (tree : FileTree) (place : Place) : Option Node :=
  if isStanding place then
    some .directory
  else if (Device.at? place).isSome then
    some (.file [])
  else
    tree.nodes.lookup place

def insert (tree : FileTree) (place : Place) (node : Node) : FileTree :=
  ⟨(place, node) :: tree.nodes.filter fun entry => entry.1 != place⟩

def longestName : Nat := 255

def longestPath : Nat := 4095

/-- Follows names from a directory on.  Only the last may lead to nothing. -/
def follow (tree : FileTree) (place : Place) : List Text → Except FileError Place
  | [] => .ok place
  | name :: rest =>
      match tree.node? place with
      | none => .error .notFound
      | some (.file _) => .error .notDirectory
      | some .directory =>
          if name.isEmpty ∨ name = [Path.dot] then
            tree.follow place rest
          else if name = [Path.dot, Path.dot] then
            tree.follow place.parent rest
          else if longestName < name.length then
            .error .nameTooLong
          else
            tree.follow (place.child name) rest

def locate (tree : FileTree) (path : Text) : Except FileError Place :=
  if path.isEmpty then
    .error .notFound
  else if longestPath < path.length then
    .error .nameTooLong
  else if path.head? = some Path.slash then
    tree.follow ⟨.root, []⟩ (Path.elements path)
  else
    tree.follow (.within []) (Path.elements path)

def openFile (tree : FileTree) (path : Text) : Except FileError Node := do
  match tree.node? (← tree.locate path) with
  | some node => return node
  | none => throw .notFound

/-- The place at which a file can be written: it may hold a file, and its directory must exist.  A
path with a slash at its end is that of a directory. -/
def writable (tree : FileTree) (path : Text) : Except FileError Place := do
  let place ← tree.locate (Path.withoutSlashes path)
  if path.getLast? = some Path.slash ∨ tree.node? place = some .directory then
    throw .isDirectory
  else
    return place

def names (tree : FileTree) : List Text :=
  tree.nodes.filterMap fun entry =>
    match entry.1 with
    | ⟨.above 0, [name]⟩ => some name
    | _ => none

end FileTree

end Command
end Ibm704
