import Ibm704.Command.FileTree

/-!
# Running commands on a file tree

A world is a file tree with standard input, and with what was written to standard
output and to the log so far.  Commands run in it as state changes.
-/

namespace Ibm704
namespace Command

structure World where
  files : FileTree
  input : Text
  output : Text
  errors : Text
  deriving DecidableEq, Repr

namespace World

def print (world : World) (text : Text) : World :=
  { world with output := world.output ++ text }

def printError (world : World) (text : Text) : World :=
  { world with errors := world.errors ++ text }

def openFile (world : World) (path : Text) : Except FileError Node := do
  match Device.at? (← world.files.locate path) with
  | some .input => return .file world.input
  | some _ => return .file []
  | none => world.files.openFile path

def createFile (world : World) (path content : Text) : Except FileError World := do
  let place ← world.files.writable path
  match Device.at? place with
  | some .output => return world.print content
  | some .errors => return world.printError content
  | some _ => return world
  | none => return { world with files := world.files.insert place (.file content) }

def shell : Shell (StateM World) where
  openFile path := return (← get).openFile path
  createFile path content := do
    match (← get).createFile path content with
    | .ok world => do
        set world
        return .ok ()
    | .error error => return .error error
  readInput := return (← get).input
  print text := modify fun world => world.print text
  printError text := modify fun world => world.printError text

end World

end Command
end Ibm704
