import Ibm704.Text.Glyph

/-!
# What commands need from outside

A command reads files and standard input, writes files and standard output, and
logs messages.  It is written for any monad that offers these, so it can be run
on real files and on a file tree that is a value.
-/

namespace Ibm704
namespace Command

inductive FileError where
  | notFound
  | notDirectory
  | isDirectory
  | nameTooLong
  | other (message : Text)
  deriving DecidableEq, Repr

namespace FileError

def message : FileError → Text
  | notFound => .ofString "no such file or directory"
  | notDirectory => .ofString "not a directory"
  | isDirectory => .ofString "is a directory"
  | nameTooLong => .ofString "file name too long"
  | other message => message

end FileError

inductive Node where
  | file (content : Text)
  | directory
  deriving DecidableEq, Repr

structure Shell (m : Type → Type) where
  openFile : Text → m (Except FileError Node)
  createFile : Text → Text → m (Except FileError Unit)
  readInput : m Text
  print : Text → m Unit
  printError : Text → m Unit

namespace Shell

def log {m : Type → Type} (shell : Shell m) (tag entry : Text) : m Unit :=
  shell.printError (tag ++ entry ++ .ofString "\n")

end Shell

def openMessage (path : Text) (error : FileError) : Text :=
  .ofString "open " ++ path ++ .ofString ": " ++ error.message

def readMessage (path : Text) : Text :=
  .ofString "read " ++ path ++ .ofString ": " ++ FileError.isDirectory.message

end Command
end Ibm704
