import Ibm704.Command.Assemble
import Ibm704.Command.Disassemble

/-!
# The program

One program with two commands, chosen by the first argument: `assemble` and
`disassemble`.
-/

namespace Ibm704
namespace Command

def fileErrorOf : IO.Error → FileError
  | .noFileOrDirectory .. => .notFound
  | .inappropriateType _ _ details =>
      if details.toLower == "not a directory" then .notDirectory else .isDirectory
  | error => .other (.ofString (toString error))

def systemName (path : Text) : String :=
  String.ofList path.chars

def systemShell : Shell IO where
  openFile path := do
    try
      let content ← IO.FS.readBinFile (systemName path)
      return .ok (.file content.data.toList)
    catch error =>
      return match fileErrorOf error with
        | .isDirectory => .ok .directory
        | other => .error other
  createFile path content := do
    try
      IO.FS.writeBinFile (systemName path) ⟨content.toArray⟩
      return .ok ()
    catch error =>
      return .error (fileErrorOf error)
  readInput := do
    let content ← (← IO.getStdin).readBinToEnd
    return content.data.toList
  print text := do
    (← IO.getStdout).write ⟨text.toArray⟩
  printError text := do
    (← IO.getStderr).write ⟨text.toArray⟩

end Command
end Ibm704

def main (arguments : List String) : IO UInt32 := do
  match arguments with
  | "assemble" :: rest =>
      let status ← Ibm704.Command.Assemble.run Ibm704.Command.systemShell
        (rest.map Ibm704.Text.ofString)
      return status.toUInt32
  | "disassemble" :: rest =>
      let status ← Ibm704.Command.Disassemble.run Ibm704.Command.systemShell
        (rest.map Ibm704.Text.ofString)
      return status.toUInt32
  | _ =>
      IO.eprintln "usage: assemble [flags] [filename] | disassemble [flags] filename"
      return 2
