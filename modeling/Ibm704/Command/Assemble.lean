import Ibm704.Command.Flags
import Ibm704.Command.Path
import Ibm704.Command.Shell
import Ibm704.Listing
import Ibm704.Outline
import Ibm704.SymbolFile.Write

/-!
# The assembling command

Reads a source, logs what is wrong with it, writes a listing and an outline if
they are asked for, and writes the image, unless there were errors, and the
symbols beside it if they are asked for.
-/

namespace Ibm704
namespace Command
namespace Assemble

def flags : List Flag :=
  [⟨.ofString "debug", none, true⟩,
   ⟨.ofString "dump", none, true⟩,
   ⟨.ofString "out", some 0x6F, false⟩,
   ⟨.ofString "listing", some 0x6C, false⟩,
   ⟨.ofString "origin", none, false⟩]

/-!
# Origin

The origin is written in octal digits and must be a location of core.
-/

inductive OriginError where
  | syntaxError
  | outOfRange
  deriving DecidableEq, Repr

def originFrom (value : Nat) : Text → Except OriginError Nat
  | [] => .ok value
  | byte :: rest =>
      if 0x30 ≤ byte.toNat ∧ byte.toNat ≤ 0x37 then
        let next := value * 8 + (byte.toNat - 0x30)
        if next < coreSize then originFrom next rest else .error .outOfRange
      else
        .error .syntaxError

def readOrigin (text : Text) : Except OriginError Nat :=
  if text.isEmpty then .error .syntaxError else originFrom 0 text

def originMessage (text : Text) (error : OriginError) : Text :=
  .ofString "invalid origin " ++ text.quoted ++ .ofString ": strconv.ParseUint: parsing " ++
    text.quoted ++ .ofString ": " ++
    match error with
    | .syntaxError => .ofString "invalid syntax"
    | .outOfRange => .ofString "value out of range"

/-!
# Input

A source has its text, the name by which messages call it, and the name of its image.
-/

structure Input where
  source : Text
  tag : Text
  image : Text

variable {m : Type → Type} [Monad m]

def readSource (shell : Shell m) (positional : List Text) : ExceptT Text m Input := do
  match positional with
  | [] => return ⟨← shell.readInput, .ofString "<stdin>: ", .ofString "out.bin"⟩
  | path :: _ =>
      let name := Path.base path
      match ← shell.openFile path with
      | .error error => throw (openMessage path error)
      | .ok .directory => throw (name ++ .ofString " is not a valid 704 assembly file")
      | .ok (.file source) =>
          return ⟨source, name ++ .ofString ": ",
            Path.dropEnding (Path.extension name) name ++ .ofString ".bin"⟩

/-!
# Output

Each report is logged with its card and a mark below its column.  Results go to the
files that were asked for, and a dash stands for standard output.
-/

def reportEntry (st : Statement) (report : Report) : Text :=
  report.toText ++ .ofString "\n" ++ st.card.text ++ .ofString "\n" ++
    Text.blanks (report.position.column - 1) ++ .ofString "^"

def reportEntries (asm : Assembler) : List Text :=
  let entries := asm.statements.flatMap fun st => st.reports.map (reportEntry st)
  if entries.isEmpty then
    []
  else
    entries ++ [Text.decimal asm.errorCount ++ .ofString " errors, " ++
      Text.decimal asm.warningCount ++ .ofString " warnings"]

def outline (asm : Assembler) : Text :=
  Outline.render (Outline.symbols asm.symbols) ++ Outline.render (Outline.segments asm.segments)

def writeFile (shell : Shell m) (what : String) (path content : Text) : ExceptT Text m Unit := do
  match ← shell.createFile path content with
  | .ok () => return
  | .error error =>
      throw (.ofString "error writing " ++ .ofString what ++ .ofString ": " ++
        openMessage path error)

def writeListing (shell : Shell m) (path : Text) (asm : Assembler) : ExceptT Text m Unit :=
  if path.isEmpty then
    return
  else if path = [dash] then
    ExceptT.lift (shell.print asm.listing)
  else
    writeFile shell "listing" path asm.listing

def writeResults (shell : Shell m) (given : Given) (imagePath : Text) (asm : Assembler) :
    ExceptT Text m Bool := do
  writeListing shell (given.value "listing" "") asm
  if given.isOn "dump" then
    ExceptT.lift (shell.print (outline asm))
  if 0 < asm.errorCount then
    return false
  else
    match Image.write asm.segments with
    | .ok bytes => writeFile shell "output file" imagePath bytes
    | .error error => throw (.ofString "error writing output file: " ++ error.message)
    if given.isOn "debug" then
      writeFile shell "symbol table" (Path.beside imagePath ".sym704")
        (SymbolFile.write asm.symbols)
    return true

/-!
# The command

Flags and origin are checked before the source is read.  The result of a run is its
exit status.
-/

def prepare (arguments : List Text) : Except Text (Given × Nat) := do
  let given ← (parseArguments flags arguments).mapError FlagError.message
  let count := given.positional.length
  if 1 < count then
    throw (.ofString "accepts at most 1 arg(s), received " ++ Text.decimal count)
  let text := given.value "origin" "0"
  let origin ← (readOrigin text).mapError (originMessage text)
  return (given, origin)

def process (shell : Shell m) (given : Given) (origin : Nat) (input : Input) :
    ExceptT Text m Bool := do
  match assembleSource ⟨.ofNat origin, .absolute⟩ input.source with
  | .error error => throw error.message
  | .ok asm =>
      for entry in reportEntries asm do
        ExceptT.lift (shell.log input.tag entry)
      let out := given.value "out" ""
      writeResults shell given (if out.isEmpty then input.image else out) asm

def run (shell : Shell m) (arguments : List Text) : m Nat := do
  match prepare arguments with
  | .error message =>
      shell.log [] message
      return 1
  | .ok (given, origin) =>
      match ← (readSource shell given.positional).run with
      | .error message =>
          shell.log [] message
          return 1
      | .ok input =>
          match ← (process shell given origin input).run with
          | .ok true => return 0
          | .ok false => return 1
          | .error message =>
              shell.log input.tag message
              return 1

end Assemble
end Command
end Ibm704
