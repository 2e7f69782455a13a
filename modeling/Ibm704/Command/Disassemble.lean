import Ibm704.Command.Flags
import Ibm704.Command.Path
import Ibm704.Command.Shell
import Ibm704.Instruction
import Ibm704.Outline
import Ibm704.SymbolFile.Read

/-!
# The disassembling command

Loads an image into core and prints every loaded word as an instruction, with
the symbol of its location if the symbols of the image are at hand.
-/

namespace Ibm704
namespace Command
namespace Disassemble

def flags : List Flag :=
  [⟨.ofString "symbols", some 0x73, false⟩,
   ⟨.ofString "dump", none, true⟩]

def tag : Text :=
  .ofString "dis704: "

def width : Nat := 80

/-!
# Labels

A location is labelled with the first symbol that has it for a value.
-/

abbrev Labels := Std.TreeMap Nat Text

def labels (table : SymbolTable) : Labels :=
  table.entries.foldl (fun labels entry =>
    if entry.2.negative then labels else labels.insertIfNew entry.2.magnitude entry.1) ∅

variable {m : Type → Type} [Monad m]

/-- The symbols of an image.  Without a symbol file there are none; one that cannot be read is
logged. -/
def readSymbols (shell : Shell m) (path : Text) : m SymbolTable := do
  match ← shell.openFile path with
  | .error _ => return .empty
  | .ok node =>
      let result := match node with
        | .file content => (SymbolFile.read content).mapError SymbolFile.Error.message
        | .directory => .error (readMessage path)
      match result with
      | .ok table => return table
      | .error message =>
          shell.log tag (.ofString "Error loading symbol file")
          shell.log tag message
          return .empty

/-! # Output -/

def line (labels : Labels) (core : Core) (location : Nat) : Text :=
  let address := Address.ofNat location
  let text := Text.padRight 6 (labels.getD location []) ++ .ofString "  " ++
    Instruction.dumpLine address (core.read address)
  text.take width ++ .ofString "\n"

def listing (labels : Labels) (core : Core) : Text :=
  (core.regions.flatMap fun region =>
    (List.range (region.last - region.first)).flatMap fun i =>
      line labels core (region.first + i)) ++
    match core.transfer with
    | some address => Text.blanks 6 ++ .ofString "  END  " ++ address.toText ++ .ofString "\n"
    | none => []

def outline (core : Core) : Text :=
  Outline.render (Outline.regions core.regions) ++
    match core.transfer with
    | some address => Text.decimal address.val ++ .ofString "\n"
    | none => []

/-!
# The command

An image is loaded into an empty core, and the words that it wrote are listed.  A
symbol file that cannot be read is no failure.
-/

def prepare (arguments : List Text) : Except Text (Given × Text) := do
  let given ← (parseArguments flags arguments).mapError FlagError.message
  match given.positional with
  | [path] => return (given, path)
  | positional =>
      throw (.ofString "accepts 1 arg(s), received " ++ Text.decimal positional.length)

def loadCore (shell : Shell m) (path : Text) : ExceptT Text m Core := do
  match ← shell.openFile path with
  | .error error => throw (openMessage path error)
  | .ok .directory => throw (readMessage path)
  | .ok (.file content) =>
      match Core.loadImage content with
      | (core, none) => return core
      | (_, some error) => throw error.message

def process (shell : Shell m) (given : Given) (path : Text) : ExceptT Text m Unit := do
  let core ← loadCore shell path
  if given.isOn "dump" then
    ExceptT.lift (shell.print (outline core))
  let symbols := given.value "symbols" ""
  let symbolPath := if symbols.isEmpty then Path.beside path ".sym704" else symbols
  let table ← ExceptT.lift (readSymbols shell symbolPath)
  ExceptT.lift (shell.print (listing (labels table) core))

def run (shell : Shell m) (arguments : List Text) : m Nat := do
  let outcome ← match prepare arguments with
    | .error message => pure (.error message)
    | .ok (given, path) => (process shell given path).run
  match outcome with
  | .ok () => return 0
  | .error message =>
      shell.log tag message
      return 1

end Disassemble
end Command
end Ibm704
