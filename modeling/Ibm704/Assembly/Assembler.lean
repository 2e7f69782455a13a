import Ibm704.Assembly.FirstPass
import Ibm704.Assembly.SecondPass

/-!
# The assembler

An assembler takes cards, one at a time or all at once, and is then finished.
Assembling a source is the whole of it.
-/

namespace Ibm704

structure Options where
  location : Address
  format : Format
  deriving DecidableEq, Repr

structure Assembler where
  first : FirstPass
  words : WordMap
  statements : List Statement

namespace Assembler

def start (options : Options) : Assembler :=
  ⟨.start options.location options.format, ∅, []⟩

def symbols (asm : Assembler) : SymbolTable :=
  asm.first.scope.symbols

def location (asm : Assembler) : Address :=
  asm.first.location

/-! # Cards -/

def addCard (asm : Assembler) (card : Card) : Except Fault (Assembler × Statement) := do
  let (first, st) ← asm.first.enter card
  return ({ asm with first := first, statements := asm.statements ++ [st] }, st)

def addCards (asm : Assembler) (cards : List Card) : Except Fault Assembler := do
  let (first, sts) ← asm.first.enterAll cards
  return { asm with first := first, statements := asm.statements ++ sts }

def secondPass (asm : Assembler) : SecondPass :=
  ⟨asm.first.scope, asm.words, asm.first.current⟩

/-- Gives every statement its words.  If one of them cannot take them, the assembler stops there,
with that statement at work. -/
def finish (asm : Assembler) : Assembler × Option Fault :=
  let outcome := asm.secondPass.assembleAll asm.statements
  ({ first := { asm.first with scope := outcome.pass.scope, current := outcome.pass.current }
     words := outcome.pass.words
     statements := outcome.statements },
    outcome.fault)

/-!
# Symbols

A symbol can be looked up from outside as an operand would be, which may define it.
-/

def lookup (asm : Assembler) (name : Text) : Option Word × Assembler :=
  let (value, scope) := asm.first.scope.lookup name
  (value, { asm with first := { asm.first with scope := scope } })

def lookupPosition (asm : Assembler) : CardPosition :=
  Statement.lookupPosition asm.first.current

def define (asm : Assembler) (name : Text) (value : Word) : Assembler :=
  let scope := asm.first.scope
  let scope := { scope with symbols := scope.symbols.define name value }
  { asm with first := { asm.first with scope := scope } }

/-! # Reports -/

def reports (asm : Assembler) : List Report :=
  asm.statements.flatMap Statement.reports

def count (asm : Assembler) (severity : Severity) : Nat :=
  asm.reports.countP fun report => report.severity = severity

def errorCount (asm : Assembler) : Nat :=
  asm.count .error

def warningCount (asm : Assembler) : Nat :=
  asm.count .warning

def assembled (asm : Assembler) : List Statement :=
  asm.statements.filter fun st => st.words.isSome

end Assembler

/-! # Whole programs -/

inductive AssemblyError where
  | lineTooLong
  | fault (cause : Fault)
  deriving DecidableEq, Repr

namespace AssemblyError

def message : AssemblyError → Text
  | lineTooLong => .ofString "bufio.Scanner: token too long"
  | fault cause => cause.message

end AssemblyError

def assembleCards (options : Options) (cards : List Card) : Except Fault Assembler := do
  let asm ← (Assembler.start options).addCards cards
  match asm.finish with
  | (asm, none) => return asm
  | (_, some fault) => throw fault

def assembleLines (options : Options) (lines : List Text) : Except Fault Assembler :=
  assembleCards options (Card.ofLines 1 lines)

def assembleSource (options : Options) (source : Text) : Except AssemblyError Assembler :=
  match Source.lines? source with
  | some lines => (assembleLines options lines).mapError .fault
  | none => .error .lineTooLong

end Ibm704
