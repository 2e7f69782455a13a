import Ibm704.Order.Lookup
import Ibm704.Report

/-!
# Statements

A card becomes a statement, which passes through its phases in one order: it is
parsed, validated, given space, and given words.  Each phase adds to the
statement; what is wrong with the card is kept with it as reports.
-/

namespace Ibm704

/-- The form in which words are loaded; every code is possible, three have a meaning. -/
structure Format where
  code : Nat
  deriving DecidableEq, Repr

namespace Format

def absolute : Format := ⟨0⟩
def full : Format := ⟨1⟩
def transfer : Format := ⟨2⟩

def name (format : Format) : Text :=
  match format.code with
  | 0 => .ofString "absolute"
  | 1 => .ofString "full"
  | 2 => .ofString "transfer"
  | _ => .ofString "<invalid>"

end Format

inductive StatementKind where
  | instruction
  | absolute
  | characters
  | blockEnd
  | blockStart
  | decimal
  /-- Give undefined symbols consecutive addresses from here on. -/
  | anchor
  | finish
  | equate
  | full
  | heading
  | library
  | octal
  | origin
  | remark
  /-- Copies of the words just before. -/
  | repetition
  | synonym
  deriving DecidableEq, Repr

namespace StatementKind

def mnemonics : List (Text × StatementKind) :=
  [(.ofString "ABS", absolute),
   (.ofString "BCD", characters),
   (.ofString "BES", blockEnd),
   (.ofString "BSS", blockStart),
   (.ofString "DEC", decimal),
   (.ofString "DEF", anchor),
   (.ofString "END", finish),
   (.ofString "EQU", equate),
   (.ofString "FUL", full),
   (.ofString "HED", heading),
   (.ofString "LIB", library),
   (.ofString "OCT", octal),
   (.ofString "ORG", origin),
   (.ofString "REM", remark),
   (.ofString "REP", repetition),
   (.ofString "SYN", synonym)]

def ofMnemonic (mnemonic : Text) : StatementKind :=
  (mnemonics.lookup mnemonic).getD instruction

end StatementKind

inductive Phase where
  | constructed
  | parsed
  | validated
  | allocated
  | assembled
  deriving DecidableEq, Repr

namespace Phase

def number : Phase → Nat
  | constructed => 0
  | parsed => 1
  | validated => 2
  | allocated => 3
  | assembled => 4

end Phase

structure Statement where
  kind : StatementKind
  phase : Phase
  card : Card
  location : Text
  mnemonic : Text
  operand : Text
  comment : Text
  exprs : List Expr
  reports : List Report
  order : Option Order
  format : Format
  base : Address
  size : Nat
  value : Word
  words : Option (List Word)
  /-- The words that are known from the card alone. -/
  data : List Word
  /-- How many words a repetition copies at a time. -/
  period : Nat
  /-- A blocked statement takes no space and leaves no words. -/
  blocked : Bool
  /-- Must the words after this statement start a new segment? -/
  breaks : Bool
  deriving DecidableEq, Repr

inductive Fault where
  | outOfOrder (line : Int) (next present wanted : Phase)
  | indexOutOfRange (index length : Nat)
  | negativeIndex (index : Int)
  | remainderByZero
  deriving DecidableEq, Repr

namespace Fault

def message : Fault → Text
  | outOfOrder line next present wanted =>
      .ofString "assembler: line " ++ Text.signedDecimal line ++
        .ofString " moved to state " ++ Text.decimal next.number ++
        .ofString " from " ++ Text.decimal present.number ++
        .ofString ", want " ++ Text.decimal wanted.number
  | indexOutOfRange index length =>
      .ofString "runtime error: index out of range [" ++ Text.decimal index ++
        .ofString "] with length " ++ Text.decimal length
  | negativeIndex index =>
      .ofString "runtime error: index out of range [" ++ Text.signedDecimal index ++ .ofString "]"
  | remainderByZero => .ofString "runtime error: integer divide by zero"

end Fault

namespace Statement

/-- Kind and mnemonic of a card.  A card without an operation is a constant of plus zero. -/
def classify (card : Card) : StatementKind × Text :=
  let mnemonic := card.operation.capitals
  if card.remark || card.blank then
    (.remark, .ofString "*")
  else if mnemonic.isEmpty then
    (.instruction, .ofString "PZE")
  else
    (.ofMnemonic mnemonic, mnemonic)

def ofCard (card : Card) : Statement where
  kind := (classify card).1
  phase := .constructed
  card := card
  location := card.location
  mnemonic := (classify card).2
  operand := []
  comment := []
  exprs := []
  reports := []
  order := none
  format := .absolute
  base := .zero
  size := 0
  value := .zero
  words := none
  data := []
  period := 0
  blocked := false
  breaks := false

/-!
# Reports

Reports are added at the end, most of them at the field of the card.  A statement that
is blocked is reported as well.
-/

def report (st : Statement) (severity : Severity) (column : Nat) (problem : Problem) : Statement :=
  { st with reports := st.reports ++ [⟨severity, st.card.position column, problem⟩] }

def warn (st : Statement) (problem : Problem) : Statement :=
  st.report .warning st.card.fieldColumn problem

def fail (st : Statement) (problem : Problem) : Statement :=
  st.report .error st.card.fieldColumn problem

def failAt (st : Statement) (position : CardPosition) (problem : Problem) : Statement :=
  { st with reports := st.reports ++ [⟨.error, position, problem⟩] }

def failAll (st : Statement) (problems : List Problem) : Statement :=
  { st with
    reports := st.reports ++
      problems.map fun problem => ⟨.error, st.card.position st.card.fieldColumn, problem⟩ }

def block (st : Statement) (column : Nat) (problem : Problem) : Statement :=
  { st.report .error column problem with blocked := true }

def hasErrors (st : Statement) : Bool :=
  st.reports.any Report.isError

/-!
# Phases

A statement goes from phase to phase in a fixed order, and a step that comes at the
wrong time is a fault.
-/

def advance (st : Statement) (wanted next : Phase) : Except Fault Statement :=
  if st.phase = wanted then
    .ok { st with phase := next }
  else
    .error (.outOfOrder st.card.number next st.phase wanted)

def operandAt (st : Statement) (index : Nat) : Except Fault Expr :=
  match st.exprs[index]? with
  | some e => .ok e
  | none => .error (.indexOutOfRange index st.exprs.length)

def emitted (st : Statement) : List Word :=
  st.words.getD []

end Statement

end Ibm704
