import Ibm704.Statement.Parse
import Ibm704.Statement.Resolve

/-!
# First pass: giving space

The first pass takes the cards in their order.  Each statement is parsed and
validated by itself and then given space: its base is the location counter, which
moves on by its size, and its location symbol is defined.  Operands that decide
about space are evaluated here, so they can refer to earlier cards only.
-/

namespace Ibm704

structure FirstPass where
  scope : Scope
  location : Address
  format : Format
  /-- Was there an end card?  What follows it is ignored. -/
  ended : Bool
  /-- The operand of the statement that is at work. -/
  current : Option CardPosition
  deriving DecidableEq, Repr

namespace FirstPass

def start (location : Address) (format : Format) : FirstPass :=
  ⟨.empty, location, format, false, none⟩

/-!
# Space

Each kind of statement is given what it asks for: instructions and data as many
locations as they have words, blocks as many as their operand says.  Repetitions take
as many copies as the second operand says of as many words as the first one says.
-/

/-- Which word of a block its location symbol names. -/
inductive Binding where
  | nothing
  | first
  | last
  deriving DecidableEq, Repr

def reserve (pass : FirstPass) (st : Statement) (size : Nat) (binding : Binding) :
    FirstPass × Statement :=
  let after := pass.location.add size
  let scope :=
    match binding with
    | .nothing => pass.scope
    | .first => pass.scope.define st.location (Word.ofNat pass.location.val)
    | .last => pass.scope.define st.location (Word.ofNat (after.add (-1)).val)
  ({ pass with scope := scope, location := after },
    { st with base := pass.location, size := size })

def operand (pass : FirstPass) (st : Statement) (index : Nat) :
    Except Fault Statement.Resolved :=
  (st.operandAt index).map (st.resolve pass.current pass.location pass.scope)

def reserveBlock (pass : FirstPass) (st : Statement) (binding : Binding) :
    Except Fault (FirstPass × Statement) :=
  (pass.operand st 0).map fun length =>
    reserve { pass with scope := length.scope } length.statement length.address.val binding

def equate (pass : FirstPass) (st : Statement) : Except Fault (FirstPass × Statement) :=
  (pass.operand st 0).map fun r =>
    match r.value with
    | some value =>
        let w := Word.ofInt value.toInt
        ({ pass with scope := r.scope.define st.location w }, { r.statement with value := w })
    | none => ({ pass with scope := r.scope }, r.statement)

def setOrigin (pass : FirstPass) (st : Statement) : Except Fault (FirstPass × Statement) :=
  (pass.operand st 0).map fun origin =>
    ({ pass with scope := origin.scope, location := origin.address },
      { origin.statement with base := origin.address, breaks := true })

def repeatWords (pass : FirstPass) (st : Statement) : Except Fault (FirstPass × Statement) := do
  let words ← pass.operand st 0
  let pass := { pass with scope := words.scope }
  let times ← pass.operand words.statement 1
  let period := words.address.val
  return reserve { pass with scope := times.scope } { times.statement with period := period }
    (lowBits 15 (period * times.address.val)) .nothing

def setAnchor (pass : FirstPass) (st : Statement) : Except Fault (FirstPass × Statement) :=
  (pass.operand st 0).map fun r =>
    ({ pass with scope := r.scope.install r.address }, r.statement)

def setFormat (pass : FirstPass) (st : Statement) (format : Format) : FirstPass × Statement :=
  ({ pass with format := format }, { st with format := format, breaks := true })

def place (pass : FirstPass) (st : Statement) : Except Fault (FirstPass × Statement) :=
  match st.kind with
  | .instruction => .ok (pass.reserve st 1 .first)
  | .characters | .decimal | .octal => .ok (pass.reserve st st.data.length .first)
  | .blockStart => pass.reserveBlock st .first
  | .blockEnd => pass.reserveBlock st .last
  | .equate | .synonym => pass.equate st
  | .origin => pass.setOrigin st
  | .repetition => pass.repeatWords st
  | .anchor => pass.setAnchor st
  | .finish =>
      .ok (reserve { pass with ended := true } { st with format := .transfer } 1 .nothing)
  | .full => .ok (pass.setFormat st .full)
  | .absolute => .ok (pass.setFormat st .absolute)
  | .heading | .library | .remark => .ok (pass, st)

def allocate (pass : FirstPass) (st : Statement) : Except Fault (FirstPass × Statement) := do
  let st ← st.advance .validated .allocated
  let st := { st with base := pass.location, format := pass.format }
  if st.blocked then return (pass, st) else pass.place st

/-!
# Cards

While a card is entered its statement is at work, and the state holds the operand for
lookups that fail.  Between two cards no statement is at work.
-/

/-- The statement of a card; after the end card everything is a remark. -/
def statementOf (pass : FirstPass) (card : Card) : Statement :=
  let st := Statement.ofCard card
  if pass.ended ∧ st.kind ≠ .remark then
    { st.report .warning card.operationColumn .afterEnd with kind := .remark }
  else
    st

def takeUp (pass : FirstPass) (card : Card) : FirstPass :=
  { pass with current := some card.operandPosition }

def setDown (pass : FirstPass) : FirstPass :=
  { pass with current := none }

def enter (pass : FirstPass) (card : Card) : Except Fault (FirstPass × Statement) := do
  let pass := pass.takeUp card
  let st ← (pass.statementOf card).parse
  let st ← st.validate
  let (pass, st) ← pass.allocate st
  return (pass.setDown, st)

def enterAll (pass : FirstPass) : List Card → Except Fault (FirstPass × List Statement)
  | [] => .ok (pass, [])
  | card :: rest => do
      let (pass, st) ← pass.enter card
      let (pass, sts) ← pass.enterAll rest
      return (pass, st :: sts)

end FirstPass

end Ibm704
