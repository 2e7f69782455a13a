import Std.Data.TreeMap
import Ibm704.Statement.Resolve

/-!
# Second pass: giving words

After the last card the statements are taken once more in their order, and each
is given its words.  Operands of instructions are evaluated here, when every card
has had its say, at the base of their statement.  A repetition copies words that
earlier statements left in core, so the words are kept by their addresses.
-/

namespace Ibm704

abbrev WordMap := Std.TreeMap Nat Word

structure SecondPass where
  scope : Scope
  words : WordMap
  current : Option CardPosition

namespace SecondPass

def wordAt (pass : SecondPass) (address : Address) : Word :=
  (pass.words[address.val]?).getD .zero

def leave (words : WordMap) (base : Address) : List Word → WordMap
  | [] => words
  | w :: rest => leave (words.insert (base.add 0).val w) (base.add 1) rest

def transferTemplate : Word :=
  ((Order.ofMnemonic? (.ofString "TRA")).map Order.template).getD .zero

def orderWord (template : Word) (numbers : List Int) : Word :=
  template.or (Word.ofNat
    (lowBits 15 (numbers.getD 0 0) + (lowBits 3 (numbers.getD 1 0) <<< 15) +
      (lowBits 15 (numbers.getD 2 0) <<< 18)))

def operandWord (pass : SecondPass) (st : Statement) (template : Word) (most : Nat) :
    Except Fault (List Word × Statement × Scope) := do
  let _ ← st.operandAt 0
  let operands := st.resolveAll pass.current st.base pass.scope (st.exprs.take most)
  return ([orderWord template operands.numbers], operands.statement, operands.scope)

/-- The copies of a repetition: its words repeat those just before its base. -/
def copies (pass : SecondPass) (st : Statement) : Except Fault (List Word) :=
  if 0 < st.size ∧ st.period = 0 then
    .error .remainderByZero
  else
    .ok ((List.range st.size).map fun i =>
      pass.wordAt (st.base.add ((i % st.period : Nat) - (st.period : Int))))

def wordsOf (pass : SecondPass) (st : Statement) :
    Except Fault (List Word × Statement × Scope) :=
  match st.kind with
  | .instruction => pass.operandWord st ((st.order.map Order.template).getD .zero) 3
  | .characters | .decimal | .octal => .ok (st.data, st, pass.scope)
  | .repetition => (pass.copies st).map fun words => (words, st, pass.scope)
  | .finish => pass.operandWord st transferTemplate 1
  | _ => .ok ([], st, pass.scope)

def assemble (pass : SecondPass) (st : Statement) : Except Fault (SecondPass × Statement) := do
  let st ← st.advance .allocated .assembled
  if st.blocked then
    return (pass, { st with words := some [] })
  else
    let (words, st, scope) ← pass.wordsOf st
    return ({ pass with scope := scope, words := leave pass.words st.base words },
      { st with words := some words })

def takeUp (pass : SecondPass) (st : Statement) : SecondPass :=
  { pass with current := some st.card.operandPosition }

def setDown (pass : SecondPass) : SecondPass :=
  { pass with current := none }

structure Outcome where
  pass : SecondPass
  statements : List Statement
  /-- Why a statement could not be assembled; it is still at work. -/
  fault : Option Fault

def assembleAll (pass : SecondPass) : List Statement → Outcome
  | [] => ⟨pass.setDown, [], none⟩
  | st :: rest =>
      match (pass.takeUp st).assemble st with
      | .ok (pass, st) =>
          let outcome := pass.assembleAll rest
          { outcome with statements := st :: outcome.statements }
      | .error fault => ⟨pass.takeUp st, st :: rest, some fault⟩

end SecondPass

end Ibm704
