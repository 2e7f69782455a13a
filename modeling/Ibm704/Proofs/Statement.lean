import Ibm704.Proofs.References
import Ibm704.Statement.Parse
import Ibm704.Statement.Resolve

/-!
# Statements that have been checked

Parsing and validation look at one card only and cannot fail on a fresh
statement.  What they leave has as many operands as its kind wants, and an
instruction that is not blocked has its order.  These are the facts on which the
two passes rely when they reach for an operand.
-/

namespace Ibm704

def StatementKind.arity : StatementKind → Nat × Nat
  | .instruction => (1, 3)
  | .blockStart | .blockEnd | .equate | .synonym => (1, 1)
  | .origin | .anchor | .finish => (1, 1)
  | .repetition => (2, 2)
  | _ => (0, 0)

def StatementKind.waits : StatementKind → Bool
  | .instruction | .finish => true
  | _ => false

namespace Statement

/-!
# What stays

Parsing and validation change few parts of a statement.  A statement without these
parts is its frame, and statements with one frame agree in all that the frame keeps.
-/

theorem of_frame {α : Type} (f : Statement → Statement) (part : Statement → α)
    (hpart : ∀ st, part (f st) = part st) {st st' : Statement} (h : f st' = f st) :
    part st' = part st := by
  rw [← hpart, h, hpart]

def beforeParse (st : Statement) : Statement :=
  { st with operand := [], comment := [], exprs := [], reports := [], data := [] }

def beforeCheck (st : Statement) : Statement :=
  { st with exprs := [], reports := [], order := none, blocked := false }

def frame (st : Statement) : Statement :=
  st.beforeParse.beforeCheck

def withoutOperands (st : Statement) : Statement :=
  { st with exprs := [], reports := [] }

theorem parseCharacters_beforeParse (st : Statement) :
    st.parseCharacters.beforeParse = st.beforeParse := by
  unfold parseCharacters
  split
  · rfl
  · split <;> rfl

theorem parseField_beforeParse (st : Statement) : st.parseField.beforeParse = st.beforeParse := by
  unfold parseField
  split
  · exact parseCharacters_beforeParse st
  · rfl
  · dsimp only
    split <;> rfl

theorem checkArity_withoutOperands (st : Statement) (least most : Nat) :
    (st.checkArity least most).withoutOperands = st.withoutOperands := by
  unfold checkArity
  dsimp only
  split <;> rfl

theorem dropDecrement_withoutOperands (st : Statement) :
    st.dropDecrement.withoutOperands = st.withoutOperands := by
  unfold dropDecrement
  dsimp only
  split <;> rfl

theorem requireLocation_beforeCheck (st : Statement) :
    st.requireLocation.beforeCheck = st.beforeCheck := by
  unfold requireLocation
  split <;> rfl

theorem findOrder_beforeCheck (st : Statement) : st.findOrder.beforeCheck = st.beforeCheck := by
  unfold findOrder
  split <;> rfl

theorem checkArity_beforeCheck (st : Statement) (least most : Nat) :
    (st.checkArity least most).beforeCheck = st.beforeCheck :=
  of_frame withoutOperands beforeCheck (fun _ => rfl) (checkArity_withoutOperands st least most)

theorem dropDecrement_beforeCheck (st : Statement) :
    st.dropDecrement.beforeCheck = st.beforeCheck :=
  of_frame withoutOperands beforeCheck (fun _ => rfl) (dropDecrement_withoutOperands st)

theorem check_beforeCheck (st : Statement) : st.check.beforeCheck = st.beforeCheck := by
  unfold check
  split
  · rw [dropDecrement_beforeCheck, checkArity_beforeCheck, findOrder_beforeCheck]
  · rw [requireLocation_beforeCheck, checkArity_beforeCheck]
  · rw [requireLocation_beforeCheck, checkArity_beforeCheck]
  · rw [requireLocation_beforeCheck, checkArity_beforeCheck]
  · rw [requireLocation_beforeCheck, checkArity_beforeCheck]
  · exact checkArity_beforeCheck st 1 1
  · exact checkArity_beforeCheck st 1 1
  · exact checkArity_beforeCheck st 1 1
  · exact checkArity_beforeCheck st 2 2
  · rfl

/-!
# The number of operands

Each kind has a least and a largest number of operands, into which validation brings
them.
-/

theorem fitOperands_length {least most : Nat} (h : least ≤ most) (exprs : List Expr) :
    least ≤ (fitOperands least most exprs).length ∧
      (fitOperands least most exprs).length ≤ most := by
  simp only [fitOperands, List.length_take, List.length_append, List.length_replicate]
  omega

theorem checkArity_length {least most : Nat} (h : least ≤ most) (st : Statement) :
    least ≤ (st.checkArity least most).exprs.length ∧
      (st.checkArity least most).exprs.length ≤ most := by
  unfold checkArity
  dsimp only
  split
  · rename_i hcount
    exact hcount
  · exact fitOperands_length h st.exprs

theorem requireLocation_exprs (st : Statement) : st.requireLocation.exprs = st.exprs := by
  unfold requireLocation
  split <;> rfl

theorem dropDecrement_length {st : Statement}
    (h : 1 ≤ st.exprs.length ∧ st.exprs.length ≤ 3) :
    1 ≤ st.dropDecrement.exprs.length ∧ st.dropDecrement.exprs.length ≤ 3 := by
  unfold dropDecrement
  dsimp only
  split
  · simp only [List.length_take]
    omega
  · exact h

theorem parseCharacters_exprs (st : Statement) : st.parseCharacters.exprs = st.exprs := by
  unfold parseCharacters
  split
  · rfl
  · split <;> rfl

theorem parseField_exprs {st : Statement} (hexprs : st.exprs = [])
    (hkind : st.kind.arity = (0, 0)) : st.parseField.exprs = [] := by
  unfold parseField
  cases h : st.kind <;> rw [h] at hkind
  case characters => exact (parseCharacters_exprs st).trans hexprs
  case remark | decimal | octal | heading | library | full | absolute => exact hexprs
  all_goals cases hkind

/-!
# Checked statements

What both passes rely on is collected here, with one lemma for each kind of statement.
-/

def prepared (st : Statement) : Statement :=
  check { parseField { st with phase := .parsed } with phase := .validated }

theorem parse_validate {st : Statement} (h : st.phase = .constructed) :
    st.parse >>= validate = .ok st.prepared := by
  have hphase : (parseField { st with phase := .parsed }).phase = .parsed :=
    congrArg phase (parseField_beforeParse { st with phase := .parsed })
  simp only [parse, advance, h, if_pos, bind, Except.bind, pure, Except.pure, validate, hphase,
    prepared]

theorem prepared_frame (st : Statement) :
    st.prepared.frame = { st.frame with phase := .validated } := by
  have hchecked := of_frame beforeCheck frame (fun _ => rfl)
    (check_beforeCheck { parseField { st with phase := .parsed } with phase := .validated })
  have hparsed := of_frame beforeParse frame (fun _ => rfl)
    (parseField_beforeParse { st with phase := .parsed })
  exact hchecked.trans
    (congrArg (fun frame : Statement => { frame with phase := Phase.validated }) hparsed)

theorem prepared_phase (st : Statement) : st.prepared.phase = .validated :=
  congrArg Statement.phase st.prepared_frame

structure Checked (st : Statement) : Prop where
  least : st.kind.arity.1 ≤ st.exprs.length
  most : st.exprs.length ≤ st.kind.arity.2
  order : st.kind = .instruction → st.blocked = false →
    ∃ order, Order.ofMnemonic? st.mnemonic = some order ∧ st.order = some order
  blockable : st.blocked = true → st.kind = .instruction ∨ st.kind = .blockStart ∨
    st.kind = .blockEnd ∨ st.kind = .equate ∨ st.kind = .synonym

theorem Checked.unblocked {st : Statement} (h : Checked st)
    (hkind : ¬(st.kind = .instruction ∨ st.kind = .blockStart ∨ st.kind = .blockEnd ∨
      st.kind = .equate ∨ st.kind = .synonym)) : st.blocked = false :=
  Bool.eq_false_iff.mpr fun hblocked => hkind (h.blockable hblocked)

theorem Checked.of_same {st st' : Statement} (h : Checked st) (hkind : st'.kind = st.kind)
    (hmnemonic : st'.mnemonic = st.mnemonic) (hexprs : st'.exprs = st.exprs)
    (horder : st'.order = st.order) (hblocked : st'.blocked = st.blocked) : Checked st' := by
  constructor
  · rw [hkind, hexprs]
    exact h.least
  · rw [hkind, hexprs]
    exact h.most
  · rw [hkind, hblocked, horder, hmnemonic]
    exact h.order
  · rw [hkind, hblocked]
    exact h.blockable

theorem findOrder_order {st : Statement} (h : st.findOrder.blocked = false) :
    ∃ order, Order.ofMnemonic? st.mnemonic = some order ∧ st.findOrder.order = some order := by
  unfold findOrder at h ⊢
  split at h
  · rename_i order horder
    rw [horder]
    exact ⟨order, rfl, rfl⟩
  · cases h

theorem instruction_checked {st : Statement} (h : st.kind = .instruction) :
    Checked (st.findOrder.checkArity 1 3).dropDecrement := by
  have hframe : (st.findOrder.checkArity 1 3).dropDecrement.beforeCheck = st.beforeCheck := by
    rw [dropDecrement_beforeCheck, checkArity_beforeCheck, findOrder_beforeCheck]
  have hkind := of_frame beforeCheck kind (fun _ => rfl) hframe
  have hlength := dropDecrement_length (checkArity_length (by decide : 1 ≤ 3) st.findOrder)
  constructor
  · rw [hkind, h]
    exact hlength.1
  · rw [hkind, h]
    exact hlength.2
  · intro _ hfree
    have hkept : (st.findOrder.checkArity 1 3).dropDecrement.withoutOperands =
        st.findOrder.withoutOperands := by
      rw [dropDecrement_withoutOperands, checkArity_withoutOperands]
    rw [of_frame withoutOperands blocked (fun _ => rfl) hkept] at hfree
    rw [of_frame beforeCheck mnemonic (fun _ => rfl) hframe,
      of_frame withoutOperands order (fun _ => rfl) hkept]
    exact findOrder_order hfree
  · intro _
    exact Or.inl (hkind.trans h)

theorem located_checked {st : Statement} (harity : st.kind.arity = (1, 1))
    (h : st.kind = .blockStart ∨ st.kind = .blockEnd ∨ st.kind = .equate ∨ st.kind = .synonym) :
    Checked (st.checkArity 1 1).requireLocation := by
  have hframe : (st.checkArity 1 1).requireLocation.beforeCheck = st.beforeCheck := by
    rw [requireLocation_beforeCheck, checkArity_beforeCheck]
  have hkind := of_frame beforeCheck kind (fun _ => rfl) hframe
  have hlength := checkArity_length (Nat.le_refl 1) st
  rw [← requireLocation_exprs] at hlength
  constructor
  · rw [hkind, harity]
    exact hlength.1
  · rw [hkind, harity]
    exact hlength.2
  · intro hinstruction
    rw [hkind] at hinstruction
    rw [hinstruction] at h
    simp at h
  · intro _
    rw [hkind]
    exact Or.inr h

theorem checkArity_checked {st : Statement} {count : Nat} (hfree : st.blocked = false)
    (harity : st.kind.arity = (count, count)) : Checked (st.checkArity count count) := by
  have hkind := of_frame beforeCheck kind (fun _ => rfl) (checkArity_beforeCheck st count count)
  have hlength := checkArity_length (Nat.le_refl count) st
  constructor
  · rw [hkind, harity]
    exact hlength.1
  · rw [hkind, harity]
    exact hlength.2
  · intro hinstruction
    rw [hkind] at hinstruction
    rw [hinstruction] at harity
    cases harity
  · intro hblocked
    rw [of_frame withoutOperands blocked (fun _ => rfl)
      (checkArity_withoutOperands st count count), hfree] at hblocked
    cases hblocked

theorem check_checked {st : Statement} (hexprs : st.kind.arity = (0, 0) → st.exprs = [])
    (hfree : st.blocked = false) : Checked st.check := by
  unfold check
  cases h : st.kind
  case instruction => exact instruction_checked h
  case blockStart | blockEnd | equate | synonym =>
    exact located_checked (by rw [h]; rfl) (by simp [h])
  case origin | anchor | finish | repetition => exact checkArity_checked hfree (by rw [h]; rfl)
  -- The other kinds have no operands, so bringing their number to zero changes nothing.
  all_goals
    have harity : st.kind.arity = (0, 0) := by rw [h]; rfl
    have hzero : st.checkArity 0 0 = st := by
      unfold checkArity
      rw [hexprs harity]
      rfl
    show Checked st
    rw [← hzero]
    exact checkArity_checked hfree harity

theorem prepared_checked {st : Statement} (hexprs : st.exprs = []) (hfree : st.blocked = false) :
    Checked st.prepared := by
  have hparsed := parseField_beforeParse { st with phase := .parsed }
  have hkind := of_frame beforeParse kind (fun _ => rfl) hparsed
  apply check_checked
  · intro harity
    exact parseField_exprs hexprs (hkind ▸ harity)
  · exact (of_frame beforeParse blocked (fun _ => rfl) hparsed).trans hfree

/-!
# Operands with their values

Evaluation changes nothing of a statement but its reports, and a statement that is at
work is reported with its own card.
-/

def outcomeNumber : Except Expr.EvalError Int64 → Int
  | .ok value => value.toInt
  | .error _ => 0

def operandReport (st : Statement) (error : Expr.EvalError) : Report :=
  ⟨.error, st.card.operandPosition, .ofEvalError error⟩

def failures (st : Statement) (outcomes : List (Except Expr.EvalError Int64)) : List Report :=
  outcomes.filterMap fun outcome => (Expr.failure? outcome).map st.operandReport

/-- The passes have the statement at work, so lookups that fail are reported at its operand. -/
def AtWork (st : Statement) (current : Option CardPosition) : Prop :=
  current = some st.card.operandPosition

theorem AtWork.failurePosition {st : Statement} {current : Option CardPosition}
    (h : st.AtWork current) (error : Expr.EvalError) :
    st.failurePosition current error = st.card.operandPosition := by
  rw [h]
  cases error <;> rfl

section

variable (st : Statement) (current : Option CardPosition) (here : Address) (scope : Scope) (e : Expr)

theorem resolve_scope :
    (st.resolve current here scope e).scope = (e.eval (Scope.environment here) scope).2 := by
  unfold resolve
  split <;> rename_i heval <;> rw [heval]

theorem resolve_value :
    (st.resolve current here scope e).value = (e.eval (Scope.environment here) scope).1.toOption := by
  unfold resolve
  split <;> rename_i heval <;> rw [heval] <;> rfl

theorem resolve_number :
    (st.resolve current here scope e).number =
      outcomeNumber (e.eval (Scope.environment here) scope).1 := by
  unfold resolve
  split <;> rename_i heval <;> rw [heval] <;> rfl

theorem resolve_reports (hwork : st.AtWork current) :
    (st.resolve current here scope e).statement.reports =
      st.reports ++ st.failures [(e.eval (Scope.environment here) scope).1] := by
  unfold resolve
  split <;> rename_i heval <;> rw [heval]
  · exact (List.append_nil _).symm
  · rw [hwork.failurePosition]
    rfl

theorem resolve_statement :
    ∃ reports, (st.resolve current here scope e).statement = { st with reports := reports } := by
  unfold resolve
  split
  · exact ⟨st.reports, rfl⟩
  · exact ⟨_, rfl⟩

theorem resolve_part {α : Type} (part : Statement → α)
    (hpart : ∀ (st : Statement) reports, part { st with reports := reports } = part st) :
    part (st.resolve current here scope e).statement = part st := by
  rcases resolve_statement st current here scope e with ⟨reports, hst⟩
  rw [hst, hpart]

end

end Statement
end Ibm704
