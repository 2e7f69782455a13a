import Ibm704.Assembly.FirstPass
import Ibm704.Proofs.Scope
import Ibm704.Proofs.Statement

/-!
# What the first pass does with a card

Every card can be entered.  What happens to it is listed once, case by case, and
all else about the first pass is read off that list: the scope grows, the counter
moves by the size of the statement, and the statement keeps what its card says.

A history holds the states between the cards of a whole first pass.
-/

namespace Ibm704

namespace Statement

theorem operandAt_of_get {st : Statement} {index : Nat} {e : Expr}
    (h : st.exprs[index]? = some e) : st.operandAt index = .ok e := by
  simp only [operandAt, h]

def beforeSpace (st : Statement) : Statement :=
  { st with reports := [], format := .absolute, base := .zero, size := 0, value := .zero,
            period := 0, breaks := false }

theorem Checked.single {st : Statement} (hchecked : st.Checked)
    (harity : st.kind.arity = (1, 1)) : ∃ e, st.exprs = [e] := by
  have hleast := hchecked.least
  have hmost := hchecked.most
  rw [harity] at hleast hmost
  exact List.length_eq_one_iff.mp (Nat.le_antisymm hmost hleast)

theorem Checked.pair {st : Statement} (hchecked : st.Checked)
    (harity : st.kind.arity = (2, 2)) : ∃ e e', st.exprs = [e, e'] := by
  have hleast := hchecked.least
  have hmost := hchecked.most
  rw [harity] at hleast hmost
  match st.exprs, hleast, hmost with
  | [e, e'], _, _ => exact ⟨e, e', rfl⟩

theorem resolve_extends (st : Statement) (current : Option CardPosition) (here : Address)
    (scope : Scope) (e : Expr) : scope.Extends (st.resolve current here scope e).scope := by
  rw [resolve_scope]
  exact Scope.eval_extends here e scope

end Statement

namespace FirstPass

@[simp] theorem setDown_ended (pass : FirstPass) : pass.setDown.ended = pass.ended := rfl

theorem setDown_eq {pass : FirstPass} (h : pass.current = none) : pass.setDown = pass := by
  rw [setDown, ← h]

/-!
# Cards

A card is parsed and checked by itself and then given its space, with its statement at
work all the while.  Every card can be entered, and `Placed` has one constructor for
each thing that can happen.
-/

def incoming (pass : FirstPass) (card : Card) : Statement :=
  { (pass.statementOf card).prepared with
    phase := .allocated, base := pass.location, format := pass.format }

theorem statementOf_fresh (pass : FirstPass) (card : Card) :
    (pass.statementOf card).phase = .constructed ∧ (pass.statementOf card).exprs = [] ∧
      (pass.statementOf card).data = [] ∧ (pass.statementOf card).blocked = false := by
  unfold statementOf
  dsimp only
  split <;> exact ⟨rfl, rfl, rfl, rfl⟩

def kindOf (pass : FirstPass) (card : Card) : StatementKind :=
  if pass.ended then .remark else (Statement.classify card).1

theorem statementOf_frame (pass : FirstPass) (card : Card) :
    (pass.statementOf card).frame = { Statement.ofCard card with kind := pass.kindOf card } := by
  unfold statementOf kindOf
  dsimp only
  by_cases hended : pass.ended = true
  · by_cases hremark : (Statement.ofCard card).kind = .remark
    · rw [if_neg (fun h => h.2 hremark), if_pos hended, ← hremark]
      rfl
    · rw [if_pos ⟨hended, hremark⟩, if_pos hended]
      rfl
  · rw [if_neg (fun h => hended h.1), if_neg hended]
    rfl

theorem incoming_frame (pass : FirstPass) (card : Card) :
    (pass.incoming card).frame =
      { Statement.ofCard card with
        kind := pass.kindOf card, phase := .allocated, base := pass.location,
        format := pass.format } := by
  have hprepared := Statement.prepared_frame (pass.statementOf card)
  rw [statementOf_frame] at hprepared
  exact congrArg (fun frame : Statement =>
    { frame with phase := Phase.allocated, base := pass.location, format := pass.format }) hprepared

theorem incoming_kind (pass : FirstPass) (card : Card) :
    (pass.incoming card).kind = pass.kindOf card :=
  congrArg Statement.kind (incoming_frame pass card)

theorem incoming_phase (pass : FirstPass) (card : Card) :
    (pass.incoming card).phase = .allocated :=
  congrArg Statement.phase (incoming_frame pass card)

theorem incoming_card (pass : FirstPass) (card : Card) : (pass.incoming card).card = card :=
  congrArg Statement.card (incoming_frame pass card)

theorem incoming_base (pass : FirstPass) (card : Card) :
    (pass.incoming card).base = pass.location :=
  congrArg Statement.base (incoming_frame pass card)

theorem incoming_size (pass : FirstPass) (card : Card) : (pass.incoming card).size = 0 :=
  congrArg Statement.size (incoming_frame pass card)

theorem incoming_location (pass : FirstPass) (card : Card) :
    (pass.incoming card).location = card.location :=
  congrArg Statement.location (incoming_frame pass card)

theorem incoming_format (pass : FirstPass) (card : Card) :
    (pass.incoming card).format = pass.format :=
  congrArg Statement.format (incoming_frame pass card)

theorem incoming_breaks (pass : FirstPass) (card : Card) : (pass.incoming card).breaks = false :=
  congrArg Statement.breaks (incoming_frame pass card)

theorem incoming_checked (pass : FirstPass) (card : Card) : (pass.incoming card).Checked := by
  rcases statementOf_fresh pass card with ⟨_, hexprs, _, hfree⟩
  have hchecked := Statement.prepared_checked hexprs hfree
  exact ⟨hchecked.least, hchecked.most, hchecked.order, hchecked.blockable⟩

theorem allocate_eq (pass : FirstPass) {st : Statement} (h : st.phase = .validated) :
    pass.allocate st =
      if st.blocked then
        .ok (pass, { st with phase := .allocated, base := pass.location, format := pass.format })
      else
        pass.place { st with phase := .allocated, base := pass.location, format := pass.format } := by
  unfold allocate Statement.advance
  rw [if_pos h]
  rfl

theorem enter_prepared (pass : FirstPass) (card : Card) :
    pass.enter card =
      ((pass.takeUp card).allocate (pass.statementOf card).prepared).map (Prod.map setDown id) := by
  have hsteps : pass.enter card =
      (((pass.statementOf card).parse >>= Statement.validate) >>= (pass.takeUp card).allocate) >>=
        fun result => pure (Prod.map setDown id result) := by
    rw [bind_assoc, bind_assoc]
    rfl
  rw [hsteps, bind_pure_comp, Statement.parse_validate (statementOf_fresh pass card).1]
  rfl

theorem enter_eq (pass : FirstPass) (card : Card) :
    pass.enter card =
      (if (pass.incoming card).blocked then .ok (pass.takeUp card, pass.incoming card)
        else (pass.takeUp card).place (pass.incoming card)).map (Prod.map setDown id) := by
  rw [enter_prepared, allocate_eq (pass.takeUp card) (Statement.prepared_phase _)]
  rfl

def resolved (pass : FirstPass) (st : Statement) (e : Expr) : Statement.Resolved :=
  st.resolve (some st.card.operandPosition) pass.location pass.scope e

theorem resolved_part {α : Type} {pass : FirstPass} {st : Statement} {e : Expr}
    (part : Statement → α)
    (hpart : ∀ (st : Statement) reports, part { st with reports := reports } = part st) :
    part (pass.resolved st e).statement = part st :=
  Statement.resolve_part st _ pass.location pass.scope e part hpart

/-- All that the first pass can do with a checked statement. -/
inductive Placed (pass : FirstPass) (st : Statement) : FirstPass × Statement → Prop where
  | idle (hkind : st.blocked = true ∨ st.kind = .heading ∨ st.kind = .library ∨
        st.kind = .remark) :
      Placed pass st (pass, st)
  | words {size : Nat} (hfree : st.blocked = false)
      (hkind : st.kind = .instruction ∧ size = 1 ∨
        (st.kind = .characters ∨ st.kind = .decimal ∨ st.kind = .octal) ∧ size = st.data.length) :
      Placed pass st (pass.reserve st size .first)
  | block {e : Expr} {binding : Binding} (hfree : st.blocked = false) (hexprs : st.exprs = [e])
      (hkind : st.kind = .blockStart ∧ binding = .first ∨ st.kind = .blockEnd ∧ binding = .last) :
      Placed pass st
        (reserve { pass with scope := (pass.resolved st e).scope } (pass.resolved st e).statement
          (pass.resolved st e).address.val binding)
  | equated {e : Expr} {value : Int64} (hfree : st.blocked = false) (hexprs : st.exprs = [e])
      (hkind : st.kind = .equate ∨ st.kind = .synonym)
      (hvalue : (pass.resolved st e).value = some value) :
      Placed pass st
        ({ pass with
            scope := (pass.resolved st e).scope.define st.location (Word.ofInt value.toInt) },
          { (pass.resolved st e).statement with value := Word.ofInt value.toInt })
  | unequated {e : Expr} (hfree : st.blocked = false) (hexprs : st.exprs = [e])
      (hkind : st.kind = .equate ∨ st.kind = .synonym)
      (hvalue : (pass.resolved st e).value = none) :
      Placed pass st
        ({ pass with scope := (pass.resolved st e).scope }, (pass.resolved st e).statement)
  | origin {e : Expr} (hfree : st.blocked = false) (hexprs : st.exprs = [e])
      (hkind : st.kind = .origin) :
      Placed pass st
        ({ pass with
            scope := (pass.resolved st e).scope, location := (pass.resolved st e).address },
          { (pass.resolved st e).statement with
            base := (pass.resolved st e).address, breaks := true })
  | repetition {e e' : Expr} (hfree : st.blocked = false) (hexprs : st.exprs = [e, e'])
      (hkind : st.kind = .repetition) {words times : Statement.Resolved}
      (hwords : words = pass.resolved st e)
      (htimes : times =
        words.statement.resolve (some st.card.operandPosition) pass.location words.scope e') :
      Placed pass st
        (reserve { pass with scope := times.scope }
          { times.statement with period := words.address.val }
          (lowBits 15 (words.address.val * times.address.val)) .nothing)
  | anchor {e : Expr} (hfree : st.blocked = false) (hexprs : st.exprs = [e])
      (hkind : st.kind = .anchor) :
      Placed pass st
        ({ pass with scope := (pass.resolved st e).scope.install (pass.resolved st e).address },
          (pass.resolved st e).statement)
  | finish (hfree : st.blocked = false) (hkind : st.kind = .finish) :
      Placed pass st
        (reserve { pass with ended := true } { st with format := .transfer } 1 .nothing)
  | format {format : Format} (hfree : st.blocked = false)
      (hkind : st.kind = .full ∧ format = .full ∨ st.kind = .absolute ∧ format = .absolute) :
      Placed pass st (pass.setFormat st format)

theorem operand_eq {pass : FirstPass} {st : Statement} (hwork : st.AtWork pass.current)
    {index : Nat} {e : Expr} (h : st.exprs[index]? = some e) :
    pass.operand st index = .ok (pass.resolved st e) := by
  unfold operand
  rw [Statement.operandAt_of_get h, hwork]
  rfl

theorem operand_zero {pass : FirstPass} {st : Statement} (hwork : st.AtWork pass.current)
    {e : Expr} {rest : List Expr} (h : st.exprs = e :: rest) :
    pass.operand st 0 = .ok (pass.resolved st e) :=
  operand_eq hwork (by rw [h]; rfl)

theorem equate_placed {pass : FirstPass} {st : Statement} {e : Expr}
    (hwork : st.AtWork pass.current) (hfree : st.blocked = false)
    (hexprs : st.exprs = [e]) (hkind : st.kind = .equate ∨ st.kind = .synonym) :
    ∃ result, pass.equate st = .ok result ∧ Placed pass st result := by
  unfold equate
  rw [operand_zero hwork hexprs]
  cases hvalue : (pass.resolved st e).value with
  | none =>
      refine ⟨_, ?_, Placed.unequated hfree hexprs hkind hvalue⟩
      simp only [Except.map, hvalue]
  | some value =>
      refine ⟨_, ?_, Placed.equated hfree hexprs hkind hvalue⟩
      simp only [Except.map, hvalue]

theorem repeatWords_placed {pass : FirstPass} {st : Statement} {e e' : Expr}
    (hwork : st.AtWork pass.current) (hfree : st.blocked = false) (hexprs : st.exprs = [e, e'])
    (hkind : st.kind = .repetition) :
    ∃ result, pass.repeatWords st = .ok result ∧ Placed pass st result := by
  have hkept : (pass.resolved st e).statement.exprs = st.exprs :=
    resolved_part Statement.exprs fun _ _ => rfl
  have hsecond : (pass.resolved st e).statement.exprs[1]? = some e' := by
    rw [hkept, hexprs]
    rfl
  have hcard : (pass.resolved st e).statement.card = st.card :=
    resolved_part Statement.card fun _ _ => rfl
  -- The statement is still at work when its second operand is evaluated.
  have hstill : (pass.resolved st e).statement.AtWork pass.current := by
    rw [Statement.AtWork, hcard]
    exact hwork
  have htimes : operand { pass with scope := (pass.resolved st e).scope }
      (pass.resolved st e).statement 1 =
        .ok ((pass.resolved st e).statement.resolve (some st.card.operandPosition) pass.location
          (pass.resolved st e).scope e') := by
    have hoperand := @operand_eq { pass with scope := (pass.resolved st e).scope }
      (pass.resolved st e).statement hstill 1 e' hsecond
    rw [hoperand, resolved, hcard]
  refine ⟨_, ?_, Placed.repetition hfree hexprs hkind rfl rfl⟩
  unfold repeatWords
  rw [operand_zero hwork hexprs]
  simp only [bind, Except.bind, htimes, pure, Except.pure]

theorem place_placed {pass : FirstPass} {st : Statement} (hwork : st.AtWork pass.current)
    (hchecked : st.Checked) (hfree : st.blocked = false) :
    ∃ result, pass.place st = .ok result ∧ Placed pass st result := by
  have hsingle := hchecked.single
  have hpair := hchecked.pair
  unfold place
  cases h : st.kind <;> rw [h] at hsingle hpair
  case instruction => exact ⟨_, rfl, Placed.words hfree (Or.inl ⟨h, rfl⟩)⟩
  case characters | decimal | octal =>
    exact ⟨_, rfl, Placed.words hfree (Or.inr ⟨by simp [h], rfl⟩)⟩
  case blockStart =>
    rcases hsingle rfl with ⟨e, hexprs⟩
    exact ⟨_, by simp only [reserveBlock, operand_zero hwork hexprs]; rfl,
      Placed.block hfree hexprs (Or.inl ⟨h, rfl⟩)⟩
  case blockEnd =>
    rcases hsingle rfl with ⟨e, hexprs⟩
    exact ⟨_, by simp only [reserveBlock, operand_zero hwork hexprs]; rfl,
      Placed.block hfree hexprs (Or.inr ⟨h, rfl⟩)⟩
  case equate =>
    rcases hsingle rfl with ⟨e, hexprs⟩
    exact equate_placed hwork hfree hexprs (Or.inl h)
  case synonym =>
    rcases hsingle rfl with ⟨e, hexprs⟩
    exact equate_placed hwork hfree hexprs (Or.inr h)
  case origin =>
    rcases hsingle rfl with ⟨e, hexprs⟩
    exact ⟨_, by simp only [setOrigin, operand_zero hwork hexprs]; rfl, Placed.origin hfree hexprs h⟩
  case anchor =>
    rcases hsingle rfl with ⟨e, hexprs⟩
    exact ⟨_, by simp only [setAnchor, operand_zero hwork hexprs]; rfl, Placed.anchor hfree hexprs h⟩
  case repetition =>
    rcases hpair rfl with ⟨e, e', hexprs⟩
    exact repeatWords_placed hwork hfree hexprs h
  case finish =>
    refine ⟨_, rfl, ?_⟩
    rw [← h]
    exact Placed.finish hfree h
  case full => exact ⟨_, rfl, Placed.format hfree (Or.inl ⟨h, rfl⟩)⟩
  case absolute => exact ⟨_, rfl, Placed.format hfree (Or.inr ⟨h, rfl⟩)⟩
  case heading | library | remark => exact ⟨_, rfl, Placed.idle (by simp [h])⟩

theorem Placed.withCurrent {pass : FirstPass} {st : Statement} {result : FirstPass × Statement}
    (h : Placed pass st result) (current : Option CardPosition) :
    Placed { pass with current := current } st ({ result.1 with current := current }, result.2) := by
  cases h with
  | idle hkind => exact Placed.idle hkind
  | words hfree hkind => exact Placed.words hfree hkind
  | block hfree hexprs hkind => exact Placed.block hfree hexprs hkind
  | equated hfree hexprs hkind hvalue => exact Placed.equated hfree hexprs hkind hvalue
  | unequated hfree hexprs hkind hvalue => exact Placed.unequated hfree hexprs hkind hvalue
  | origin hfree hexprs hkind => exact Placed.origin hfree hexprs hkind
  | repetition hfree hexprs hkind hwords htimes =>
      exact Placed.repetition hfree hexprs hkind hwords htimes
  | anchor hfree hexprs hkind => exact Placed.anchor hfree hexprs hkind
  | finish hfree hkind => exact Placed.finish hfree hkind
  | format hfree hkind => exact Placed.format hfree hkind

theorem takeUp_atWork (pass : FirstPass) (card : Card) :
    (pass.incoming card).AtWork (pass.takeUp card).current := by
  rw [Statement.AtWork, incoming_card]
  rfl

theorem allocate_placed (pass : FirstPass) (card : Card) :
    ∃ result, (pass.takeUp card).allocate (pass.statementOf card).prepared = .ok result ∧
      Placed (pass.takeUp card) (pass.incoming card) result := by
  rw [allocate_eq (pass.takeUp card) (Statement.prepared_phase _)]
  cases hblocked : (pass.incoming card).blocked with
  | true => exact ⟨_, if_pos hblocked, Placed.idle (Or.inl hblocked)⟩
  | false =>
      rcases place_placed (pass.takeUp_atWork card) (incoming_checked pass card) hblocked with
        ⟨result, hplace, hplaced⟩
      refine ⟨result, ?_, hplaced⟩
      exact (if_neg (Bool.eq_false_iff.mp hblocked)).trans hplace

theorem enter_placed (pass : FirstPass) (card : Card) :
    ∃ result, pass.enter card = .ok result ∧ Placed pass.setDown (pass.incoming card) result := by
  rcases allocate_placed pass card with ⟨result, hallocate, hplaced⟩
  refine ⟨Prod.map setDown id result, ?_, hplaced.withCurrent none⟩
  rw [enter_prepared, hallocate]
  rfl

/-!
# What every step keeps

Counter, format and the end of the program change only with the kinds of card that say
so.
-/

theorem reserve_extends (pass : FirstPass) (st : Statement) (size : Nat) (binding : Binding) :
    pass.scope.Extends (pass.reserve st size binding).1.scope := by
  cases binding with
  | nothing => exact Scope.Extends.refl _
  | first => exact Scope.define_extends _ _ _
  | last => exact Scope.define_extends _ _ _

theorem resolved_extends (pass : FirstPass) (st : Statement) (e : Expr) :
    pass.scope.Extends (pass.resolved st e).scope :=
  Statement.resolve_extends st _ pass.location pass.scope e

theorem Placed.extends {pass : FirstPass} {st : Statement} {result : FirstPass × Statement}
    (h : Placed pass st result) : pass.scope.Extends result.1.scope := by
  cases h with
  | idle => exact Scope.Extends.refl _
  | words => exact reserve_extends _ _ _ _
  | block => exact (resolved_extends pass st _).trans (reserve_extends { pass with scope := _ } _ _ _)
  | equated => exact (resolved_extends pass st _).trans (Scope.define_extends _ _ _)
  | unequated => exact resolved_extends pass st _
  | origin => exact resolved_extends pass st _
  | repetition hfree hexprs hkind hwords htimes =>
      subst hwords htimes
      rename_i e e'
      exact (resolved_extends pass st e).trans (Statement.resolve_extends _ _ _ _ e')
  | anchor => exact (resolved_extends pass st _).trans (Scope.install_extends _ _)
  | finish => exact Scope.Extends.refl _
  | format => exact Scope.Extends.refl _

theorem Placed.beforeSpace {pass : FirstPass} {st : Statement} {result : FirstPass × Statement}
    (h : Placed pass st result) : result.2.beforeSpace = st.beforeSpace := by
  have hresolved : ∀ {e}, (pass.resolved st e).statement.beforeSpace = st.beforeSpace :=
    resolved_part Statement.beforeSpace fun _ _ => rfl
  cases h with
  | idle => rfl
  | words => rfl
  | block => exact hresolved
  | equated => exact hresolved
  | unequated => exact hresolved
  | origin => exact hresolved
  | repetition hfree hexprs hkind hwords htimes =>
      subst hwords htimes
      exact (Statement.resolve_part _ _ _ _ _ Statement.beforeSpace fun _ _ => rfl).trans hresolved
  | anchor => exact hresolved
  | finish => rfl
  | format => rfl

theorem Placed.current {pass : FirstPass} {st : Statement} {result : FirstPass × Statement}
    (h : Placed pass st result) : result.1.current = pass.current := by
  cases h <;> rfl

theorem enter_atWork {pass next : FirstPass} {card : Card} {st : Statement}
    (h : pass.enter card = .ok (next, st)) :
    ∃ placed, (pass.statementOf card).prepared.AtWork (pass.takeUp card).current ∧
      (pass.takeUp card).allocate (pass.statementOf card).prepared = .ok (placed, st) ∧
      st.AtWork placed.current ∧ next = placed.setDown := by
  rcases allocate_placed pass card with ⟨⟨placed, st'⟩, hallocate, hplaced⟩
  rw [enter_prepared, hallocate] at h
  cases h
  have hcard : st'.card = card :=
    (Statement.of_frame Statement.beforeSpace Statement.card (fun _ => rfl)
      hplaced.beforeSpace).trans (incoming_card pass card)
  refine ⟨placed, pass.takeUp_atWork card, hallocate, ?_, rfl⟩
  show st'.AtWork placed.current
  rw [Statement.AtWork, hplaced.current, hcard]
  rfl

theorem Placed.base {pass : FirstPass} {st : Statement} {result : FirstPass × Statement}
    (h : Placed pass st result) (hbase : st.base = pass.location) :
    result.2.base = if st.kind = .origin then result.1.location else pass.location := by
  have hresolved : ∀ {e}, (pass.resolved st e).statement.base = pass.location :=
    (resolved_part Statement.base fun _ _ => rfl).trans hbase
  by_cases horigin : st.kind = .origin
  · rw [if_pos horigin]
    cases h with
    | idle => exact hbase
    | origin => rfl
    | words _ hkind => simp [horigin] at hkind
    | block _ _ hkind => simp [horigin] at hkind
    | equated _ _ hkind => simp [horigin] at hkind
    | unequated _ _ hkind => simp [horigin] at hkind
    | repetition _ _ hkind => simp [horigin] at hkind
    | anchor _ _ hkind => simp [horigin] at hkind
    | finish _ hkind => simp [horigin] at hkind
    | format _ hkind => simp [horigin] at hkind
  · rw [if_neg horigin]
    cases h with
    | idle => exact hbase
    | origin _ _ hkind => exact absurd hkind horigin
    | words => rfl
    | block => rfl
    | equated => exact hresolved
    | unequated => exact hresolved
    | repetition => rfl
    | anchor => exact hresolved
    | finish => rfl
    | format => exact hbase

theorem Placed.of_finish {pass : FirstPass} {st : Statement} {result : FirstPass × Statement}
    (h : Placed pass st result) (hchecked : st.Checked) (hfinish : st.kind = .finish) :
    result.1.ended = true ∧ result.1.format = pass.format ∧ result.2.format = .transfer := by
  cases h with
  | finish => exact ⟨rfl, rfl, rfl⟩
  | idle hkind =>
      rcases hkind with hblocked | hkind
      · have hblockable := hchecked.blockable hblocked
        simp [hfinish] at hblockable
      · simp [hfinish] at hkind
  | words _ hkind => simp [hfinish] at hkind
  | block _ _ hkind => simp [hfinish] at hkind
  | equated _ _ hkind => simp [hfinish] at hkind
  | unequated _ _ hkind => simp [hfinish] at hkind
  | origin _ _ hkind => simp [hfinish] at hkind
  | repetition _ _ hkind => simp [hfinish] at hkind
  | anchor _ _ hkind => simp [hfinish] at hkind
  | format _ hkind => simp [hfinish] at hkind

theorem Placed.of_not_finish {pass : FirstPass} {st : Statement} {result : FirstPass × Statement}
    (h : Placed pass st result) (hfinish : st.kind ≠ .finish) :
    result.1.ended = pass.ended ∧
      (result.1.format = pass.format ∧ result.2.format = st.format ∨
        (result.1.format = .absolute ∨ result.1.format = .full) ∧
          result.2.format = result.1.format) := by
  have hresolved : ∀ {e}, (pass.resolved st e).statement.format = st.format :=
    resolved_part Statement.format fun _ _ => rfl
  cases h with
  | finish _ hkind => exact absurd hkind hfinish
  | idle => exact ⟨rfl, Or.inl ⟨rfl, rfl⟩⟩
  | words => exact ⟨rfl, Or.inl ⟨rfl, rfl⟩⟩
  | block => exact ⟨rfl, Or.inl ⟨rfl, hresolved⟩⟩
  | equated => exact ⟨rfl, Or.inl ⟨rfl, hresolved⟩⟩
  | unequated => exact ⟨rfl, Or.inl ⟨rfl, hresolved⟩⟩
  | origin => exact ⟨rfl, Or.inl ⟨rfl, hresolved⟩⟩
  | repetition _ _ _ hwords htimes =>
      subst hwords htimes
      refine ⟨rfl, Or.inl ⟨rfl, ?_⟩⟩
      exact (Statement.resolve_part _ _ _ _ _ Statement.format fun _ _ => rfl).trans hresolved
  | anchor => exact ⟨rfl, Or.inl ⟨rfl, hresolved⟩⟩
  | format _ hkind =>
      rcases hkind with ⟨_, hformat⟩ | ⟨_, hformat⟩
      · exact ⟨rfl, Or.inr ⟨Or.inr hformat, rfl⟩⟩
      · exact ⟨rfl, Or.inr ⟨Or.inl hformat, rfl⟩⟩

/-!
# Histories

A history has one entry for each card.  What a single step respects holds by induction
between the start, each entry and the end.
-/

/-- One card of a first pass, with the states before and after it and the statement it became. -/
structure Entry where
  card : Card
  before : FirstPass
  after : FirstPass
  statement : Statement

def history (pass : FirstPass) : List Card → List Entry
  | [] => []
  | card :: rest =>
      match pass.enter card with
      | .ok (after, st) => ⟨card, pass, after, st⟩ :: after.history rest
      | .error _ => []

def afterAll (pass : FirstPass) : List Entry → FirstPass
  | [] => pass
  | entry :: rest => afterAll entry.after rest

def Entry.Placed (entry : Entry) : Prop :=
  FirstPass.Placed entry.before.setDown (entry.before.incoming entry.card)
    (entry.after, entry.statement)

theorem Entry.Placed.ended {entry : Entry} (h : entry.Placed) :
    entry.after.ended = true ↔
      entry.before.ended = true ∨ (Statement.classify entry.card).1 = .finish := by
  have hkind := incoming_kind entry.before entry.card
  rw [kindOf] at hkind
  by_cases hbefore : entry.before.ended = true
  · rw [if_pos hbefore] at hkind
    rw [(FirstPass.Placed.of_not_finish h (by simp [hkind])).1, setDown_ended]
    simp [hbefore]
  · rw [if_neg hbefore] at hkind
    by_cases hcard : (Statement.classify entry.card).1 = .finish
    · have hchecked := incoming_checked entry.before entry.card
      have hended := (FirstPass.Placed.of_finish h hchecked (hkind.trans hcard)).1
      exact ⟨fun _ => Or.inr hcard, fun _ => hended⟩
    · rw [(FirstPass.Placed.of_not_finish h (by rw [hkind]; exact hcard)).1, setDown_ended,
        or_iff_left hcard]

theorem history_cons (pass : FirstPass) (card : Card) (rest : List Card) :
    ∃ entry : Entry, pass.history (card :: rest) = entry :: entry.after.history rest ∧
      entry.card = card ∧ entry.before = pass ∧ entry.Placed ∧
      pass.enter card = .ok (entry.after, entry.statement) := by
  rcases enter_placed pass card with ⟨⟨after, st⟩, henter, hplaced⟩
  refine ⟨⟨card, pass, after, st⟩, ?_, rfl, rfl, hplaced, henter⟩
  simp only [history, henter]

theorem history_cards (pass : FirstPass) (cards : List Card) :
    (pass.history cards).map Entry.card = cards := by
  induction cards generalizing pass with
  | nil => rfl
  | cons card rest ih =>
      rcases history_cons pass card rest with ⟨entry, hhistory, hcard, _, _, _⟩
      rw [hhistory, List.map_cons, hcard, ih]

theorem enterAll_eq (pass : FirstPass) (cards : List Card) :
    pass.enterAll cards =
      .ok (pass.afterAll (pass.history cards), (pass.history cards).map Entry.statement) := by
  induction cards generalizing pass with
  | nil => rfl
  | cons card rest ih =>
      rcases history_cons pass card rest with ⟨entry, hhistory, _, _, _, henter⟩
      rw [hhistory]
      simp only [enterAll, henter, ih, bind, Except.bind, pure, Except.pure]
      rfl

theorem afterAll_append (pass : FirstPass) (entries others : List Entry) :
    pass.afterAll (entries ++ others) = (pass.afterAll entries).afterAll others := by
  induction entries generalizing pass with
  | nil => rfl
  | cons entry rest ih => exact ih entry.after

theorem history_append (pass : FirstPass) (cards others : List Card) :
    pass.history (cards ++ others) =
      pass.history cards ++ (pass.afterAll (pass.history cards)).history others := by
  induction cards generalizing pass with
  | nil => rfl
  | cons card rest ih =>
      rcases enter_placed pass card with ⟨⟨after, st⟩, henter, _⟩
      simp only [List.cons_append, history, henter]
      rw [ih after]
      rfl

theorem history_entered {pass : FirstPass} {cards : List Card} :
    ∀ entry ∈ pass.history cards,
      entry.before.enter entry.card = .ok (entry.after, entry.statement) := by
  induction cards generalizing pass with
  | nil =>
      intro entry hmem
      cases hmem
  | cons card rest ih =>
      rcases history_cons pass card rest with ⟨first, hhistory, hcard, hbefore, _, henter⟩
      rw [hhistory]
      intro entry hmem
      cases hmem with
      | head => rw [hbefore, hcard, henter]
      | tail _ htail => exact ih entry htail

theorem history_placed {pass : FirstPass} {cards : List Card} :
    ∀ entry ∈ pass.history cards, entry.Placed := by
  intro entry hmem
  rcases enter_placed entry.before entry.card with ⟨result, henter, hplaced⟩
  rw [history_entered entry hmem] at henter
  rw [← Except.ok.inj henter] at hplaced
  exact hplaced

theorem history_respects {R : FirstPass → FirstPass → Prop} (hrefl : ∀ pass, R pass pass)
    (htrans : ∀ {first second third}, R first second → R second third → R first third)
    (hstep : ∀ entry : Entry, entry.Placed → R entry.before entry.after) (pass : FirstPass)
    (cards : List Card) :
    R pass (pass.afterAll (pass.history cards)) ∧
      ∀ entry ∈ pass.history cards,
        R pass entry.before ∧ R entry.after (pass.afterAll (pass.history cards)) := by
  induction cards generalizing pass with
  | nil =>
      refine ⟨hrefl pass, ?_⟩
      intro entry hmem
      cases hmem
  | cons card rest ih =>
      rcases history_cons pass card rest with ⟨entry, hhistory, _, hbefore, hplaced, _⟩
      rcases ih entry.after with ⟨hrest, hentries⟩
      have hfirst := hstep entry hplaced
      rw [hbefore] at hfirst
      rw [hhistory]
      refine ⟨htrans hfirst hrest, ?_⟩
      intro other hmem
      cases hmem with
      | head =>
          rw [hbefore]
          exact ⟨hrefl pass, hrest⟩
      | tail _ htail =>
          rcases hentries other htail with ⟨hother, hlast⟩
          exact ⟨htrans hfirst hother, hlast⟩

theorem history_before {pass : FirstPass} {cards : List Card} {earlier later : List Entry}
    {entry : Entry} (h : pass.history cards = earlier ++ entry :: later) :
    ∃ before after, cards = before ++ entry.card :: after ∧ pass.history before = earlier ∧
      entry.before = pass.afterAll earlier := by
  induction earlier generalizing pass cards with
  | nil =>
      cases cards with
      | nil => cases h
      | cons card rest =>
          rcases history_cons pass card rest with ⟨first, hhistory, hcard, hbefore, _, _⟩
          rw [hhistory] at h
          cases h
          exact ⟨[], rest, by rw [hcard]; rfl, rfl, hbefore⟩
  | cons first earlier ih =>
      cases cards with
      | nil => cases h
      | cons card rest =>
          rcases enter_placed pass card with ⟨⟨next, st⟩, henter, _⟩
          simp only [history, henter, List.cons_append] at h
          rcases List.cons_eq_cons.mp h with ⟨rfl, hrest⟩
          rcases ih hrest with ⟨before, after, hcards, hearlier, hentry⟩
          refine ⟨card :: before, after, by rw [hcards]; rfl, ?_, hentry⟩
          simp only [history, henter, hearlier]

theorem history_ended {pass : FirstPass} {cards : List Card} {earlier later : List Entry}
    {entry : Entry} (h : pass.history cards = earlier ++ entry :: later) :
    entry.before.ended = true ↔
      pass.ended = true ∨ ∃ other ∈ earlier, (Statement.classify other.card).1 = .finish := by
  induction earlier generalizing pass cards with
  | nil =>
      cases cards with
      | nil => cases h
      | cons card rest =>
          rcases history_cons pass card rest with ⟨first, hhistory, _, hbefore, _, _⟩
          rw [hhistory] at h
          cases h
          simp [hbefore]
  | cons first earlier ih =>
      cases cards with
      | nil => cases h
      | cons card rest =>
          rcases history_cons pass card rest with ⟨head, hhistory, _, hbefore, hplaced, _⟩
          rw [hhistory, List.cons_append] at h
          rcases List.cons_eq_cons.mp h with ⟨rfl, hrest⟩
          rw [ih hrest, hplaced.ended, hbefore]
          simp [or_assoc]

theorem history_extends (pass : FirstPass) (cards : List Card) :
    ∀ entry ∈ pass.history cards,
      entry.after.scope.Extends (pass.afterAll (pass.history cards)).scope := by
  intro entry hmem
  have h := history_respects (R := fun first second => first.scope.Extends second.scope)
    (fun pass => Scope.Extends.refl pass.scope) Scope.Extends.trans
    (fun _ hplaced => hplaced.extends) pass cards
  exact (h.2 entry hmem).2

theorem history_current {pass : FirstPass} (h : pass.current = none) (cards : List Card) :
    (pass.afterAll (pass.history cards)).current = none := by
  have hrespects := history_respects
    (R := fun first second => first.current = none → second.current = none)
    (fun _ hnone => hnone) (fun hfirst hsecond hnone => hsecond (hfirst hnone))
    (fun _ hplaced _ => FirstPass.Placed.current hplaced) pass cards
  exact hrespects.1 h

end FirstPass

end Ibm704
