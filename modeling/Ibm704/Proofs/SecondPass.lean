import Mathlib.Data.List.Forall2
import Ibm704.Assembly.SecondPass
import Ibm704.Proofs.Scope
import Ibm704.Proofs.Statement

/-!
# What the second pass does with a statement

A statement that came through the first pass can always be given its words.
Which words these are is listed once, case by case.  The statement keeps its
place, and nothing but lookups happens to the scope, so every operand has the
value that it still has when the last statement is done.
-/

namespace Ibm704

namespace Statement

def beforeWords (st : Statement) : Statement :=
  { st with reports := [], phase := .constructed, words := none }

structure Ready (st : Statement) : Prop extends Checked st where
  phase : st.phase = .allocated
  period : st.kind = .repetition → 0 < st.size → 0 < st.period

theorem resolveAll_eq (st : Statement) (current : Option CardPosition) (here : Address)
    (scope : Scope) (exprs : List Expr) :
    (st.resolveAll current here scope exprs).numbers =
        (scope.evalAll here exprs).1.map outcomeNumber ∧
      (st.resolveAll current here scope exprs).scope = (scope.evalAll here exprs).2 := by
  induction exprs generalizing st scope with
  | nil => exact ⟨rfl, rfl⟩
  | cons e rest ih =>
      rcases ih (st.resolve current here scope e).statement (st.resolve current here scope e).scope with
        ⟨hnumbers, hscope⟩
      simp only [resolveAll, Scope.evalAll, List.map_cons]
      rw [hnumbers, hscope, resolve_number, resolve_scope]
      exact ⟨rfl, rfl⟩

theorem resolveAll_reports {st : Statement} {current : Option CardPosition}
    (hwork : st.AtWork current) (here : Address) (scope : Scope) (exprs : List Expr) :
    (st.resolveAll current here scope exprs).statement.reports =
      st.reports ++ st.failures (scope.evalAll here exprs).1 := by
  induction exprs generalizing st scope with
  | nil => exact (List.append_nil _).symm
  | cons e rest ih =>
      have hfirst := resolve_reports st current here scope e hwork
      have hsame : (st.resolve current here scope e).statement.failures = st.failures :=
        resolve_part st current here scope e failures fun _ _ => rfl
      have hstill : (st.resolve current here scope e).statement.AtWork current := by
        rw [AtWork, resolve_part st current here scope e card fun _ _ => rfl]
        exact hwork
      simp only [resolveAll, Scope.evalAll]
      rw [ih hstill, hfirst, hsame, resolve_scope, List.append_assoc]
      congr 1
      exact List.filterMap_append.symm

theorem resolveAll_part {α : Type} (st : Statement) (current : Option CardPosition) (here : Address)
    (scope : Scope) (exprs : List Expr) (part : Statement → α)
    (hpart : ∀ (st : Statement) reports, part { st with reports := reports } = part st) :
    part (st.resolveAll current here scope exprs).statement = part st := by
  induction exprs generalizing st scope with
  | nil => rfl
  | cons e rest ih => exact (ih _ _).trans (resolve_part st current here scope e part hpart)

theorem resolveAll_beforeWords (st : Statement) (current : Option CardPosition) (here : Address)
    (scope : Scope) (exprs : List Expr) :
    (st.resolveAll current here scope exprs).statement.beforeWords = st.beforeWords :=
  st.resolveAll_part current here scope exprs beforeWords fun _ _ => rfl

end Statement

namespace SecondPass

/-!
# Statements

A statement that is ready and at work can be given its words.  `Given` has one
constructor for each thing that the words can come from.
-/

/-- All that the second pass can make of a statement: its words, and the scope after them. -/
inductive Given (pass : SecondPass) (st : Statement) : List Word → Scope → Prop where
  | nothing
      (hkind : st.blocked = true ∨ st.kind = .blockStart ∨ st.kind = .blockEnd ∨
        st.kind = .equate ∨ st.kind = .synonym ∨ st.kind = .origin ∨ st.kind = .anchor ∨
        st.kind = .heading ∨ st.kind = .library ∨ st.kind = .full ∨ st.kind = .absolute ∨
        st.kind = .remark) :
      Given pass st [] pass.scope
  | data (hfree : st.blocked = false)
      (hkind : st.kind = .characters ∨ st.kind = .decimal ∨ st.kind = .octal) :
      Given pass st st.data pass.scope
  | copies (hfree : st.blocked = false) (hkind : st.kind = .repetition) :
      Given pass st
        ((List.range st.size).map fun i =>
          pass.wordAt (st.base.add ((i % st.period : Nat) - (st.period : Int))))
        pass.scope
  | instruction {order : Order} (hfree : st.blocked = false) (hkind : st.kind = .instruction)
      (hmnemonic : Order.ofMnemonic? st.mnemonic = some order) (horder : st.order = some order) :
      Given pass st
        [orderWord order.template
          ((pass.scope.evalAll st.base st.exprs).1.map Statement.outcomeNumber)]
        (pass.scope.evalAll st.base st.exprs).2
  | finish (hfree : st.blocked = false) (hkind : st.kind = .finish) :
      Given pass st
        [orderWord transferTemplate
          ((pass.scope.evalAll st.base st.exprs).1.map Statement.outcomeNumber)]
        (pass.scope.evalAll st.base st.exprs).2

def failures (pass : SecondPass) (st : Statement) : List Report :=
  if st.blocked = false ∧ st.kind.waits then
    st.failures (pass.scope.evalAll st.base st.exprs).1
  else
    []

structure Assembled (pass : SecondPass) (st : Statement) (result : SecondPass × Statement) :
    Prop where
  kept : result.2.beforeWords = st.beforeWords
  given : Given pass result.2 result.2.emitted result.1.scope
  left : result.1.words = leave pass.words result.2.base result.2.emitted
  words : result.2.words = some result.2.emitted
  reports : result.2.reports = st.reports ++ pass.failures st

theorem operandWord_eq {pass : SecondPass} {st : Statement} {template : Word} {most : Nat}
    (hleast : 1 ≤ st.exprs.length) (hmost : st.exprs.length ≤ most) :
    pass.operandWord st template most =
      .ok ([orderWord template
          ((pass.scope.evalAll st.base st.exprs).1.map Statement.outcomeNumber)],
        (st.resolveAll pass.current st.base pass.scope st.exprs).statement,
        (pass.scope.evalAll st.base st.exprs).2) := by
  have hfirst : st.operandAt 0 = .ok (st.exprs[0]) := by
    simp only [Statement.operandAt, List.getElem?_eq_getElem hleast]
  rcases Statement.resolveAll_eq st pass.current st.base pass.scope st.exprs with ⟨hnumbers, hscope⟩
  simp only [operandWord, hfirst, bind, Except.bind, pure, Except.pure,
    List.take_of_length_le hmost, hnumbers, hscope]

theorem wordsOf_given {pass : SecondPass} {st : Statement} (hwork : st.AtWork pass.current)
    (hchecked : st.Checked)
    (hperiod : st.kind = .repetition → 0 < st.size → 0 < st.period) (hfree : st.blocked = false) :
    ∃ words st' scope, pass.wordsOf st = .ok (words, st', scope) ∧ Given pass st words scope ∧
      st'.beforeWords = st.beforeWords ∧ st'.reports = st.reports ++ pass.failures st := by
  have hlate : st.kind.waits = true → (st.resolveAll pass.current st.base pass.scope st.exprs).statement.reports =
      st.reports ++ pass.failures st := by
    intro hwaits
    rw [failures, if_pos ⟨hfree, hwaits⟩]
    exact Statement.resolveAll_reports hwork _ _ _
  have hnone : st.kind.waits = false → st.reports = st.reports ++ pass.failures st := by
    intro hwaits
    rw [failures, if_neg (by simp [hwaits]), List.append_nil]
  have hleast := hchecked.least
  have hmost := hchecked.most
  unfold wordsOf
  cases h : st.kind <;> rw [h] at hleast hmost
  case instruction =>
    rcases hchecked.order h hfree with ⟨order, hmnemonic, horder⟩
    refine ⟨_, _, _, operandWord_eq hleast hmost, ?_, Statement.resolveAll_beforeWords _ _ _ _ _,
      hlate (by rw [h]; rfl)⟩
    rw [horder]
    exact Given.instruction hfree h hmnemonic horder
  case finish =>
    exact ⟨_, _, _, operandWord_eq hleast hmost, Given.finish hfree h,
      Statement.resolveAll_beforeWords _ _ _ _ _, hlate (by rw [h]; rfl)⟩
  case characters | decimal | octal =>
    exact ⟨_, _, _, rfl, Given.data hfree (by simp [h]), rfl, hnone (by rw [h]; rfl)⟩
  case repetition =>
    have hcopies : ¬(0 < st.size ∧ st.period = 0) := by
      rintro ⟨hsize, hzero⟩
      have hpositive := hperiod h hsize
      omega
    refine ⟨_, st, pass.scope, ?_, Given.copies hfree h, rfl, hnone (by rw [h]; rfl)⟩
    simp only [copies, if_neg hcopies]
    rfl
  all_goals exact ⟨_, _, _, rfl, Given.nothing (by simp [h]), rfl, hnone (by rw [h]; rfl)⟩

theorem Given.of_kept {pass : SecondPass} {st st' : Statement} {words : List Word}
    {scope : Scope} (h : Given pass st words scope) (hkept : st'.beforeWords = st.beforeWords) :
    Given pass st' words scope := by
  have hst : st =
      { st' with reports := st.reports, phase := st.phase, words := st.words } := by
    show { st.beforeWords with reports := st.reports, phase := st.phase, words := st.words } = _
    rw [← hkept]
    rfl
  rw [hst] at h
  cases h with
  | nothing hkind => exact Given.nothing hkind
  | data hfree hkind => exact Given.data hfree hkind
  | copies hfree hkind => exact Given.copies hfree hkind
  | instruction hfree hkind hmnemonic horder =>
      exact Given.instruction hfree hkind hmnemonic horder
  | finish hfree hkind => exact Given.finish hfree hkind

theorem assemble_eq (pass : SecondPass) {st : Statement} (h : st.phase = .allocated) :
    pass.assemble st =
      if st.blocked then
        .ok (pass, { st with phase := .assembled, words := some [] })
      else do
        let (words, st', scope) ← pass.wordsOf { st with phase := .assembled }
        return ({ pass with scope := scope, words := leave pass.words st'.base words },
          { st' with words := some words }) := by
  unfold assemble Statement.advance
  rw [if_pos h]
  rfl

theorem wordsOf_resolves {pass : SecondPass} {st st' : Statement} {words : List Word}
    {scope : Scope} (h : pass.wordsOf st = .ok (words, st', scope)) :
    ∃ exprs, st' = (st.resolveAll pass.current st.base pass.scope exprs).statement ∧
      scope = (st.resolveAll pass.current st.base pass.scope exprs).scope := by
  have hoperand : ∀ {template most}, pass.operandWord st template most = .ok (words, st', scope) →
      ∃ exprs, st' = (st.resolveAll pass.current st.base pass.scope exprs).statement ∧
        scope = (st.resolveAll pass.current st.base pass.scope exprs).scope := by
    intro template most hword
    unfold operandWord Statement.operandAt at hword
    split at hword
    · cases hword
      exact ⟨_, rfl, rfl⟩
    · cases hword
  unfold wordsOf at h
  split at h
  · exact hoperand h
  · cases h; exact ⟨[], rfl, rfl⟩
  · cases h; exact ⟨[], rfl, rfl⟩
  · cases h; exact ⟨[], rfl, rfl⟩
  · cases hcopies : pass.copies st with
    | ok copied => rw [hcopies] at h; cases h; exact ⟨[], rfl, rfl⟩
    | error fault => rw [hcopies] at h; cases h
  · exact hoperand h
  · cases h; exact ⟨[], rfl, rfl⟩

theorem assemble_resolves {pass next : SecondPass} {st st' : Statement}
    (h : pass.assemble st = .ok (next, st')) :
    ∃ exprs words operands,
      operands =
          Statement.resolveAll { st with phase := .assembled } pass.current st.base pass.scope exprs ∧
        st' = { operands.statement with words := some words } ∧ next.scope = operands.scope ∧
        next.current = pass.current := by
  by_cases hphase : st.phase = .allocated
  · rw [assemble_eq pass hphase] at h
    by_cases hblocked : st.blocked = true
    · rw [if_pos hblocked] at h
      cases h
      exact ⟨[], [], _, rfl, rfl, rfl, rfl⟩
    · rw [if_neg hblocked] at h
      cases hwords : pass.wordsOf { st with phase := .assembled } with
      | ok result =>
          rcases result with ⟨words, given, scope⟩
          rcases wordsOf_resolves hwords with ⟨exprs, rfl, rfl⟩
          rw [hwords] at h
          cases h
          exact ⟨exprs, words, _, rfl, rfl, rfl, rfl⟩
      | error fault =>
          rw [hwords] at h
          cases h
  · rw [assemble, Statement.advance, if_neg hphase] at h
    cases h

theorem assemble_kept {pass next : SecondPass} {st st' : Statement}
    (h : pass.assemble st = .ok (next, st')) : st'.beforeWords = st.beforeWords := by
  rcases assemble_resolves h with ⟨exprs, words, operands, rfl, rfl, _⟩
  exact Statement.resolveAll_beforeWords _ _ _ _ exprs

theorem assemble_atWork {pass next : SecondPass} {st st' : Statement}
    (h : pass.assemble st = .ok (next, st')) (hwork : st.AtWork pass.current) :
    st'.AtWork next.current := by
  rcases assemble_resolves h with ⟨_, _, _, _, _, _, hcurrent⟩
  have hcard : st'.card = st.card :=
    Statement.of_frame Statement.beforeWords Statement.card (fun _ => rfl) (assemble_kept h)
  rw [Statement.AtWork, hcurrent, hwork, hcard]

theorem assemble_assembled {pass : SecondPass} {st : Statement} (hwork : st.AtWork pass.current)
    (hready : st.Ready) :
    ∃ result, pass.assemble st = .ok result ∧ Assembled pass st result := by
  rw [assemble_eq pass hready.phase]
  by_cases hblocked : st.blocked = true
  · rw [if_pos hblocked]
    refine ⟨_, rfl, rfl, Given.nothing (Or.inl hblocked), rfl, rfl, ?_⟩
    rw [failures, if_neg (by simp [hblocked]), List.append_nil]
  · rw [if_neg hblocked]
    have hchecked : Statement.Checked { st with phase := .assembled } :=
      ⟨hready.least, hready.most, hready.order, hready.blockable⟩
    have hstill : Statement.AtWork { st with phase := .assembled } pass.current := hwork
    rcases wordsOf_given hstill hchecked hready.period (Bool.eq_false_iff.mpr hblocked) with
      ⟨words, st', scope, hwords, hgiven, hkept, hreports⟩
    rw [hwords]
    exact ⟨_, rfl, hkept, hgiven.of_kept hkept, rfl, rfl, hreports⟩

theorem Given.of_instruction {pass : SecondPass} {st : Statement} {words : List Word}
    {scope : Scope} (h : Given pass st words scope) (hkind : st.kind = .instruction)
    (hfree : st.blocked = false) :
    ∃ order, Order.ofMnemonic? st.mnemonic = some order ∧
      words = [orderWord order.template
        ((pass.scope.evalAll st.base st.exprs).1.map Statement.outcomeNumber)] ∧
      scope = (pass.scope.evalAll st.base st.exprs).2 := by
  cases h with
  | instruction _ _ hmnemonic => exact ⟨_, hmnemonic, rfl, rfl⟩
  | nothing hother => simp [hkind, hfree] at hother
  | data _ hother => simp [hkind] at hother
  | copies _ hother => simp [hkind] at hother
  | finish _ hother => simp [hkind] at hother

theorem Given.of_finish {pass : SecondPass} {st : Statement} {words : List Word}
    {scope : Scope} (h : Given pass st words scope) (hkind : st.kind = .finish)
    (hfree : st.blocked = false) :
    words = [orderWord transferTemplate
        ((pass.scope.evalAll st.base st.exprs).1.map Statement.outcomeNumber)] ∧
      scope = (pass.scope.evalAll st.base st.exprs).2 := by
  cases h with
  | finish => exact ⟨rfl, rfl⟩
  | nothing hother => simp [hkind, hfree] at hother
  | data _ hother => simp [hkind] at hother
  | copies _ hother => simp [hkind] at hother
  | instruction _ hother => simp [hkind] at hother

theorem transferTemplate_eq :
    ∃ order, Order.ofMnemonic? (.ofString "TRA") = some order ∧
      transferTemplate = order.template := by
  have hsome : (Order.ofMnemonic? (.ofString "TRA")).isSome := by decide
  rcases Option.isSome_iff_exists.mp hsome with ⟨order, horder⟩
  refine ⟨order, horder, ?_⟩
  unfold transferTemplate
  rw [horder]
  rfl

/-!
# Whole runs

Each statement is at work when it is given its words, and none is when the last one
has them.
-/

inductive Run : SecondPass → List Statement → SecondPass → List Statement → Prop where
  | nil (pass : SecondPass) : Run pass [] pass []
  | cons {pass next last : SecondPass} {st st' : Statement} {rest rest' : List Statement}
      (hfirst : Assembled pass st (next, st')) (hrest : Run next rest last rest') :
      Run pass (st :: rest) last (st' :: rest')

theorem takeUp_atWork (pass : SecondPass) (st : Statement) : st.AtWork (pass.takeUp st).current :=
  rfl

theorem assembleAll_cons {pass next : SecondPass} {st st' : Statement}
    (h : (pass.takeUp st).assemble st = .ok (next, st')) (rest : List Statement) :
    pass.assembleAll (st :: rest) =
      { next.assembleAll rest with statements := st' :: (next.assembleAll rest).statements } := by
  rw [assembleAll, h]

/-- The state when the first `k` statements have been given their words. -/
def stateAt (pass : SecondPass) (sts : List Statement) (k : Nat) : SecondPass :=
  (pass.assembleAll (sts.take k)).pass

theorem stateAt_cons {pass next : SecondPass} {st st' : Statement}
    (h : (pass.takeUp st).assemble st = .ok (next, st')) (rest : List Statement) (k : Nat) :
    pass.stateAt (st :: rest) (k + 1) = next.stateAt rest k := by
  rw [stateAt, List.take_succ_cons, assembleAll_cons h]
  rfl

theorem assembleAll_step {pass last : SecondPass} {sts sts' : List Statement}
    (h : pass.assembleAll sts = ⟨last, sts', none⟩) {k : Nat} {st : Statement}
    (hst : sts[k]? = some st) :
    ∃ given st', sts'[k]? = some st' ∧
      ((pass.stateAt sts k).takeUp st).assemble st = .ok (given, st') ∧
      pass.stateAt sts (k + 1) = given.setDown := by
  induction sts generalizing pass sts' k with
  | nil => cases hst
  | cons first rest ih =>
      cases hfirst : (pass.takeUp first).assemble first with
      | error fault =>
          rw [assembleAll, hfirst] at h
          cases h
      | ok result =>
          rcases result with ⟨next, first'⟩
          cases hrest : next.assembleAll rest with
          | mk final others fault =>
              rw [assembleAll_cons hfirst, hrest] at h
              cases h
              cases k with
              | zero =>
                  cases hst
                  exact ⟨next, first', rfl, hfirst, stateAt_cons hfirst rest 0⟩
              | succ k =>
                  rw [stateAt_cons hfirst, stateAt_cons hfirst]
                  exact ih hrest hst

theorem Given.withCurrent {pass : SecondPass} {st : Statement} {words : List Word} {scope : Scope}
    (h : Given pass st words scope) (current : Option CardPosition) :
    Given { pass with current := current } st words scope := by
  cases h with
  | nothing hkind => exact Given.nothing hkind
  | data hfree hkind => exact Given.data hfree hkind
  | copies hfree hkind => exact Given.copies hfree hkind
  | instruction hfree hkind hmnemonic horder =>
      exact Given.instruction hfree hkind hmnemonic horder
  | finish hfree hkind => exact Given.finish hfree hkind

theorem Assembled.withCurrent {pass : SecondPass} {st : Statement} {result : SecondPass × Statement}
    (h : Assembled pass st result) (before after : Option CardPosition) :
    Assembled { pass with current := before } st ({ result.1 with current := after }, result.2) :=
  ⟨h.kept, h.given.withCurrent before, h.left, h.words, h.reports⟩

theorem assembleAll_run (pass : SecondPass) {sts : List Statement} (h : ∀ st ∈ sts, st.Ready) :
    ∃ (last : SecondPass) (sts' : List Statement), pass.assembleAll sts = ⟨last.setDown, sts', none⟩ ∧
      Run pass.setDown sts last.setDown sts' := by
  induction sts generalizing pass with
  | nil => exact ⟨pass, [], rfl, Run.nil pass.setDown⟩
  | cons st rest ih =>
      rcases assemble_assembled (pass.takeUp_atWork st) (h st List.mem_cons_self) with
        ⟨⟨next, st'⟩, hassemble, hfirst⟩
      rcases ih next (fun other hmem => h other (List.mem_cons_of_mem st hmem)) with
        ⟨last, rest', hall, hrest⟩
      refine ⟨last, st' :: rest', ?_, Run.cons (hfirst.withCurrent none none) hrest⟩
      rw [assembleAll_cons hassemble, hall]

theorem Given.leadsTo {pass : SecondPass} {st : Statement} {words : List Word} {scope : Scope}
    (h : Given pass st words scope) : pass.scope.LeadsTo scope := by
  cases h with
  | nothing => exact Scope.LeadsTo.refl _
  | data => exact Scope.LeadsTo.refl _
  | copies => exact Scope.LeadsTo.refl _
  | instruction => exact Scope.evalAll_leadsTo _ _ _
  | finish => exact Scope.evalAll_leadsTo _ _ _

theorem Run.leadsTo {pass last : SecondPass} {sts sts' : List Statement}
    (h : Run pass sts last sts') : pass.scope.LeadsTo last.scope := by
  induction h with
  | nil pass => exact Scope.LeadsTo.refl _
  | cons hfirst _ ih => exact hfirst.given.leadsTo.trans ih

theorem Run.each {pass last : SecondPass} {sts sts' : List Statement}
    (h : Run pass sts last sts') :
    List.Forall₂ (fun st st' => ∃ before after : SecondPass,
      Assembled before st (after, st') ∧ after.scope.LeadsTo last.scope) sts sts' := by
  induction h with
  | nil pass => exact List.Forall₂.nil
  | cons hfirst hrest ih => exact List.Forall₂.cons ⟨_, _, hfirst, hrest.leadsTo⟩ ih

end SecondPass

end Ibm704
