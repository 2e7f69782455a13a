import Ibm704.Proofs.Fields
import Ibm704.Proofs.References

/-!
# Lookups that miss

Once the anchor is set, a lookup of a symbol without a definition gives it one.
What an evaluation leaves in the table is therefore the table before it, and after
it the symbols that it missed, at consecutive addresses from the anchor on.  If it
has a value, these are the symbols of the expression that had no definition, in the
order in which they stand there first.
-/

namespace Ibm704

namespace Scope

/-!
# What an anchor hands out

Without an anchor no symbol gets an address.
-/

/-- The symbols get consecutive addresses, from that of the first anchor on; the second anchor is
what comes after them.  Without an anchor nothing is handed out. -/
inductive HandsOut : Option Address → List (Text × Word) → Option Address → Prop where
  | nothing (anchor : Option Address) : HandsOut anchor [] anchor
  | next {address : Address} {name : Text} {log : List (Text × Word)} {last : Option Address}
      (hrest : HandsOut (some (address.add 1)) log last) :
      HandsOut (some address) ((name, Word.ofNat address.val) :: log) last

namespace HandsOut

theorem append {first second third : Option Address} {log log' : List (Text × Word)}
    (h : HandsOut first log second) (h' : HandsOut second log' third) :
    HandsOut first (log ++ log') third := by
  induction h with
  | nothing => exact h'
  | next _ ih => exact next (ih h')

theorem of_none {log : List (Text × Word)} {last : Option Address} (h : HandsOut none log last) :
    log = [] ∧ last = none := by
  cases h
  exact ⟨rfl, rfl⟩

theorem values {log : List (Text × Word)} {last : Option Address} {start : Int}
    (h : HandsOut (some (.ofInt start)) log last) :
    log.map Prod.snd =
      (List.range log.length).map fun i : Nat => Word.ofNat (Address.ofInt (start + i)).val := by
  induction log generalizing start with
  | nil => rfl
  | cons label rest ih =>
      have hnext : (Address.ofInt start).add 1 = .ofInt (start + 1) := by
        simp only [Address.add, Address.ofInt, Address.mk.injEq]
        omega
      cases h with
      | next hrest =>
          rw [hnext] at hrest
          rw [List.map_cons, ih hrest, List.length_cons, List.range_succ_eq_map, List.map_cons,
            List.map_map]
          congr 1
          · rw [Int.natCast_zero, Int.add_zero]
          · apply List.map_congr_left
            intro i _
            show _ = Word.ofNat (Address.ofInt (start + (i + 1 : Nat))).val
            rw [Int.natCast_add, Int.add_assoc, Int.add_comm 1]
            rfl

end HandsOut

/-!
# Scopes and the symbols they gain

Lookups add definitions at the end of the table, so what they added can be read off
the two tables.
-/

structure Gains (first : Scope) (log : List (Text × Word)) (second : Scope) : Prop where
  entries : second.symbols.entries = first.symbols.entries ++ log
  handsOut : HandsOut first.anchor log second.anchor

def missed (first second : Scope) : List (Text × Word) :=
  second.symbols.entries.drop first.symbols.entries.length

namespace Gains

theorem refl (scope : Scope) : scope.Gains [] scope :=
  ⟨(List.append_nil _).symm, HandsOut.nothing _⟩

theorem trans {first second third : Scope} {log log' : List (Text × Word)}
    (h : first.Gains log second) (h' : second.Gains log' third) :
    first.Gains (log ++ log') third := by
  refine ⟨?_, h.handsOut.append h'.handsOut⟩
  rw [h'.entries, h.entries, List.append_assoc]

theorem missed_eq {first second : Scope} {log : List (Text × Word)} (h : first.Gains log second) :
    first.missed second = log := by
  rw [missed, h.entries, List.drop_left]

theorem names {first second : Scope} {log : List (Text × Word)} (h : first.Gains log second) :
    second.symbols.names = first.symbols.names ++ log.map Prod.fst := by
  rw [SymbolTable.names, h.entries, List.map_append]
  rfl

end Gains

theorem lookup_of_miss {scope : Scope} {name : Text} {address : Address}
    (hmiss : scope.symbols.lookup? name = none) (hanchor : scope.anchor = some address) :
    scope.lookup name = (some (Word.ofNat address.val),
      ⟨scope.symbols.define name (Word.ofNat address.val), some (address.add 1)⟩) := by
  simp only [lookup, hmiss, hanchor]

theorem define_gains {scope : Scope} {name : Text} {address : Address}
    (hmiss : scope.symbols.lookup? name = none) (hanchor : scope.anchor = some address) :
    scope.Gains [(name, Word.ofNat address.val)]
      ⟨scope.symbols.define name (Word.ofNat address.val), some (address.add 1)⟩ := by
  constructor
  · simp [SymbolTable.define, SymbolTable.defines, hmiss]
  · rw [hanchor]
    exact HandsOut.next (HandsOut.nothing _)

theorem lookup_gains (scope : Scope) (name : Text) :
    ∃ log, scope.Gains log (scope.lookup name).2 := by
  cases hfound : scope.symbols.lookup? name with
  | some value =>
      rw [lookup_of_some hfound]
      exact ⟨[], Gains.refl scope⟩
  | none =>
      cases hanchor : scope.anchor with
      | none =>
          rw [lookup_of_unanchored hanchor]
          exact ⟨[], Gains.refl scope⟩
      | some address =>
          rw [lookup_of_miss hfound hanchor]
          exact ⟨_, define_gains hfound hanchor⟩

theorem eval_gains (here : Address) (e : Expr) (scope : Scope) :
    ∃ log, scope.Gains log (e.eval (environment here) scope).2 := by
  have hrespects := @Expr.eval_respects Scope (environment here)
    (fun first second => ∃ log, Gains first log second) (fun scope => ⟨[], Gains.refl scope⟩)
    (fun ⟨log, h⟩ ⟨log', h'⟩ => ⟨log ++ log', h.trans h'⟩) (fun name scope => lookup_gains scope name)
  exact hrespects e scope

/-!
# Which symbols are missed

An evaluation that has a value missed those of its symbols that had no definition,
each where it stands first.
-/

def fresh (scope : Scope) (names : List Text) : List Text :=
  (names.filter fun name => !scope.symbols.defines name).eraseDups

theorem Gains.fresh_append {first second : Scope} {log : List (Text × Word)} {names others : List Text}
    (h : first.Gains log second) (hlog : log.map Prod.fst = first.fresh names) :
    first.fresh (names ++ others) = first.fresh names ++ second.fresh others := by
  have hdefined : ∀ name, second.symbols.defines name = true ↔
      first.symbols.defines name = true ∨
        name ∈ names.filter fun name => !first.symbols.defines name := by
    intro name
    rw [SymbolTable.defines_iff_mem_names, SymbolTable.defines_iff_mem_names, h.names, hlog, fresh,
      List.mem_append, List.mem_eraseDups]
  have hrest : (others.filter fun name => !first.symbols.defines name).removeAll
      (names.filter fun name => !first.symbols.defines name) =
        others.filter fun name => !second.symbols.defines name := by
    rw [List.removeAll, List.filter_filter]
    apply List.filter_congr
    intro name _
    rw [Bool.eq_iff_iff]
    have hname := hdefined name
    simp only [Bool.and_eq_true, Bool.not_eq_true', ← Bool.not_eq_true, List.elem_iff] at hname ⊢
    rw [hname, not_or, and_comm]
  rw [fresh, List.filter_append, List.eraseDups_append, hrest]
  rfl

def Misses (evaluation : Expr.Evaluation Scope) (names : List Text) : Prop :=
  ∀ ⦃first second value⦄, evaluation first = (.ok value, second) →
    ∃ log, first.Gains log second ∧ log.map Prod.fst = first.fresh names

theorem misses_onBoth {operation : Int64 → Int64 → Except Expr.EvalError Int64}
    {left right : Expr.Evaluation Scope} {names others : List Text} (hleft : Misses left names)
    (hright : Misses right others) : Misses (Expr.onBoth operation left right) (names ++ others) := by
  intro first third value heval
  rcases Expr.onBoth_cases operation left right first with
    ⟨error, t, hl, hboth⟩ | ⟨a, t, error, u, hl, hr, hboth⟩ | ⟨a, second, b, u, hl, hr, hboth⟩
  · rw [hboth] at heval
    cases heval
  · rw [hboth] at heval
    cases heval
  · rw [hboth] at heval
    rcases Prod.mk.inj heval with ⟨_, rfl⟩
    rcases hleft hl with ⟨log, hgains, hlog⟩
    rcases hright hr with ⟨log', hgains', hlog'⟩
    refine ⟨log ++ log', hgains.trans hgains', ?_⟩
    rw [List.map_append, hlog, hlog', hgains.fresh_append hlog]

theorem misses_sym (here : Address) (name : Text) :
    Misses ((Expr.sym name).eval (environment here)) [name] := by
  intro first second value heval
  cases hfound : first.symbols.lookup? name with
  | some w =>
      simp only [Expr.eval, environment, lookup_of_some hfound] at heval
      cases heval
      exact ⟨[], Gains.refl first, by simp [fresh, SymbolTable.defines, hfound]⟩
  | none =>
      cases hanchor : first.anchor with
      | none =>
          simp only [Expr.eval, environment, lookup_of_unanchored hanchor, hfound] at heval
          cases heval
      | some address =>
          simp only [Expr.eval, environment, lookup_of_miss hfound hanchor] at heval
          cases heval
          refine ⟨_, define_gains hfound hanchor, ?_⟩
          simp [fresh, SymbolTable.defines, hfound, List.eraseDups_cons]

theorem misses_eval (here : Address) (e : Expr) : Misses (e.eval (environment here)) e.references := by
  induction e with
  | add left right ihLeft ihRight
  | sub left right ihLeft ihRight
  | mul left right ihLeft ihRight
  | div left right ihLeft ihRight =>
      rw [Expr.references, Expr.referencesBefore, Expr.references_pair]
      exact misses_onBoth ihLeft ihRight
  | neg operand ih =>
      intro first second value heval
      rcases hoperand : operand.eval (environment here) first with ⟨error | a, u⟩
      · simp only [Expr.eval, hoperand] at heval
        cases heval
      · simp only [Expr.eval, hoperand] at heval
        cases heval
        exact ih hoperand
  | sym name => exact misses_sym here name
  | int value
  | here
  | zero =>
      intro first second value heval
      cases heval
      exact ⟨[], Gains.refl first, rfl⟩

/-!
# With an anchor

Every symbol is found then, and a division by zero is all that can go wrong.
-/

def FindsAll (evaluation : Expr.Evaluation Scope) : Prop :=
  ∀ ⦃scope⦄, scope.anchor.isSome → ∀ name, (evaluation scope).1 ≠ .error (.undefined name)

theorem findsAll_onBoth {operation : Int64 → Int64 → Except Expr.EvalError Int64}
    {left right : Expr.Evaluation Scope} (hgrows : ∀ scope, Extends scope (left scope).2)
    (hleft : FindsAll left) (hright : FindsAll right)
    (hoperation : ∀ a b name, operation a b ≠ .error (.undefined name)) :
    FindsAll (Expr.onBoth operation left right) := by
  intro scope hanchor name
  have hfirst := hleft hanchor name
  have hkept := (hgrows scope).anchored hanchor
  rcases Expr.onBoth_cases operation left right scope with
    ⟨error, t, hl, hboth⟩ | ⟨a, t, error, u, hl, hr, hboth⟩ | ⟨a, t, b, u, hl, hr, hboth⟩
  · rw [hl] at hfirst
    rw [hboth]
    exact hfirst
  · rw [hl] at hkept
    have hsecond := hright hkept name
    rw [hr] at hsecond
    rw [hboth]
    exact hsecond
  · rw [hboth]
    exact hoperation a b name

theorem findsAll_eval (here : Address) (e : Expr) : FindsAll (e.eval (environment here)) := by
  induction e with
  | add left right ihLeft ihRight
  | sub left right ihLeft ihRight
  | mul left right ihLeft ihRight =>
      apply findsAll_onBoth (eval_extends here left) ihLeft ihRight
      intro a b name herror
      cases herror
  | div left right ihLeft ihRight =>
      apply findsAll_onBoth (eval_extends here left) ihLeft ihRight
      intro a b name herror
      unfold Expr.quotient at herror
      split at herror <;> cases herror
  | neg operand ih =>
      intro scope hanchor name
      have hoperand := ih hanchor name
      rcases heval : operand.eval (environment here) scope with ⟨error | a, u⟩
      · rw [heval] at hoperand
        simp only [Expr.eval, heval]
        exact hoperand
      · simp only [Expr.eval, heval]
        intro herror
        cases herror
  | sym symbol =>
      intro scope hanchor name
      rcases hlookup : scope.lookup symbol with ⟨_ | w, u⟩
      · rw [(lookup_eq_none hlookup).2.1] at hanchor
        cases hanchor
      · simp only [Expr.eval, environment, hlookup]
        intro herror
        cases herror
  | int value
  | here
  | zero =>
      intro scope _ name herror
      cases herror

end Scope

/-!
# Trials

A trial is an operand that is evaluated at a location in a scope.  Operands one after
another are trials, each in the scope that the one before left.
-/

structure Trial where
  here : Address
  scope : Scope
  expr : Expr

namespace Trial

def outcome (trial : Trial) : Except Expr.EvalError Int64 :=
  (trial.expr.eval (Scope.environment trial.here) trial.scope).1

def after (trial : Trial) : Scope :=
  (trial.expr.eval (Scope.environment trial.here) trial.scope).2

def missed (trial : Trial) : List (Text × Word) :=
  trial.scope.missed trial.after

theorem gains (trial : Trial) : trial.scope.Gains trial.missed trial.after := by
  rcases Scope.eval_gains trial.here trial.expr trial.scope with ⟨log, hgains⟩
  have hlog : trial.missed = log := hgains.missed_eq
  rw [hlog]
  exact hgains

theorem missed_of_ok {trial : Trial} {value : Int64} (h : trial.outcome = .ok value) :
    trial.missed.map Prod.fst = trial.scope.fresh trial.expr.references := by
  have heval : trial.expr.eval (Scope.environment trial.here) trial.scope =
      (.ok value, trial.after) := by
    rw [← h]
    rfl
  rcases Scope.misses_eval trial.here trial.expr heval with ⟨log, hgains, hlog⟩
  rw [missed, hgains.missed_eq, hlog]

end Trial

namespace Scope

def trials (here : Address) (scope : Scope) : List Expr → List Trial
  | [] => []
  | e :: rest => ⟨here, scope, e⟩ :: trials here (e.eval (environment here) scope).2 rest

theorem trials_gains (here : Address) (scope : Scope) (exprs : List Expr) :
    scope.Gains ((scope.trials here exprs).flatMap Trial.missed) (scope.evalAll here exprs).2 := by
  induction exprs generalizing scope with
  | nil => exact Gains.refl scope
  | cons e rest ih => exact (Trial.gains ⟨here, scope, e⟩).trans (ih _)

theorem evalAll_found {here : Address} {scope : Scope} {exprs : List Expr}
    (hanchor : scope.anchor.isSome) {outcome : Except Expr.EvalError Int64}
    (hmem : outcome ∈ (scope.evalAll here exprs).1) (name : Text) :
    outcome ≠ .error (.undefined name) := by
  induction exprs generalizing scope with
  | nil => cases hmem
  | cons e rest ih =>
      cases hmem with
      | head => exact findsAll_eval here e hanchor name
      | tail _ htail => exact ih ((eval_extends here e scope).anchored hanchor) htail

end Scope

end Ibm704
