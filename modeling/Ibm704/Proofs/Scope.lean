import Ibm704.Assembly.Scope

/-!
# Definitions stand

A symbol table only grows, and what a symbol means never changes once it has a
definition.  A scope adds the anchor, through which a lookup can define a symbol.
So an expression that was evaluated once has the same value ever after, as long
as each of its symbols was found on the way: evaluating it again finds them all
in the table and defines nothing.
-/

namespace Ibm704

/-!
# Tables

A table alone gives meanings to symbols, without lookups that define any.
-/

namespace SymbolTable

theorem lookup?_define (table : SymbolTable) (name : Text) (value : Word) (other : Text) :
    (table.define name value).lookup? other =
      (table.lookup? other).or (if other = name then some value else none) := by
  unfold define
  by_cases hdefined : table.defines name
  · rw [if_pos hdefined]
    by_cases hother : other = name
    · subst hother
      rcases Option.isSome_iff_exists.mp hdefined with ⟨w, hw⟩
      rw [hw, Option.some_or]
    · rw [if_neg hother, Option.or_none]
  · rw [if_neg hdefined]
    have hsingle : List.lookup other [(name, value)] = if other = name then some value else none := by
      by_cases hother : other = name
      · simp [hother]
      · simp [List.lookup_cons, hother, beq_eq_false_iff_ne.mpr hother]
    simp only [lookup?]
    rw [List.lookup_append, hsingle]

theorem lookup?_define_of_some {table : SymbolTable} {name other : Text} {value w : Word}
    (h : table.lookup? other = some w) : (table.define name value).lookup? other = some w := by
  rw [lookup?_define, h, Option.some_or]

theorem names_define (table : SymbolTable) (name : Text) (value : Word) :
    (table.define name value).names =
      if table.defines name then table.names else table.names ++ [name] := by
  unfold define
  split
  · rfl
  · simp [names]

theorem defines_iff_mem_names {table : SymbolTable} {name : Text} :
    table.defines name = true ↔ name ∈ table.names := by
  simp only [defines, lookup?, names, List.lookup_isSome_iff, List.mem_map, beq_iff_eq]
  constructor
  · rintro ⟨entry, hmem, heq⟩
    exact ⟨entry, hmem, heq.symm⟩
  · rintro ⟨entry, hmem, heq⟩
    exact ⟨entry, hmem, heq.symm⟩

def environment (table : SymbolTable) (here : Address) : Expr.Environment Unit where
  here := here
  lookup name _ := (table.lookup? name, ())

def eval (table : SymbolTable) (here : Address) (e : Expr) : Except Expr.EvalError Int64 :=
  (e.eval (table.environment here) ()).1

end SymbolTable

/-!
# Evaluations as state transformers

A relation of states that lookups respect is respected by every evaluation.
-/

namespace Expr

section

variable {σ : Type} {operation : Int64 → Int64 → Except EvalError Int64}
  {left right : Evaluation σ} {s t u : σ}

theorem onBoth_of_error {error : EvalError} (hleft : left s = (.error error, t)) :
    onBoth operation left right s = (.error error, t) := by
  simp only [onBoth, hleft]

theorem onBoth_of_ok_error {a : Int64} {error : EvalError} (hleft : left s = (.ok a, t))
    (hright : right t = (.error error, u)) :
    onBoth operation left right s = (.error error, u) := by
  simp only [onBoth, hleft, hright]

theorem onBoth_of_ok {a b : Int64} (hleft : left s = (.ok a, t)) (hright : right t = (.ok b, u)) :
    onBoth operation left right s = (operation a b, u) := by
  simp only [onBoth, hleft, hright]

theorem onBoth_cases (operation : Int64 → Int64 → Except EvalError Int64)
    (left right : Evaluation σ) (s : σ) :
    (∃ error t, left s = (.error error, t) ∧
      onBoth operation left right s = (.error error, t)) ∨
    (∃ a t error u, left s = (.ok a, t) ∧ right t = (.error error, u) ∧
      onBoth operation left right s = (.error error, u)) ∨
    (∃ a t b u, left s = (.ok a, t) ∧ right t = (.ok b, u) ∧
      onBoth operation left right s = (operation a b, u)) := by
  rcases hleft : left s with ⟨error | a, t⟩
  · exact Or.inl ⟨error, t, rfl, onBoth_of_error hleft⟩
  · rcases hright : right t with ⟨error | b, u⟩
    · exact Or.inr (Or.inl ⟨a, t, error, u, rfl, hright, onBoth_of_ok_error hleft hright⟩)
    · exact Or.inr (Or.inr ⟨a, t, b, u, rfl, hright, onBoth_of_ok hleft hright⟩)

theorem onBoth_respects {R : σ → σ → Prop} (htrans : ∀ {s t u}, R s t → R t u → R s u)
    (hleft : ∀ s, R s (left s).2) (hright : ∀ s, R s (right s).2) (s : σ) :
    R s (onBoth operation left right s).2 := by
  have hfirst := hleft s
  rcases onBoth_cases operation left right s with
    ⟨error, t, hl, hboth⟩ | ⟨a, t, error, u, hl, hr, hboth⟩ | ⟨a, t, b, u, hl, hr, hboth⟩
  · rw [hl] at hfirst
    rw [hboth]
    exact hfirst
  all_goals
    have hsecond := hright t
    rw [hl] at hfirst
    rw [hr] at hsecond
    rw [hboth]
    exact htrans hfirst hsecond

end

theorem eval_respects {σ : Type} {env : Environment σ} {R : σ → σ → Prop}
    (hrefl : ∀ s, R s s) (htrans : ∀ {s t u}, R s t → R t u → R s u)
    (hlookup : ∀ name s, R s (env.lookup name s).2) (e : Expr) :
    ∀ s, R s (e.eval env s).2 := by
  induction e with
  | add left right ihLeft ihRight
  | sub left right ihLeft ihRight
  | mul left right ihLeft ihRight
  | div left right ihLeft ihRight =>
      exact onBoth_respects (R := R) htrans ihLeft ihRight
  | neg operand ih =>
      intro s
      have hoperand := ih s
      simp only [eval]
      split
      · rename_i heq
        rw [heq] at hoperand
        exact hoperand
      · rename_i heq
        rw [heq] at hoperand
        exact hoperand
  | sym name =>
      intro s
      have hname := hlookup name s
      simp only [eval]
      split
      · rename_i heq
        rw [heq] at hname
        exact hname
      · rename_i heq
        rw [heq] at hname
        exact hname
  | int value => exact hrefl
  | here => exact hrefl
  | zero => exact hrefl

end Expr

/-!
# Scopes grow

Definitions stay, and so does an anchor.
-/

namespace Scope

/-- Every definition of the first scope stands in the second, which has an anchor if the first
has one. -/
structure Extends (first second : Scope) : Prop where
  keeps : ∀ {name w}, first.symbols.lookup? name = some w → second.symbols.lookup? name = some w
  anchored : first.anchor.isSome → second.anchor.isSome

namespace Extends

theorem refl (scope : Scope) : scope.Extends scope :=
  ⟨id, id⟩

theorem trans {first second third : Scope} (h : first.Extends second) (h' : second.Extends third) :
    first.Extends third :=
  ⟨fun found => h'.keeps (h.keeps found), fun anchored => h'.anchored (h.anchored anchored)⟩

end Extends

theorem define_extends (scope : Scope) (name : Text) (value : Word) :
    scope.Extends (scope.define name value) := by
  unfold define
  split
  · exact Extends.refl scope
  · exact ⟨SymbolTable.lookup?_define_of_some, id⟩

theorem install_extends (scope : Scope) (address : Address) :
    scope.Extends (scope.install address) := by
  unfold install
  split
  · exact Extends.refl scope
  · exact ⟨id, fun _ => rfl⟩

theorem lookup_extends (scope : Scope) (name : Text) : scope.Extends (scope.lookup name).2 := by
  unfold lookup
  split
  · exact Extends.refl scope
  · split
    · exact ⟨SymbolTable.lookup?_define_of_some, fun _ => rfl⟩
    · exact Extends.refl scope

theorem eval_extends (here : Address) (e : Expr) (scope : Scope) :
    scope.Extends (e.eval (environment here) scope).2 :=
  Expr.eval_respects (R := Extends) Extends.refl Extends.trans
    (fun name scope => lookup_extends scope name) e scope

/-!
# Evaluating again

An expression that was evaluated with success, or after the anchor was set, has the
same outcome in every later scope.
-/

/-- Evaluating the expression in the scope has this outcome and leaves the scope as it is, and the
table alone gives the same outcome. -/
structure Settles (scope : Scope) (here : Address) (e : Expr)
    (outcome : Except Expr.EvalError Int64) : Prop where
  again : e.eval (environment here) scope = (outcome, scope)
  table : scope.symbols.eval here e = outcome

def Repeats (evaluation : Expr.Evaluation Scope)
    (reading : SymbolTable → Expr.Evaluation Unit) : Prop :=
  ∀ ⦃s s' t : Scope⦄ ⦃outcome⦄, evaluation s = (outcome, s') → s'.Extends t →
    ((∃ value, outcome = .ok value) ∨ s.anchor.isSome) →
    evaluation t = (outcome, t) ∧ reading t.symbols () = (outcome, ())

theorem repeats_onBoth {operation : Int64 → Int64 → Except Expr.EvalError Int64}
    {left right : Expr.Evaluation Scope} {readLeft readRight : SymbolTable → Expr.Evaluation Unit}
    (hgrows : ∀ s, Extends s (left s).2) (hgrows' : ∀ s, Extends s (right s).2)
    (hleft : Repeats left readLeft) (hright : Repeats right readRight) :
    Repeats (Expr.onBoth operation left right)
      (fun table => Expr.onBoth operation (readLeft table) (readRight table)) := by
  intro s s' t outcome heval hext hgood
  have hfirst := hgrows s
  rcases Expr.onBoth_cases operation left right s with
    ⟨error, u, hl, hboth⟩ | ⟨a, u, error, v, hl, hr, hboth⟩ | ⟨a, u, b, v, hl, hr, hboth⟩
  · rw [hboth] at heval
    cases heval
    rcases hleft hl hext hgood with ⟨hagain, hread⟩
    exact ⟨Expr.onBoth_of_error hagain, Expr.onBoth_of_error hread⟩
  · rw [hboth] at heval
    cases heval
    have hsecond := hgrows' u
    rw [hl] at hfirst
    rw [hr] at hsecond
    -- The right operand failed, so there is an anchor, and the left operand kept it.
    have hanchor : s.anchor.isSome := by
      rcases hgood with ⟨value, hvalue⟩ | hanchor
      · cases hvalue
      · exact hanchor
    rcases hleft hl (hsecond.trans hext) (Or.inl ⟨a, rfl⟩) with ⟨hagain, hread⟩
    rcases hright hr hext (Or.inr (hfirst.anchored hanchor)) with ⟨hagain', hread'⟩
    exact ⟨Expr.onBoth_of_ok_error hagain hagain', Expr.onBoth_of_ok_error hread hread'⟩
  · rw [hboth] at heval
    cases heval
    have hsecond := hgrows' u
    rw [hr] at hsecond
    rcases hleft hl (hsecond.trans hext) (Or.inl ⟨a, rfl⟩) with ⟨hagain, hread⟩
    rcases hright hr hext (Or.inl ⟨b, rfl⟩) with ⟨hagain', hread'⟩
    exact ⟨Expr.onBoth_of_ok hagain hagain', Expr.onBoth_of_ok hread hread'⟩

theorem lookup_eq_some {scope scope' : Scope} {name : Text} {w : Word}
    (h : scope.lookup name = (some w, scope')) : scope'.symbols.lookup? name = some w := by
  unfold lookup at h
  split at h
  · rename_i value hvalue
    cases h
    exact hvalue
  · rename_i hnone
    split at h
    · cases h
      rw [SymbolTable.lookup?_define, hnone, if_pos rfl, Option.none_or]
    · cases h

theorem lookup_of_some {scope : Scope} {name : Text} {w : Word}
    (h : scope.symbols.lookup? name = some w) : scope.lookup name = (some w, scope) := by
  simp only [lookup, h]

theorem lookup_eq_none {scope scope' : Scope} {name : Text}
    (h : scope.lookup name = (none, scope')) :
    scope.symbols.lookup? name = none ∧ scope.anchor = none ∧ scope' = scope := by
  unfold lookup at h
  split at h
  · cases h
  · rename_i hnone
    split at h
    · cases h
    · rename_i hanchor
      cases h
      exact ⟨hnone, hanchor, rfl⟩

theorem repeats_sym (here : Address) (name : Text) :
    Repeats ((Expr.sym name).eval (environment here))
      (fun table => (Expr.sym name).eval (table.environment here)) := by
  intro s s' t outcome heval hext hgood
  rcases hlookup : s.lookup name with ⟨_ | w, u⟩
  · have hmiss := lookup_eq_none hlookup
    simp only [Expr.eval, environment, hlookup] at heval
    cases heval
    rcases hgood with ⟨value, hvalue⟩ | hanchor
    · cases hvalue
    · rw [hmiss.2.1] at hanchor
      cases hanchor
  · simp only [Expr.eval, environment, hlookup] at heval
    cases heval
    have hfound := hext.keeps (lookup_eq_some hlookup)
    simp only [Expr.eval, environment, SymbolTable.environment, lookup_of_some hfound, hfound,
      and_self]

theorem repeats_neg {operand : Expr} {here : Address}
    (h : Repeats (operand.eval (environment here))
      (fun table => operand.eval (table.environment here))) :
    Repeats (operand.neg.eval (environment here))
      (fun table => operand.neg.eval (table.environment here)) := by
  intro s s' t outcome heval hext hgood
  rcases hoperand : operand.eval (environment here) s with ⟨error | a, u⟩
  · simp only [Expr.eval, hoperand] at heval
    cases heval
    rcases h hoperand hext hgood with ⟨hagain, hread⟩
    simp only [Expr.eval, hagain, hread, and_self]
  · simp only [Expr.eval, hoperand] at heval
    cases heval
    rcases h hoperand hext (Or.inl ⟨a, rfl⟩) with ⟨hagain, hread⟩
    simp only [Expr.eval, hagain, hread, and_self]

theorem repeats_eval (here : Address) (e : Expr) :
    Repeats (e.eval (environment here)) (fun table => e.eval (table.environment here)) := by
  induction e with
  | add left right ihLeft ihRight
  | sub left right ihLeft ihRight
  | mul left right ihLeft ihRight
  | div left right ihLeft ihRight =>
      exact repeats_onBoth (eval_extends here left) (eval_extends here right) ihLeft ihRight
  | neg operand ih => exact repeats_neg ih
  | sym name => exact repeats_sym here name
  | int value
  | here
  | zero =>
      intro s s' t outcome heval _ _
      cases heval
      exact ⟨rfl, rfl⟩

theorem settles_of_eval {here : Address} {e : Expr} {s s' t : Scope}
    {outcome : Except Expr.EvalError Int64} (heval : e.eval (environment here) s = (outcome, s'))
    (hext : s'.Extends t) (hgood : (∃ value, outcome = .ok value) ∨ s.anchor.isSome) :
    t.Settles here e outcome := by
  rcases repeats_eval here e heval hext hgood with ⟨hagain, hread⟩
  exact ⟨hagain, congrArg Prod.fst hread⟩

/-!
# Without an anchor

Lookups change nothing then, and an expression is evaluated by the table alone.
-/

theorem lookup_of_unanchored {scope : Scope} (h : scope.anchor = none) (name : Text) :
    scope.lookup name = (scope.symbols.lookup? name, scope) := by
  unfold lookup
  split
  · rename_i hvalue
    rw [hvalue]
  · rename_i hnone
    rw [h, hnone]

theorem onBoth_reads {operation : Int64 → Int64 → Except Expr.EvalError Int64}
    {left right : Expr.Evaluation Scope} {readLeft readRight : Expr.Evaluation Unit} {s : Scope}
    (hleft : left s = ((readLeft ()).1, s)) (hright : right s = ((readRight ()).1, s)) :
    Expr.onBoth operation left right s =
      ((Expr.onBoth operation readLeft readRight ()).1, s) := by
  rcases hl : readLeft () with ⟨error | a, _⟩
  · rw [hl] at hleft
    rw [Expr.onBoth_of_error hleft, Expr.onBoth_of_error hl]
  · rcases hr : readRight () with ⟨error | b, _⟩
    · rw [hl] at hleft
      rw [hr] at hright
      rw [Expr.onBoth_of_ok_error hleft hright, Expr.onBoth_of_ok_error hl hr]
    · rw [hl] at hleft
      rw [hr] at hright
      rw [Expr.onBoth_of_ok hleft hright, Expr.onBoth_of_ok hl hr]

theorem eval_of_unanchored {scope : Scope} (h : scope.anchor = none) (here : Address) (e : Expr) :
    e.eval (environment here) scope = (scope.symbols.eval here e, scope) := by
  induction e with
  | add left right ihLeft ihRight
  | sub left right ihLeft ihRight
  | mul left right ihLeft ihRight
  | div left right ihLeft ihRight =>
      exact onBoth_reads ihLeft ihRight
  | neg operand ih =>
      rcases hread : operand.eval (scope.symbols.environment here) () with ⟨error | a, _⟩
      · simp only [Expr.eval, SymbolTable.eval, hread] at ih ⊢
        rw [ih]
      · simp only [Expr.eval, SymbolTable.eval, hread] at ih ⊢
        rw [ih]
  | sym name =>
      simp only [Expr.eval, SymbolTable.eval, environment, SymbolTable.environment,
        lookup_of_unanchored h]
      cases scope.symbols.lookup? name with
      | none => rfl
      | some w => rfl
  | int value
  | here
  | zero => rfl

/-!
# Lookups alone

As long as nothing but lookups happens, an expression keeps its outcome, good or bad.
-/

/-- The second scope comes from the first by lookups: it keeps the definitions, and without an
anchor it is the first. -/
structure LeadsTo (first second : Scope) : Prop where
  grows : first.Extends second
  fixed : first.anchor = none → second = first

namespace LeadsTo

theorem refl (scope : Scope) : scope.LeadsTo scope :=
  ⟨Extends.refl scope, fun _ => rfl⟩

theorem trans {first second third : Scope} (h : first.LeadsTo second) (h' : second.LeadsTo third) :
    first.LeadsTo third := by
  refine ⟨h.grows.trans h'.grows, ?_⟩
  intro hanchor
  have hsecond := h.fixed hanchor
  rw [h'.fixed (hsecond ▸ hanchor), hsecond]

end LeadsTo

theorem eval_leadsTo (here : Address) (e : Expr) (scope : Scope) :
    scope.LeadsTo (e.eval (environment here) scope).2 := by
  refine ⟨eval_extends here e scope, ?_⟩
  intro hanchor
  rw [eval_of_unanchored hanchor]

theorem settles_of_leadsTo {here : Address} {e : Expr} {s t : Scope}
    (h : (e.eval (environment here) s).2.LeadsTo t) :
    t.Settles here e (e.eval (environment here) s).1 := by
  cases hanchor : s.anchor with
  | none =>
      have heval := eval_of_unanchored hanchor here e
      rw [heval] at h ⊢
      have ht : t = s := h.fixed hanchor
      rw [ht]
      exact ⟨heval, rfl⟩
  | some address =>
      exact settles_of_eval rfl h.grows (Or.inr (by rw [hanchor]; rfl))

/-!
# Several expressions

An expression of several that had a value keeps it, whatever happens later.
-/

def evalAll (here : Address) (scope : Scope) :
    List Expr → List (Except Expr.EvalError Int64) × Scope
  | [] => ([], scope)
  | e :: rest =>
      let first := e.eval (environment here) scope
      let others := evalAll here first.2 rest
      (first.1 :: others.1, others.2)

theorem evalAll_of_unanchored {scope : Scope} (h : scope.anchor = none) (here : Address)
    (exprs : List Expr) :
    scope.evalAll here exprs = (exprs.map (scope.symbols.eval here), scope) := by
  induction exprs with
  | nil => rfl
  | cons e rest ih => simp only [evalAll, eval_of_unanchored h, ih, List.map_cons]

theorem evalAll_leadsTo (here : Address) (scope : Scope) (exprs : List Expr) :
    scope.LeadsTo (scope.evalAll here exprs).2 := by
  induction exprs generalizing scope with
  | nil => exact LeadsTo.refl scope
  | cons e rest ih => exact (eval_leadsTo here e scope).trans (ih _)

theorem evalAll_settles {here : Address} {scope last : Scope} {exprs : List Expr}
    (h : (scope.evalAll here exprs).2.LeadsTo last) :
    (scope.evalAll here exprs).1 = exprs.map (last.symbols.eval here) ∧
      ∀ e ∈ exprs, last.Settles here e (last.symbols.eval here e) := by
  induction exprs generalizing scope with
  | nil =>
      refine ⟨rfl, ?_⟩
      intro e hmem
      cases hmem
  | cons e rest ih =>
      rcases ih h with ⟨houtcomes, hrest⟩
      have hfirst := settles_of_leadsTo ((evalAll_leadsTo here _ rest).trans h)
      constructor
      · simp only [evalAll, List.map_cons]
        rw [houtcomes, hfirst.table]
      · intro other hmem
        cases hmem with
        | head =>
            rw [hfirst.table]
            exact hfirst
        | tail _ htail => exact hrest other htail

theorem evalAll_settles_of_ok {here : Address} {scope last : Scope} {exprs : List Expr}
    (h : (scope.evalAll here exprs).2.Extends last) :
    ∀ e value, (e, Except.ok value) ∈ exprs.zip (scope.evalAll here exprs).1 →
      last.Settles here e (.ok value) := by
  induction exprs generalizing scope with
  | nil =>
      intro e value hmem
      cases hmem
  | cons e rest ih =>
      intro other value hmem
      have hrest := (evalAll_leadsTo here (e.eval (environment here) scope).2 rest).grows.trans h
      simp only [evalAll, List.zip_cons_cons, List.mem_cons, Prod.mk.injEq] at hmem
      rcases hmem with ⟨hother, hvalue⟩ | hmem
      · subst hother
        rw [hvalue]
        exact settles_of_eval rfl hrest (Or.inl ⟨value, hvalue.symm⟩)
      · exact ih h other value hmem

end Scope

end Ibm704
