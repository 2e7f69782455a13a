import Mathlib.Logic.Relation
import Ibm704.Proofs.Scope

/-!
# Symbols that an expression needs

An evaluation changes the state of its environment by lookups alone, so what holds
whatever is looked up holds throughout.  An expression without a division has a
value as soon as its symbols have one.  If some have none, the evaluation stops at
the first of them, from left to right.
-/

namespace Ibm704

namespace Expr

/-!
# Environments as they are looked up in

A lookup may change the state, so names are bound if they have their values whatever
else is looked up before them.
-/

namespace Environment

variable {σ : Type}

def Leads (env : Environment σ) : σ → σ → Prop :=
  Relation.ReflTransGen fun s t => ∃ name, t = (env.lookup name s).2

/-- The names have these values, whatever else is looked up before them. -/
def Binds (env : Environment σ) (s : σ) (values : Text → Word) (names : List Text) : Prop :=
  ∀ name ∈ names, ∀ t, env.Leads s t → (env.lookup name t).1 = some (values name)

theorem Binds.mono {env : Environment σ} {s : σ} {values : Text → Word} {names others : List Text}
    (h : env.Binds s values names) (hsub : others ⊆ names) : env.Binds s values others :=
  fun name hmem => h name (hsub hmem)

end Environment

theorem eval_leads {σ : Type} (env : Environment σ) (e : Expr) (s : σ) :
    env.Leads s (e.eval env s).2 :=
  eval_respects (R := env.Leads) (fun _ => .refl) (fun h h' => h.trans h')
    (fun name _ => .single ⟨name, rfl⟩) e s

/-!
# References

Without a division, the first symbol that has no definition is all that can go wrong.
-/

theorem references_pair (left right : Expr) :
    left.referencesBefore (right.referencesBefore []) = left.references ++ right.references :=
  referencesBefore_eq left right.references

def undivided : Expr → Bool
  | add left right => left.undivided && right.undivided
  | sub left right => left.undivided && right.undivided
  | mul left right => left.undivided && right.undivided
  | div _ _ => false
  | neg operand => operand.undivided
  | int _ => true
  | sym _ => true
  | here => true
  | zero => true

def failure? : Except EvalError Int64 → Option EvalError
  | .ok _ => none
  | .error error => some error

theorem onBoth_failure? {σ : Type} {operation : Int64 → Int64 → Int64}
    {left right : Evaluation σ} {s : σ} {rest : Option EvalError}
    (hright : failure? (right (left s).2).1 = rest) :
    failure? (onBoth (fun a b => .ok (operation a b)) left right s).1 =
      (failure? (left s).1).or rest := by
  rcases onBoth_cases (fun a b => .ok (operation a b)) left right s with
    ⟨error, t, hl, hboth⟩ | ⟨a, t, error, u, hl, hr, hboth⟩ | ⟨a, t, b, u, hl, hr, hboth⟩
  · rw [hboth, hl]
    rfl
  · rw [hl, hr] at hright
    rw [hboth, hl, ← hright]
    rfl
  · rw [hl, hr] at hright
    rw [hboth, hl, ← hright]
    rfl

section

variable (env : Environment Unit)

def firstUndefined? (e : Expr) : Option Text :=
  e.references.find? fun name => (env.lookup name ()).1.isNone

theorem find?_pair (left right : Expr) (p : Text → Bool) :
    (left.referencesBefore (right.referencesBefore [])).find? p =
      (left.references.find? p).or (right.references.find? p) := by
  rw [references_pair, List.find?_append]

theorem eval_failure?_of_undivided {e : Expr} (h : e.undivided = true) :
    failure? (e.eval env ()).1 = (e.firstUndefined? env).map .undefined := by
  induction e with
  | add left right ihLeft ihRight
  | sub left right ihLeft ihRight
  | mul left right ihLeft ihRight =>
      rcases Bool.and_eq_true_iff.mp h with ⟨hleft, hright⟩
      rw [eval, onBoth_failure? (ihRight hright), ihLeft hleft, ← Option.map_or]
      exact congrArg (Option.map EvalError.undefined) (find?_pair left right _).symm
  | div left right => cases h
  | neg operand ih =>
      have hkeeps : failure? (operand.neg.eval env ()).1 = failure? (operand.eval env ()).1 := by
        rcases hvalue : operand.eval env () with ⟨error | a, s⟩
        · simp only [eval, hvalue]
        · simp only [eval, hvalue, failure?]
      rw [hkeeps]
      exact ih h
  | sym name =>
      cases hlookup : env.lookup name () with
      | mk found s =>
          cases found with
          | none => simp [eval, hlookup, failure?, firstUndefined?, references, referencesBefore]
          | some w => simp [eval, hlookup, failure?, firstUndefined?, references, referencesBefore]
  | int value
  | here
  | zero => rfl

end

end Expr

/-!
# Symbols that a scope defines

Symbols that are defined are bound, with an anchor or without one.
-/

namespace Scope

theorem extends_of_leads {here : Address} {scope later : Scope}
    (h : (environment here).Leads scope later) : scope.Extends later := by
  induction h with
  | refl => exact Extends.refl scope
  | tail _ hstep ih =>
      rcases hstep with ⟨name, rfl⟩
      exact ih.trans (lookup_extends _ name)

theorem binds_of_defined {here : Address} {scope : Scope} {values : Text → Word}
    {names : List Text}
    (h : ∀ name ∈ names, scope.symbols.lookup? name = some (values name)) :
    (environment here).Binds scope values names := by
  intro name hmem later hlater
  have hfound := (extends_of_leads hlater).keeps (h name hmem)
  exact congrArg Prod.fst (lookup_of_some hfound)

end Scope

end Ibm704
