import Ibm704.Proofs.References
import Ibm704.Proofs.SignedWords

/-!
# Symbols that stand for expressions

A symbol that is equated to an expression has its value, which a word holds with a
sign and 35 bits.  In another expression the symbol can be replaced by what it stands
for: a value of 35 bits comes through whole, and the address is the same however wide
the value is, as long as nothing is divided.

The replacement is evaluated where the symbol stood, after other lookups.  So it must
find its symbols, and not define them, or an anchor gives them other addresses there.
-/

namespace Ibm704

namespace Expr

def substitute : Expr → Text → Expr → Expr
  | add left right, name, e => add (left.substitute name e) (right.substitute name e)
  | sub left right, name, e => sub (left.substitute name e) (right.substitute name e)
  | mul left right, name, e => mul (left.substitute name e) (right.substitute name e)
  | div left right, name, e => div (left.substitute name e) (right.substitute name e)
  | neg operand, name, e => neg (operand.substitute name e)
  | int value, _, _ => int value
  | sym other, name, e => if other = name then e else sym other
  | here, _, _ => here
  | zero, _, _ => zero

section

variable {σ : Type} {env : Environment σ}

/-!
# What was found is found again

In a steady environment a symbol keeps its value once it was found, so an evaluation
with a value can be repeated.
-/

def Environment.Steady (env : Environment σ) : Prop :=
  ∀ ⦃name s w t⦄, env.lookup name s = (some w, t) → ∀ ⦃u⦄, env.Leads t u →
    env.lookup name u = (some w, u)

theorem Environment.steady_of_fixed (h : ∀ name s, (env.lookup name s).2 = s) : env.Steady := by
  have hleads : ∀ {s t}, env.Leads s t → t = s := by
    intro s t hst
    induction hst with
    | refl => rfl
    | tail _ hstep ih =>
        rcases hstep with ⟨name, rfl⟩
        rw [h, ih]
  intro name s w t hfound u hu
  obtain rfl : s = t := by rw [← h name s, hfound]
  rw [hleads hu, hfound]

def Environment.Stands (env : Environment σ) (evaluation : Evaluation σ) : Prop :=
  ∀ ⦃s v t⦄, evaluation s = (.ok v, t) → ∀ ⦃u⦄, env.Leads t u → evaluation u = (.ok v, u)

theorem stands_onBoth {operation : Int64 → Int64 → Except EvalError Int64} {left right : Expr}
    (hleft : env.Stands (left.eval env)) (hright : env.Stands (right.eval env)) :
    env.Stands (onBoth operation (left.eval env) (right.eval env)) := by
  intro s v t h u hu
  rcases onBoth_cases operation (left.eval env) (right.eval env) s with
    ⟨error, s', _, hboth⟩ | ⟨a, s', error, t', _, _, hboth⟩ | ⟨a, s', b, t', hl, hr, hboth⟩
  · rw [hboth] at h
    cases h
  · rw [hboth] at h
    cases h
  · rw [hboth, Prod.mk.injEq] at h
    rcases h with ⟨hvalue, rfl⟩
    have hlater := eval_leads env right s'
    rw [hr] at hlater
    rw [onBoth_of_ok (hleft hl (hlater.trans hu)) (hright hr hu), hvalue]

theorem stands_eval (henv : env.Steady) (e : Expr) : env.Stands (e.eval env) := by
  induction e with
  | add left right ihLeft ihRight
  | sub left right ihLeft ihRight
  | mul left right ihLeft ihRight
  | div left right ihLeft ihRight =>
      exact stands_onBoth ihLeft ihRight
  | neg operand ih =>
      intro s v t h u hu
      rcases hoperand : operand.eval env s with ⟨error | a, s'⟩
      · simp only [eval, hoperand] at h
        cases h
      · simp only [eval, hoperand] at h
        cases h
        simp only [eval, ih hoperand hu]
  | sym name =>
      intro s v t h u hu
      rcases hlookup : env.lookup name s with ⟨_ | w, s'⟩
      · simp only [eval, hlookup] at h
        cases h
      · simp only [eval, hlookup] at h
        cases h
        simp only [eval, henv hlookup hu]
  | int value
  | here
  | zero =>
      intro s v t h u _
      cases h
      rfl

/-!
# Values up to a congruence

Operands that are only congruent may have quotients that are not, so a division needs
equal operands.
-/

/-- The relation goes through everything but a division. -/
structure Congruence (R : Int64 → Int64 → Prop) : Prop where
  refl : ∀ a, R a a
  add : ∀ {a a' b b'}, R a a' → R b b' → R (a + b) (a' + b')
  sub : ∀ {a a' b b'}, R a a' → R b b' → R (a - b) (a' - b')
  mul : ∀ {a a' b b'}, R a a' → R b b' → R (a * b) (a' * b')
  neg : ∀ {a a'}, R a a' → R (-a) (-a')

theorem congruence_eq : Congruence (· = ·) where
  refl _ := rfl
  add := by rintro a _ b _ rfl rfl; rfl
  sub := by rintro a _ b _ rfl rfl; rfl
  mul := by rintro a _ b _ rfl rfl; rfl
  neg := by rintro a _ rfl; rfl

theorem congruence_modEq : Congruence fun a b => a.toInt ≡ b.toInt [ZMOD 32768] where
  refl _ := .rfl
  add {a a' b b'} ha hb := by
    rw [Int64.toInt_add, Int64.toInt_add]
    exact (bmod_modEq _).trans ((ha.add hb).trans (bmod_modEq _).symm)
  sub {a a' b b'} ha hb := by
    rw [Int64.toInt_sub, Int64.toInt_sub]
    exact (bmod_modEq _).trans ((ha.sub hb).trans (bmod_modEq _).symm)
  mul {a a' b b'} ha hb := by
    rw [Int64.toInt_mul, Int64.toInt_mul]
    exact (bmod_modEq _).trans ((ha.mul hb).trans (bmod_modEq _).symm)
  neg {a a'} ha := by
    rw [Int64.toInt_neg, Int64.toInt_neg]
    exact (bmod_modEq _).trans (ha.neg.trans (bmod_modEq _).symm)

/-- The two evaluations ended in the same state, with related values or with the same error. -/
inductive Alike (R : Int64 → Int64 → Prop) :
    Except EvalError Int64 × σ → Except EvalError Int64 × σ → Prop where
  | value {a b : Int64} (h : R a b) (s : σ) : Alike R (.ok a, s) (.ok b, s)
  | failure (error : EvalError) (s : σ) : Alike R (.error error, s) (.error error, s)

namespace Alike

variable {R : Int64 → Int64 → Prop}

theorem refl (hR : Congruence R) : ∀ outcome : Except EvalError Int64 × σ, Alike R outcome outcome
  | (.ok a, s) => .value (hR.refl a) s
  | (.error error, s) => .failure error s

theorem onBoth {operation : Int64 → Int64 → Except EvalError Int64}
    {left right left' right' : Evaluation σ} {s : σ}
    (hoperation : ∀ {a a' b b'} (t : σ), R a a' → R b b' →
      Alike R (operation a b, t) (operation a' b', t))
    (hleft : Alike R (left s) (left' s))
    (hright : Alike R (right (left s).2) (right' (left s).2)) :
    Alike R (Expr.onBoth operation left right s) (Expr.onBoth operation left' right' s) := by
  generalize hfirst : left s = first at hleft hright
  generalize hfirst' : left' s = first' at hleft
  cases hleft with
  | failure error t =>
      rw [onBoth_of_error hfirst, onBoth_of_error hfirst']
      exact .failure error t
  | @value a a' ha t =>
      generalize hsecond : right t = second at hright
      generalize hsecond' : right' t = second' at hright
      cases hright with
      | failure error u =>
          rw [onBoth_of_ok_error hfirst hsecond, onBoth_of_ok_error hfirst' hsecond']
          exact .failure error u
      | value hb u =>
          rw [onBoth_of_ok hfirst hsecond, onBoth_of_ok hfirst' hsecond']
          exact hoperation u ha hb

theorem neg {operand operand' : Expr} {s : σ} (hR : Congruence R)
    (h : Alike R (operand.eval env s) (operand'.eval env s)) :
    Alike R ((Expr.neg operand).eval env s) ((Expr.neg operand').eval env s) := by
  generalize hx : operand.eval env s = x at h
  generalize hy : operand'.eval env s = y at h
  cases h with
  | failure error t =>
      simp only [eval, hx, hy]
      exact .failure error t
  | value ha t =>
      simp only [eval, hx, hy]
      exact .value (hR.neg ha) t

theorem eq {x y : Except EvalError Int64 × σ} (h : Alike (· = ·) x y) : x = y := by
  cases h with
  | value h s => rw [h]
  | failure error s => rfl

theorem evalAddress {e e' : Expr} {s : σ}
    (h : Alike (fun a b => a.toInt ≡ b.toInt [ZMOD 32768]) (e.eval env s) (e'.eval env s)) :
    e.evalAddress env s = e'.evalAddress env s := by
  generalize hx : e.eval env s = x at h
  generalize hy : e'.eval env s = y at h
  cases h with
  | value h t => simp only [Expr.evalAddress, hx, hy, Address.ofInt_eq_of_modEq h]
  | failure error t => simp only [Expr.evalAddress, hx, hy]

end Alike

/-!
# Replacing a symbol

Evaluations agree up to a congruence that relates the value of the symbol to that of
its replacement.
-/

theorem undivided_or_parts {left right : Expr} {p : Prop}
    (h : (left.undivided && right.undivided) = true ∨ p) :
    (left.undivided = true ∨ p) ∧ (right.undivided = true ∨ p) := by
  rwa [Bool.and_eq_true, and_or_right] at h

theorem alike_substitute {R : Int64 → Int64 → Prop} (hR : Congruence R) {name : Text} {e : Expr}
    {w : Word} {v : Int64} {s : σ} (hv : R (Int64.ofInt w.toInt) v)
    (hname : ∀ {t}, env.Leads s t → env.lookup name t = (some w, t))
    (he : ∀ {t}, env.Leads s t → e.eval env t = (.ok v, t))
    {c : Expr} (hdivision : c.undivided = true ∨ ∀ a b, R a b → a = b) :
    ∀ {t}, env.Leads s t → Alike R (c.eval env t) ((c.substitute name e).eval env t) := by
  induction c with
  | add left right ihLeft ihRight =>
      intro t ht
      have hparts := undivided_or_parts hdivision
      exact .onBoth (fun u ha hb => .value (hR.add ha hb) u) (ihLeft hparts.1 ht)
        (ihRight hparts.2 (ht.trans (eval_leads env left t)))
  | sub left right ihLeft ihRight =>
      intro t ht
      have hparts := undivided_or_parts hdivision
      exact .onBoth (fun u ha hb => .value (hR.sub ha hb) u) (ihLeft hparts.1 ht)
        (ihRight hparts.2 (ht.trans (eval_leads env left t)))
  | mul left right ihLeft ihRight =>
      intro t ht
      have hparts := undivided_or_parts hdivision
      exact .onBoth (fun u ha hb => .value (hR.mul ha hb) u) (ihLeft hparts.1 ht)
        (ihRight hparts.2 (ht.trans (eval_leads env left t)))
  | div left right ihLeft ihRight =>
      intro t ht
      have hequal : ∀ a b, R a b → a = b := by
        rcases hdivision with hundivided | hequal
        · cases hundivided
        · exact hequal
      refine .onBoth ?_ (ihLeft (.inr hequal) ht)
        (ihRight (.inr hequal) (ht.trans (eval_leads env left t)))
      intro a a' b b' u ha hb
      rw [hequal a a' ha, hequal b b' hb]
      exact .refl hR _
  | neg operand ih =>
      intro t ht
      exact .neg hR (ih hdivision ht)
  | sym other =>
      intro t ht
      rw [substitute]
      by_cases hother : other = name
      · rw [if_pos hother, he ht, hother]
        simp only [eval, hname ht]
        exact .value hv t
      · rw [if_neg hother]
        exact .refl hR _
  | int value
  | here
  | zero =>
      intro t _
      exact .refl hR _

end

end Expr

namespace Scope

theorem environment_steady (here : Address) : (environment here).Steady := by
  intro name s w t hfound u hu
  exact lookup_of_some ((extends_of_leads hu).keeps (lookup_eq_some hfound))

end Scope

namespace Expr

/-- A symbol can be replaced by an expression of the same value, in every environment where a
symbol that was found is found again, if evaluating the expression changes nothing.  A scope is such
an environment, with an anchor or without one, and so is one that lookups never change. -/
theorem equated_symbols_replaced :
    (∀ here, (Scope.environment here).Steady) ∧
    (∀ {σ : Type} (env : Environment σ), (∀ name s, (env.lookup name s).2 = s) → env.Steady) ∧
    ∀ {σ : Type} (env : Environment σ), env.Steady →
      ∀ (s : σ) (e : Expr) (v : Int64), e.eval env s = (.ok v, s) →
      ∀ name, env.lookup name s = (some (Word.ofInt v.toInt), s) →
      ∀ c : Expr,
        (v.toInt.natAbs < 2 ^ 35 → c.eval env s = (c.substitute name e).eval env s) ∧
        (c.undivided = true → c.evalAddress env s = (c.substitute name e).evalAddress env s) := by
  refine ⟨Scope.environment_steady, fun _ => Environment.steady_of_fixed, ?_⟩
  intro σ env henv s e v hvalue name hname c
  have hnames : ∀ {t}, env.Leads s t → env.lookup name t = (some (Word.ofInt v.toInt), t) :=
    fun ht => henv hname ht
  have hvalues : ∀ {t}, env.Leads s t → e.eval env t = (.ok v, t) :=
    fun ht => stands_eval henv e hvalue ht
  constructor
  · intro hnarrow
    have hv : Int64.ofInt (Word.ofInt v.toInt).toInt = v := by
      rw [Word.toInt_ofInt_of_lt hnarrow, Int64.ofInt_toInt]
    exact (alike_substitute congruence_eq hv hnames hvalues (.inr fun _ _ => id) .refl).eq
  · intro hundivided
    have hv : (Int64.ofInt (Word.ofInt v.toInt).toInt).toInt ≡ v.toInt [ZMOD 32768] := by
      rw [Int64.toInt_ofInt]
      exact (bmod_modEq _).trans (Word.toInt_ofInt_modEq _)
    exact (alike_substitute congruence_modEq hv hnames hvalues (.inl hundivided) .refl).evalAddress

/-- The least value of 64 bits, of which a word keeps a minus zero, and a quotient, each after a
symbol that takes its address from the anchor. -/
theorem equated_symbols_replaced_anchored :
    let wide : Expr := .sub (.neg (.int Int64.maxValue)) (.int 1)
    let narrow : Expr := .div (.int 22) (.neg (.int 3))
    let scope : Scope := ⟨⟨[(.ofString "W", .make true 0), (.ofString "N", .make true 7)]⟩,
      some (.ofInt 100)⟩
    let env := Scope.environment .zero
    let difference : Expr := .sub (.sym (.ofString "A")) (.sym (.ofString "W"))
    let quotient : Expr := .div (.sym (.ofString "A")) (.sym (.ofString "N"))
    wide.eval env scope = (.ok Int64.minValue, scope) ∧ narrow.eval env scope = (.ok (-7), scope) ∧
      difference.evalAddress env scope =
        (difference.substitute (.ofString "W") wide).evalAddress env scope ∧
      (difference.evalAddress env scope).1 = .ok (.ofInt 100) ∧
      quotient.eval env scope = (quotient.substitute (.ofString "N") narrow).eval env scope ∧
      (quotient.eval env scope).1 = .ok (-14) := by
  intro wide narrow scope env difference quotient
  have hwide : wide.eval env scope = (.ok Int64.minValue, scope) := by decide
  have hnarrow : narrow.eval env scope = (.ok (-7), scope) := by decide
  have hw : env.lookup (.ofString "W") scope =
      (some (Word.ofInt Int64.minValue.toInt), scope) := by decide
  have hn : env.lookup (.ofString "N") scope =
      (some (Word.ofInt (-7 : Int64).toInt), scope) := by decide
  have hsteady := equated_symbols_replaced.1 .zero
  exact ⟨hwide, hnarrow,
    (equated_symbols_replaced.2.2 env hsteady scope wide _ hwide _ hw difference).2 rfl, by decide,
    (equated_symbols_replaced.2.2 env hsteady scope narrow _ hnarrow _ hn quotient).1 (by decide),
    by decide⟩

/-- An expression that takes an address from the anchor has another value after another such
symbol, so it cannot stand there for a symbol with its first value. -/
theorem anchored_value_moves_on :
    ¬ ∀ (here : Address) (scope : Scope) (e : Expr) (v : Int64),
      (e.eval (Scope.environment here) scope).1 = .ok v →
      ∀ name, scope.symbols.lookup? name = some (Word.ofInt v.toInt) →
      v.toInt.natAbs < 2 ^ 35 → ∀ c : Expr,
        (c.eval (Scope.environment here) scope).1 =
          ((c.substitute name e).eval (Scope.environment here) scope).1 := by
  intro hreplaced
  have hsame := hreplaced .zero ⟨⟨[(.ofString "X", .ofNat 100)]⟩, some (.ofInt 100)⟩
    (.sym (.ofString "A")) 100 (by decide) (.ofString "X") (by decide) (by decide)
    (.add (.sym (.ofString "B")) (.sym (.ofString "X")))
  exact absurd hsame (by decide)

end Expr
end Ibm704
