import Ibm704.Proofs.References

/-!
# What an evaluation depends on

Where lookups change nothing, an evaluation reads the present location and the
symbols that the expression refers to, and nothing else.  It ends with a value, at
a division, or at the first of these symbols that has no meaning.  So it comes to
a value unless a symbol has no meaning or something is divided.
-/

namespace Ibm704
namespace Expr

section

variable {σ τ : Type} {env : Environment σ} {s : σ} {other : Environment τ} {t : τ}

/-!
# Lookups without a change

In a quiet state, evaluation changes nothing and depends on the meanings of the names
only.
-/

def Environment.Quiet (env : Environment σ) (s : σ) : Prop :=
  ∀ name, (env.lookup name s).2 = s

theorem eval_of_quiet (h : env.Quiet s) (e : Expr) : (e.eval env s).2 = s := by
  refine eval_respects (R := fun before after => before = s → after = s) (fun _ => id)
    (fun hfirst hsecond hbefore => hsecond (hfirst hbefore)) ?_ e s rfl
  rintro name _ rfl
  exact h name

theorem onBoth_of_quiet {operation : Int64 → Int64 → Except EvalError Int64} {left right : Expr}
    (h : env.Quiet s) :
    (onBoth operation (left.eval env) (right.eval env) s).1 =
      (left.eval env s).1 >>= fun a => (right.eval env s).1 >>= operation a := by
  have hleft : left.eval env s = ((left.eval env s).1, s) := Prod.ext rfl (eval_of_quiet h left)
  rcases hfirst : (left.eval env s).1 with error | a
  · rw [hfirst] at hleft
    rw [onBoth_of_error hleft]
    rfl
  · rw [hfirst] at hleft
    simp only [onBoth, hleft]
    rcases right.eval env s with ⟨error | b, u⟩
    · rfl
    · rfl

theorem eval_neg_eq (operand : Expr) :
    ((neg operand).eval env s).1 = (operand.eval env s).1.map fun a => -a := by
  rcases hoperand : operand.eval env s with ⟨error | a, u⟩
  · simp only [eval, hoperand, Except.map]
  · simp only [eval, hoperand, Except.map]

theorem eval_sym_eq (name : Text) :
    ((sym name).eval env s).1 =
      (env.lookup name s).1.elim (.error (.undefined name)) fun w => .ok (Int64.ofInt w.toInt) := by
  rcases hlookup : env.lookup name s with ⟨_ | w, u⟩
  · simp only [eval, hlookup, Option.elim]
  · simp only [eval, hlookup, Option.elim]

/-!
# Two environments

Environments agree on names that have the same meaning in both, or none in either.
-/

def Agree (env : Environment σ) (s : σ) (other : Environment τ) (t : τ) (names : List Text) : Prop :=
  ∀ name ∈ names, (env.lookup name s).1 = (other.lookup name t).1

theorem Agree.parts {left right : Expr}
    (h : Agree env s other t (left.referencesBefore (right.referencesBefore []))) :
    Agree env s other t left.references ∧ Agree env s other t right.references := by
  rw [references_pair] at h
  exact List.forall_mem_append.mp h

theorem eval_eq_of_agree (henv : env.Quiet s) (hother : other.Quiet t)
    (hhere : env.here = other.here) {e : Expr} (h : Agree env s other t e.references) :
    (e.eval env s).1 = (e.eval other t).1 := by
  induction e with
  | add left right ihLeft ihRight
  | sub left right ihLeft ihRight
  | mul left right ihLeft ihRight
  | div left right ihLeft ihRight =>
      rcases h.parts with ⟨hleft, hright⟩
      rw [eval, eval, onBoth_of_quiet henv, onBoth_of_quiet hother, ihLeft hleft, ihRight hright]
  | neg operand ih => rw [eval_neg_eq, eval_neg_eq, ih h]
  | sym name => rw [eval_sym_eq, eval_sym_eq, h name List.mem_cons_self]
  | here => rw [eval, eval, hhere]
  | int value
  | zero => rfl

/-!
# How an evaluation ends

The names of the right operand come into play when all on the left have a meaning, and
the operation when all have one.
-/

/-- An evaluation gives a value if all names have a meaning, and else stops at the first that has
none, unless it stops at a division. -/
inductive Ends (meaning : Text → Option Word) (names : List Text) (undivided : Bool) :
    Except EvalError Int64 → Prop where
  | value (v : Int64) (hall : ∀ name ∈ names, (meaning name).isSome = true) :
      Ends meaning names undivided (.ok v)
  | unbound {earlier later : List Text} {name : Text} (hnames : names = earlier ++ name :: later)
      (hearlier : ∀ other ∈ earlier, (meaning other).isSome = true) (hname : meaning name = none) :
      Ends meaning names undivided (.error (.undefined name))
  | division (hdivided : undivided = false) : Ends meaning names undivided (.error .divideByZero)

namespace Ends

variable {meaning : Text → Option Word} {names others : List Text} {first second third : Bool}
  {outcome next : Except EvalError Int64}

theorem map_neg (h : Ends meaning names first outcome) :
    Ends meaning names first (outcome.map fun a => -a) := by
  cases h with
  | value v hall => exact .value (-v) hall
  | unbound hnames hearlier hname => exact .unbound hnames hearlier hname
  | division hdivided => exact .division hdivided

theorem pair {operation : Int64 → Int64 → Except EvalError Int64}
    (hleft : Ends meaning names first outcome) (hright : Ends meaning others second next)
    (hoperation : ∀ a b, Ends meaning [] third (operation a b)) :
    Ends meaning (names ++ others) (third && (first && second))
      (outcome >>= fun a => next >>= operation a) := by
  cases hleft with
  | division hdivided => exact .division (by simp [hdivided])
  | unbound hnames hearlier hname =>
      exact .unbound (by rw [hnames, List.append_assoc, List.cons_append]) hearlier hname
  | value a hall =>
      cases hright with
      | division hdivided => exact .division (by simp [hdivided])
      | unbound hnames hearlier hname =>
          exact .unbound (by rw [hnames, List.append_assoc])
            (List.forall_mem_append.mpr ⟨hall, hearlier⟩) hname
      | value b hallToo =>
          show Ends meaning (names ++ others) _ (operation a b)
          have hresult := hoperation a b
          generalize operation a b = result at hresult
          cases hresult with
          | value v => exact .value v (List.forall_mem_append.mpr ⟨hall, hallToo⟩)
          | division hdivided => exact .division (by simp [hdivided])
          | unbound hnames => exact absurd hnames.symm (by simp)

theorem quotient (a b : Int64) : Ends meaning [] false (Expr.quotient a b) := by
  unfold Expr.quotient
  split
  · exact .division rfl
  · exact .value _ (List.forall_mem_nil _)

end Ends

theorem eval_ends (h : env.Quiet s) (e : Expr) :
    Ends (fun name => (env.lookup name s).1) e.references e.undivided (e.eval env s).1 := by
  induction e with
  | add left right ihLeft ihRight
  | sub left right ihLeft ihRight
  | mul left right ihLeft ihRight =>
      rw [eval, onBoth_of_quiet h, references, referencesBefore, references_pair]
      have hoperation : ∀ v, Ends (fun name => (env.lookup name s).1) [] true (.ok v) :=
        fun v => .value v (List.forall_mem_nil _)
      exact ihLeft.pair ihRight fun a b => hoperation _
  | div left right ihLeft ihRight =>
      rw [eval, onBoth_of_quiet h, references, referencesBefore, references_pair]
      exact ihLeft.pair ihRight Ends.quotient
  | neg operand ih =>
      rw [eval_neg_eq]
      exact ih.map_neg
  | sym name =>
      rw [eval_sym_eq]
      cases hname : (env.lookup name s).1 with
      | some w => exact .value _ (List.forall_mem_singleton.mpr (by rw [hname]; rfl))
      | none =>
          exact .unbound (show [name] = [] ++ name :: [] from rfl) (List.forall_mem_nil _) hname
  | int value
  | here
  | zero => exact .value _ (List.forall_mem_nil _)

end

/-- Where lookups change nothing, the outcome depends on the location and on the symbols that the
expression refers to.  If these all have a meaning only a division can fail, and if some have none
and nothing is divided, the evaluation fails at the first of them. -/
theorem outcome_by_references (e : Expr) :
    (∀ {σ τ : Type} (env : Environment σ) (other : Environment τ) (s : σ) (t : τ),
      env.Quiet s → other.Quiet t → env.here = other.here →
      (∀ name ∈ e.references, (env.lookup name s).1 = (other.lookup name t).1) →
      (e.eval env s).1 = (e.eval other t).1) ∧
    ∀ {σ : Type} (env : Environment σ) (s : σ), env.Quiet s →
      ((∀ name ∈ e.references, (env.lookup name s).1.isSome = true) →
        ∀ error, (e.eval env s).1 = .error error → error = .divideByZero) ∧
      (e.undivided = true → (∃ name ∈ e.references, (env.lookup name s).1 = none) →
        ∃ earlier name later, e.references = earlier ++ name :: later ∧
          (∀ other ∈ earlier, (env.lookup other s).1.isSome = true) ∧
          (env.lookup name s).1 = none ∧ (e.eval env s).1 = .error (.undefined name)) := by
  refine ⟨fun env other s t henv hother hhere h => eval_eq_of_agree henv hother hhere h, ?_⟩
  intro σ env s henv
  have hends := eval_ends henv e
  generalize (e.eval env s).1 = outcome at hends
  constructor
  · intro hall error herror
    subst herror
    cases hends with
    | division => rfl
    | unbound hnames _ hname =>
        have hbound := hall _ (by rw [hnames]; exact List.mem_append_right _ List.mem_cons_self)
        rw [hname] at hbound
        cases hbound
  · rintro hundivided ⟨name, hmem, hnone⟩
    cases hends with
    | value v hall =>
        have hbound := hall name hmem
        rw [hnone] at hbound
        cases hbound
    | unbound hnames hearlier hname => exact ⟨_, _, _, hnames, hearlier, hname, rfl⟩
    | division hdivided =>
        rw [hundivided] at hdivided
        cases hdivided

/-- A table and an anchorless scope that differ in a symbol of no concern, a division that fails
although all symbols have a meaning, and two symbols without one. -/
theorem outcome_by_references_scopes :
    let table : SymbolTable := ⟨[(.ofString "A", .ofNat 6), (.ofString "B", .make true 2)]⟩
    let scope : Scope := ⟨⟨[(.ofString "X", .ofNat 1), (.ofString "B", .make true 2),
      (.ofString "A", .ofNat 6)]⟩, none⟩
    let quotient : Expr := .div (.sym (.ofString "A")) (.add (.sym (.ofString "B")) (.int 2))
    let sum : Expr := .add (.mul (.sym (.ofString "A")) (.neg (.sym (.ofString "D"))))
      (.sub (.sym (.ofString "C")) .here)
    (table.environment .zero).Quiet () ∧ (Scope.environment .zero).Quiet scope ∧
      (quotient.eval (table.environment .zero) ()).1 =
        (quotient.eval (Scope.environment .zero) scope).1 ∧
      (quotient.eval (table.environment .zero) ()).1 = .error .divideByZero ∧
      ∃ earlier name later, sum.references = earlier ++ name :: later ∧
        (∀ other ∈ earlier, (scope.lookup other).1.isSome = true) ∧
        (scope.lookup name).1 = none ∧
        (sum.eval (Scope.environment .zero) scope).1 = .error (.undefined name) := by
  intro table scope quotient sum
  have htable : (table.environment .zero).Quiet () := fun _ => rfl
  have hscope : (Scope.environment .zero).Quiet scope := fun name =>
    congrArg Prod.snd (Scope.lookup_of_unanchored rfl name)
  exact ⟨htable, hscope,
    (outcome_by_references quotient).1 _ _ _ _ htable hscope rfl (by decide), rfl,
    ((outcome_by_references sum).2 _ scope hscope).2 rfl ⟨.ofString "D", by decide, by decide⟩⟩

end Expr
end Ibm704
