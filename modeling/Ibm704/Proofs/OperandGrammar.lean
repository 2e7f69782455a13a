import Ibm704.Expr.Parser

/-!
# The grammar of operands

The four levels of the grammar as functions that call each other: a level takes tokens
from the front and leaves the others to the level that asked for it.  Both parts of a
signed atom may be missing, but a level that has taken no token has not matched.  This
makes the difference between a slash after `*`, where a factor may be missing, and a
slash after `+`, where only a whole product may be.

Reading the tokens in one pass, with a sum and a product that wait for their right
sides, gives the same expression or the same unexpected token.
-/

namespace Ibm704
namespace Expr

/-!
# Levels

A level is a function from tokens to a match, if it finds one.  Products and sums are
chains of the level below.
-/

/-- What a level has read.  There is no empty match: a level has taken one token at least. -/
structure Match (tokens : List Token) where
  expr : Expr
  rest : List Token
  taken : rest.length < tokens.length

abbrev Level := (tokens : List Token) → Option (Match tokens)

def atomLevel : Level
  | [] => none
  | token :: rest => (atom? token.lexeme).map fun e => ⟨e, rest, Nat.lt_succ_self _⟩

def sign? : Lexeme → Option Bool
  | .plus => some false
  | .minus => some true
  | _ => none

def afterSign (tokens : List Token) : Bool × List Token :=
  match tokens with
  | [] => (false, [])
  | token :: rest =>
      match sign? token.lexeme with
      | some negative => (negative, rest)
      | none => (false, token :: rest)

def optionalAtom (tokens : List Token) : Expr × List Token :=
  match atomLevel tokens with
  | some found => (found.expr, found.rest)
  | none => (missing, tokens)

def signedLevel : Level := fun tokens =>
  let signed := afterSign tokens
  let read := optionalAtom signed.2
  if taken : read.2.length < tokens.length then
    some ⟨signedAtom signed.1 read.1, read.2, taken⟩
  else
    none

/-- Operators with their right sides, which may be missing, as long as there are any. -/
def tail (operation? : Lexeme → Option (Expr → Expr → Expr)) (level : Level) (left : Expr) :
    List Token → Expr × List Token
  | [] => (left, [])
  | token :: rest =>
      match operation? token.lexeme with
      | none => (left, token :: rest)
      | some operation =>
          match level rest with
          | none => tail operation? level (operation left missing) rest
          | some found => tail operation? level (operation left found.expr) found.rest
termination_by tokens => tokens.length
decreasing_by
  · exact Nat.lt_succ_self _
  · exact Nat.lt_succ_of_lt found.taken

theorem tail_length (operation? : Lexeme → Option (Expr → Expr → Expr)) (level : Level)
    (left : Expr) (tokens : List Token) :
    (tail operation? level left tokens).2.length ≤ tokens.length := by
  fun_induction tail operation? level left tokens with
  | case1 left => exact Nat.le_refl _
  | case2 left token rest hnone => exact Nat.le_refl _
  | case3 left token rest operation hsome hnone ih => exact Nat.le_succ_of_le ih
  | case4 left token rest operation hsome found hfound ih =>
      exact Nat.le_succ_of_le (Nat.le_trans ih (Nat.le_of_lt found.taken))

def Match.chained {tokens : List Token} (operation? : Lexeme → Option (Expr → Expr → Expr))
    (level : Level) (found : Match tokens) : Match tokens where
  expr := (tail operation? level found.expr found.rest).1
  rest := (tail operation? level found.expr found.rest).2
  taken := Nat.lt_of_le_of_lt (tail_length _ _ _ _) found.taken

def chain (operation? : Lexeme → Option (Expr → Expr → Expr)) (level : Level) : Level :=
  fun tokens => (level tokens).map (Match.chained operation? level)

def productOperation? : Lexeme → Option (Expr → Expr → Expr)
  | .star => some .mul
  | .slash => some .div
  | _ => none

def sumOperation? : Lexeme → Option (Expr → Expr → Expr)
  | .plus => some .add
  | .minus => some .sub
  | _ => none

def productLevel : Level :=
  chain productOperation? signedLevel

def sumLevel : Level :=
  chain sumOperation? productLevel

def whole (read : Expr × List Token) : Except ParseError Expr :=
  match read.2 with
  | [] => .ok read.1
  | token :: _ => .error (.unexpectedToken token)

def descend : List Token → Except ParseError Expr
  | [] => .ok missing
  | token :: rest =>
      match sumLevel (token :: rest) with
      | some found => whole (found.expr, found.rest)
      | none => .error (.unexpectedToken token)

/-!
# Signed atoms in one pass

Where the reader waits for a signed atom it takes what the level takes.  With nothing
to take, the factor is missing.
-/

theorem parseTokens_atom (negative : Bool) (pending : Pending) (tokens : List Token) :
    parseTokens (.atom negative) pending tokens =
      parseTokens (.operator (signedAtom negative (optionalAtom tokens).1)) pending
        (optionalAtom tokens).2 := by
  cases tokens with
  | nil => rfl
  | cons token rest =>
      rcases token with ⟨lexeme, position⟩
      cases lexeme <;> rfl

theorem optionalAtom_length (tokens : List Token) :
    (optionalAtom tokens).2.length ≤ tokens.length := by
  unfold optionalAtom
  split
  · rename_i found _
    exact Nat.le_of_lt found.taken
  · exact Nat.le_refl _

theorem parseTokens_signed_some {tokens : List Token} {found : Match tokens}
    (h : signedLevel tokens = some found) (pending : Pending) :
    parseTokens .signed pending tokens = parseTokens (.operator found.expr) pending found.rest := by
  unfold signedLevel at h
  dsimp only at h
  split at h
  · rename_i taken
    cases h
    cases tokens with
    | nil => exact absurd taken (Nat.lt_irrefl 0)
    | cons token rest =>
        rcases token with ⟨lexeme, position⟩
        cases lexeme with
        | zero | star | symbol chars => rfl
        | plus => exact parseTokens_atom false pending rest
        | minus => exact parseTokens_atom true pending rest
        | slash => exact absurd taken (Nat.lt_irrefl _)
  · cases h

theorem signedLevel_eq_none {tokens : List Token} (h : signedLevel tokens = none) :
    tokens = [] ∨ ∃ position rest, tokens = ⟨.slash, position⟩ :: rest := by
  unfold signedLevel at h
  dsimp only at h
  split at h
  · cases h
  · rename_i hnone
    cases tokens with
    | nil => exact Or.inl rfl
    | cons token rest =>
        rcases token with ⟨lexeme, position⟩
        cases lexeme with
        | zero | star | symbol chars => exact absurd (Nat.lt_succ_self _) hnone
        | plus | minus => exact absurd (Nat.lt_succ_of_le (optionalAtom_length rest)) hnone
        | slash => exact Or.inr ⟨position, rest, rfl⟩

theorem parseTokens_signed_none {tokens : List Token} (h : signedLevel tokens = none)
    (sum : Option (Expr × Bool)) (factor : Expr × Bool) :
    parseTokens .signed ⟨sum, some factor⟩ tokens =
      parseTokens (.operator missing) ⟨sum, some factor⟩ tokens := by
  rcases signedLevel_eq_none h with rfl | ⟨position, rest, rfl⟩
  · rfl
  · rfl

/-!
# Chains in one pass

The state of the reader holds the chains that are open.  From each state on it reads
what is left of these chains, by induction on the number of tokens.
-/

section

variable {operation? : Lexeme → Option (Expr → Expr → Expr)} {level : Level} {token : Token}
  {rest : List Token} {operation : Expr → Expr → Expr} (left : Expr)

theorem tail_stop (h : operation? token.lexeme = none) :
    tail operation? level left (token :: rest) = (left, token :: rest) := by
  rw [tail, h]

theorem tail_missing (h : operation? token.lexeme = some operation) (hrest : level rest = none) :
    tail operation? level left (token :: rest) =
      tail operation? level (operation left missing) rest := by
  rw [tail, h]
  simp only [hrest]

theorem tail_some (h : operation? token.lexeme = some operation) {found : Match rest}
    (hrest : level rest = some found) :
    tail operation? level left (token :: rest) =
      tail operation? level (operation left found.expr) found.rest := by
  rw [tail, h]
  simp only [hrest]

end

def closing (sum : Option (Expr × Bool)) (product : Expr × List Token) : Except ParseError Expr :=
  whole (tail sumOperation? productLevel (Pending.sumWith ⟨sum, none⟩ product.1) product.2)

def remaining (pending : Pending) (operand : Expr) (tokens : List Token) : Except ParseError Expr :=
  closing pending.sum (tail productOperation? signedLevel (pending.productWith operand) tokens)

section

variable {token : Token} {rest : List Token}
  (ih : ∀ operand pending (others : List Token), others.length < (token :: rest).length →
    parseTokens (.operator operand) pending others = remaining pending operand others)
  {operation : Expr → Expr → Expr} (operand : Expr) (pending : Pending)
include ih

theorem parseTokens_thenProduct {divide : Bool}
    (h : productOperation? token.lexeme = some operation)
    (hwith : ∀ left right,
      Pending.productWith ⟨pending.sum, some (left, divide)⟩ right = operation left right) :
    parseTokens .signed (pending.thenProduct operand divide) rest =
      remaining pending operand (token :: rest) := by
  unfold remaining
  cases hsigned : signedLevel rest with
  | none =>
      rw [Pending.thenProduct, parseTokens_signed_none hsigned, ih _ _ _ (Nat.lt_succ_self _),
        remaining, hwith, tail_missing _ h hsigned]
  | some found =>
      rw [Pending.thenProduct, parseTokens_signed_some hsigned,
        ih _ _ _ (Nat.lt_succ_of_lt found.taken), remaining, hwith, tail_some _ h hsigned]

theorem parseTokens_thenSum {subtract : Bool} (h : sumOperation? token.lexeme = some operation)
    (hstop : productOperation? token.lexeme = none)
    (hwith : ∀ left right,
      Pending.sumWith ⟨some (left, subtract), none⟩ right = operation left right) :
    parseTokens .signed (pending.thenSum operand subtract) rest =
      remaining pending operand (token :: rest) := by
  unfold remaining closing
  rw [tail_stop _ hstop]
  cases hsigned : signedLevel rest with
  | some found =>
      have hproduct : productLevel rest = some (found.chained productOperation? signedLevel) := by
        rw [productLevel, chain, hsigned]
        rfl
      rw [Pending.thenSum, parseTokens_signed_some hsigned,
        ih _ _ _ (Nat.lt_succ_of_lt found.taken), remaining, closing, hwith,
        tail_some _ h hproduct]
      rfl
  | none =>
      have hproduct : productLevel rest = none := by
        rw [productLevel, chain, hsigned]
        rfl
      rw [tail_missing _ h hproduct, ← hwith]
      -- The product is missing, so the operand ends here or goes on with a slash.
      rcases signedLevel_eq_none hsigned with rfl | ⟨position, others, rfl⟩
      · rw [tail]
        rfl
      · rw [tail_stop _ rfl]
        rfl

end

theorem parseTokens_operator (operand : Expr) (pending : Pending) (tokens : List Token) :
    parseTokens (.operator operand) pending tokens = remaining pending operand tokens := by
  induction hlength : tokens.length using Nat.strongRecOn generalizing operand pending tokens with
  | ind length ih =>
      cases tokens with
      | nil =>
          unfold remaining closing
          rw [tail, tail]
          rfl
      | cons token rest =>
          have hshorter : ∀ operand pending (others : List Token),
              others.length < (token :: rest).length →
              parseTokens (.operator operand) pending others = remaining pending operand others :=
            fun operand pending others hless => ih _ (hlength ▸ hless) operand pending others rfl
          rcases token with ⟨lexeme, position⟩
          cases lexeme with
          | plus => exact parseTokens_thenSum hshorter operand pending rfl rfl fun _ _ => rfl
          | minus => exact parseTokens_thenSum hshorter operand pending rfl rfl fun _ _ => rfl
          | star => exact parseTokens_thenProduct hshorter operand pending rfl fun _ _ => rfl
          | slash => exact parseTokens_thenProduct hshorter operand pending rfl fun _ _ => rfl
          | zero | symbol chars =>
              unfold remaining closing
              rw [tail_stop _ rfl, tail_stop _ rfl]
              rfl

theorem parseTokens_eq_descend (tokens : List Token) :
    parseTokens .signed .empty tokens = descend tokens := by
  cases tokens with
  | nil => rfl
  | cons token rest =>
      rw [descend, sumLevel, chain, productLevel, chain]
      cases hsigned : signedLevel (token :: rest) with
      | none =>
          rcases signedLevel_eq_none hsigned with hnil | ⟨position, others, hslash⟩
          · cases hnil
          · cases hslash
            rfl
      | some found =>
          rw [parseTokens_signed_some hsigned, parseTokens_operator]
          rfl

end Expr
end Ibm704
