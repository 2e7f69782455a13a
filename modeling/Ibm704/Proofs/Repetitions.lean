import Ibm704.Proofs.Labels
import Ibm704.Proofs.Layout

/-!
# Repetitions

While statements are given their words, each location holds the word that was left
there last.  A repetition reads the words just before its base, whatever left them
there: a block may be overwritten, it may have holes, it may go around the top of
core, and it may hold the copies of other repetitions.  All of it is read before
anything is written, so the words repeat themselves even where the copies come to
stand on what is copied.
-/

namespace Ibm704

/-!
# The words that are left so far

Before a statement of a run, each location holds what the statements before it left
there last, or else what it held at the start.
-/

def latest (words : List (Nat × Word)) (location : Nat) : Word :=
  (words.reverse.lookup location).getD .zero

namespace SecondPass

theorem leave_lookup (map : WordMap) (base : Address) (words : List Word) (location : Nat) :
    (leave map base words)[location]? =
      ((wordsFrom base.val words).reverse.lookup location).or map[location]? := by
  induction words generalizing map base with
  | nil => rfl
  | cons w rest ih =>
      have hfirst : (base.add 0).val = base.val % coreSize := Address.add_val_nat base 0
      have hnext : (base.add 1).val = (base.val + 1) % coreSize := Address.add_val_nat base 1
      have hinsert : (map.insert (base.val % coreSize) w)[location]? =
          (List.lookup location [(base.val % coreSize, w)]).or map[location]? := by
        rw [Std.TreeMap.getElem?_insert, List.lookup_cons]
        by_cases hsame : base.val % coreSize = location
        · simp [hsame]
        · simp [hsame, beq_eq_false_iff_ne.mpr (Ne.symm hsame)]
      rw [leave, ih, hfirst, hnext, wordsFrom_mod, wordsFrom_cons, List.reverse_cons,
        List.lookup_append, Option.or_assoc, hinsert]

theorem Run.words_before {pass last : SecondPass} {sts sts' earlier later : List Statement}
    {st : Statement} (h : Run pass sts last sts') (hsplit : sts' = earlier ++ st :: later) :
    ∃ before next start, Assembled before start (next, st) ∧
      ∀ location, before.words[location]? =
        ((earlier.flatMap Statement.located).reverse.lookup location).or
          pass.words[location]? := by
  induction h generalizing earlier with
  | nil pass => exact absurd hsplit.symm (by simp)
  | @cons pass next last first first' rest rest' hfirst _ ih =>
      cases earlier with
      | nil =>
          cases hsplit
          exact ⟨pass, next, first, hfirst, fun _ => rfl⟩
      | cons other earlier =>
          cases hsplit
          rcases ih rfl with ⟨before, after, start, hassembled, hwords⟩
          refine ⟨before, after, start, hassembled, ?_⟩
          intro location
          have hleft : next.words = leave pass.words first'.base first'.emitted := hfirst.left
          rw [hwords, hleft, leave_lookup, List.flatMap_cons, List.reverse_append,
            List.lookup_append, Option.or_assoc]
          rfl

theorem Given.of_repetition {pass : SecondPass} {st : Statement} {words : List Word}
    {scope : Scope} (h : Given pass st words scope) (hkind : st.kind = .repetition)
    (hfree : st.blocked = false) :
    words = (List.range st.size).map fun i =>
      pass.wordAt (st.base.add ((i % st.period : Nat) - (st.period : Int))) := by
  cases h with
  | copies => rfl
  | nothing hother => simp [hkind, hfree] at hother
  | data _ hother => simp [hkind] at hother
  | instruction _ hother => simp [hkind] at hother
  | finish _ hother => simp [hkind] at hother

end SecondPass

/-!
# Operands of repetitions

The second operand is evaluated in the scope that the first one left.  The size is the
product of both, modulo the size of core.
-/

namespace FirstPass

def addresses (pass : FirstPass) (exprs : List Expr) : List Nat :=
  (pass.scope.evalAll pass.location exprs).1.map fun outcome =>
    (Address.ofInt (Statement.outcomeNumber outcome)).val

theorem lowBits_eq (n : Nat) : lowBits 15 (n : Int) = n % coreSize := by
  show ((n : Int) % 32768).toNat = n % 32768
  omega

theorem Placed.of_repetition {pass : FirstPass} {st : Statement} {result : FirstPass × Statement}
    (h : Placed pass st result) (hfree : st.blocked = false) (hkind : st.kind = .repetition) :
    ∃ times, pass.addresses st.exprs = [result.2.period, times] ∧
      result.2.size = result.2.period * times % coreSize := by
  cases h with
  | @repetition e e' _ hexprs _ words times hwords htimes =>
      refine ⟨times.address.val, ?_, ?_⟩
      · have hfirst : words.number = Statement.outcomeNumber _ :=
          (congrArg Statement.Resolved.number hwords).trans (Statement.resolve_number _ _ _ _ e)
        have hscope : words.scope = _ :=
          (congrArg Statement.Resolved.scope hwords).trans (Statement.resolve_scope _ _ _ _ e)
        have hsecond : times.number = Statement.outcomeNumber _ :=
          (congrArg Statement.Resolved.number htimes).trans (Statement.resolve_number _ _ _ _ e')
        rw [hscope] at hsecond
        show pass.addresses st.exprs = [(Address.ofInt words.number).val,
          (Address.ofInt times.number).val]
        rw [hexprs, hfirst, hsecond]
        rfl
      · show lowBits 15 (words.address.val * times.address.val) = _
        rw [← Int.natCast_mul, lowBits_eq]
        rfl
  | idle hother => simp [hkind, hfree] at hother
  | words _ hother => simp [hkind] at hother
  | block _ _ hother => simp [hkind] at hother
  | equated _ _ hother => simp [hkind] at hother
  | unequated _ _ hother => simp [hkind] at hother
  | origin _ _ hother => simp [hkind] at hother
  | anchor _ _ hother => simp [hkind] at hother
  | finish _ hother => simp [hkind] at hother
  | format _ hother => simp [hkind] at hother

end FirstPass

/-!
# Statements by their cards

A card before any end card becomes a statement of its own kind, after the statements
of the cards before it.
-/

theorem forall₂_append_cons {α β : Type} {R : α → β → Prop} {xs rest : List α} {x : α} {ys : List β}
    (h : List.Forall₂ R (xs ++ x :: rest) ys) :
    ∃ earlier y later, ys = earlier ++ y :: later ∧ List.Forall₂ R xs earlier ∧ R x y := by
  induction xs generalizing ys with
  | nil =>
      cases h with
      | @cons _ y _ later hfirst _ => exact ⟨[], y, later, rfl, .nil, hfirst⟩
  | cons first xs ih =>
      cases h with
      | @cons _ other _ others hfirst hothers =>
          rcases ih hothers with ⟨earlier, y, later, rfl, hearlier, hy⟩
          exact ⟨other :: earlier, y, later, rfl, .cons hfirst hearlier, hy⟩

theorem Finished.statement_of_card {options : Options} {before after : List Card} {card : Card}
    {asm : Assembler} (h : Finished options (before ++ card :: after) asm)
    (hunended : ∀ other ∈ before, (Statement.classify other).1 ≠ .finish) :
    ∃ entry earlier st later, asm.statements = earlier ++ st :: later ∧
      earlier.map Statement.card = before ∧ entry.card = card ∧
      entry.before = options.lastPass before ∧ asm.Follows entry st ∧
      st.kind = (Statement.classify card).1 := by
  rcases FirstPass.history_cons (options.lastPass before) card after with
    ⟨entry, hentry, hcard, hbefore, _, _⟩
  have hhistory : options.history (before ++ card :: after) =
      options.history before ++ entry :: entry.after.history after := by
    rw [← hentry]
    exact FirstPass.history_append options.start before (card :: after)
  have hfollows := h.follows
  rw [hhistory] at hfollows
  rcases forall₂_append_cons hfollows with ⟨earlier, st, later, hsts, hearlier, hst⟩
  have hold : (options.history before).map FirstPass.Entry.card = before :=
    FirstPass.history_cards options.start before
  refine ⟨entry, earlier, st, later, hsts, ?_, hcard, hbefore, hst, ?_⟩
  · rw [Assembler.cards_of_follows hearlier, hold]
  · rw [hst.part Statement.kind fun _ => rfl, FirstPass.history_kind rfl hhistory, if_neg, hcard]
    rw [List.any_eq_true]
    rintro ⟨other, hmem, hfinish⟩
    refine hunended other.card ?_ (of_decide_eq_true hfinish)
    rw [← hold]
    exact List.mem_map_of_mem hmem

/-!
# Copies

Words are copied from the locations just before the base, one period at a time.
-/

/-- The statement comes in the state after the earlier ones, and its words are `times` copies of the
`period` words that they left before its base. -/
structure Statement.Copies (st : Statement) (pass : FirstPass) (earlier : List Statement)
    (period times : Nat) : Prop where
  operands : pass.addresses st.exprs = [period, times]
  base : st.base = pass.location
  words : st.words = some st.emitted
  length : st.emitted.length = period * times % coreSize
  copied : ∀ i, i < st.emitted.length → st.emitted[i]? = some (latest
    (earlier.flatMap Statement.located)
    (((st.base.val : Int) - period + (i % period : Nat)) % (coreSize : Int)).toNat)
  periodic : ∀ i, i + period < st.emitted.length → st.emitted[i + period]? = st.emitted[i]?

theorem Finished.copies {options : Options} {cards : List Card} {asm : Assembler}
    {entry : FirstPass.Entry} {earlier later : List Statement} {st : Statement}
    (h : Finished options cards asm) (hfollows : asm.Follows entry st)
    (hsts : asm.statements = earlier ++ st :: later) (hkind : st.kind = .repetition) :
    ∃ period times, st.Copies entry.before earlier period times := by
  have hfree : st.blocked = false := hfollows.checked.unblocked (by simp [hkind])
  have hexprs := hfollows.cardPart Statement.exprs (fun _ => rfl) fun _ => rfl
  have hbase := hfollows.base
  rw [if_neg (by simp [hkind])] at hbase
  rcases FirstPass.Placed.of_repetition hfollows.placed
    ((hfollows.cardPart Statement.blocked (fun _ => rfl) fun _ => rfl) ▸ hfree)
    ((hfollows.cardPart Statement.kind (fun _ => rfl) fun _ => rfl) ▸ hkind) with
    ⟨times, hoperands, hsize⟩
  rw [← hexprs, ← hfollows.part Statement.period fun _ => rfl] at hoperands
  rw [← hfollows.part Statement.size fun _ => rfl,
    ← hfollows.part Statement.period fun _ => rfl] at hsize
  rcases h.run.words_before hsts with ⟨before, next, start, hassembled, hwords⟩
  have hemitted : st.emitted = _ := hassembled.given.of_repetition hkind hfree
  have hlength : st.emitted.length = st.size := by
    rw [hemitted, List.length_map, List.length_range]
  have hword : ∀ i, i < st.size → st.emitted[i]? = some
      (before.wordAt (st.base.add ((i % st.period : Nat) - (st.period : Int)))) := by
    intro i hi
    rw [hemitted, List.getElem?_map, List.getElem?_range hi]
    rfl
  have hplace : ∀ k : Nat, (st.base.add ((k : Int) - st.period)).val =
      (((st.base.val : Int) - st.period + k) % (coreSize : Int)).toNat := by
    intro k
    simp only [Address.add, Address.ofInt_val, coreSize]
    omega
  refine ⟨st.period, times, hoperands, hbase, hassembled.words, hlength.trans hsize, ?_, ?_⟩
  · intro i hi
    have hempty : ∀ location : Nat, (∅ : WordMap)[location]? = none := by simp
    rw [hword i (hlength ▸ hi), SecondPass.wordAt, hwords, hplace, hempty, Option.or_none]
    rfl
  · intro i hi
    rw [hword _ (hlength ▸ hi), hword i (by omega), Nat.add_mod_right]

/-- A repetition before the end card leaves as many words as its operands say, and each is the word
that the earlier cards left last at its place in the block before the base. -/
theorem repetitions_copy_latest_words (options : Options) (source : Text) (lines : List Text)
    (hlines : Source.lines? source = some lines) :
    ∃ asm, assembleSource options source = .ok asm ∧
      ∀ before card after, Card.ofLines 1 lines = before ++ card :: after →
        (Statement.classify card).1 = .repetition →
        (∀ other ∈ before, (Statement.classify other).1 ≠ .finish) →
        ∃ earlier st later, asm.statements = earlier ++ st :: later ∧
          earlier.map Statement.card = before ∧ st.card = card ∧
          ∃ period times, st.Copies (options.lastPass before) earlier period times := by
  rcases assembleSource_finished options hlines with ⟨asm, hsource, hfinished⟩
  refine ⟨asm, hsource, ?_⟩
  intro before card after hcards hrepetition hunended
  rw [hcards] at hfinished
  rcases hfinished.statement_of_card hunended with
    ⟨entry, earlier, st, later, hsts, hearlier, hcard, hbefore, hfollows, hkind⟩
  rw [← hbefore]
  exact ⟨earlier, st, later, hsts, hearlier, hfollows.card.trans hcard,
    hfinished.copies hfollows hsts (hkind.trans hrepetition)⟩

/-- The block before the repetition ends at the top of core, with a hole and with a word that was
put over another one. -/
theorem repetitions_copy_latest_words_around_top :
    let options : Options := ⟨.ofNat 32767, .absolute⟩
    let source : Text := .ofString "\tOCT\t1\n\tORG\t32767\n\tOCT\t7\n\tREP\t2,2\n"
    let before : List Card := Card.ofLines 1
      [.ofString "\tOCT\t1", .ofString "\tORG\t32767", .ofString "\tOCT\t7"]
    ∃ asm, assembleSource options source = .ok asm ∧
      asm.statements.map Statement.emitted =
        [[.ofNat 1], [], [.ofNat 7], [.zero, .ofNat 7, .zero, .ofNat 7]] ∧
      ∃ earlier st later, asm.statements = earlier ++ st :: later ∧
        earlier.map Statement.card = before ∧ st.card = .ofLine 4 (.ofString "\tREP\t2,2") ∧
        ∃ period times, st.Copies (options.lastPass before) earlier period times := by
  intro options source before
  rcases repetitions_copy_latest_words options source
      [.ofString "\tOCT\t1", .ofString "\tORG\t32767", .ofString "\tOCT\t7",
        .ofString "\tREP\t2,2"] (by decide) with
    ⟨asm, hsource, hcopies⟩
  have hemitted : (assembleSource options source).toOption.map
      (fun asm => asm.statements.map Statement.emitted) =
        some [[.ofNat 1], [], [.ofNat 7], [.zero, .ofNat 7, .zero, .ofNat 7]] := by
    decide +kernel
  rw [hsource] at hemitted
  exact ⟨asm, hsource, Option.some.inj hemitted,
    hcopies before _ [] rfl (by decide +kernel) (by decide +kernel)⟩

end Ibm704
