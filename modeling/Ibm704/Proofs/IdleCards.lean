import Ibm704.Proofs.Positions

/-!
# Idle cards

Neither pass does anything with a statement that is blocked, nor with a heading, a
library card or a remark.  A card that becomes such a statement can be put
anywhere among the cards of a program: the states of both passes stay what they
are, and the program has one more statement, which leaves no words.
-/

namespace Ibm704

namespace Statement

def Idle (st : Statement) : Prop :=
  st.blocked = true ∨ st.kind = .heading ∨ st.kind = .library ∨ st.kind = .remark

def wordless (st : Statement) : Statement :=
  { st with phase := .assembled, words := some [] }

theorem wordless_placements {st : Statement} (hsize : st.size = 0) (hbreaks : st.breaks = false) :
    st.wordless.placements = [] := by
  simp [placements, wordless, hsize, hbreaks]

end Statement

/-!
# One card

An idle statement leaves each pass as it was, with no statement at work.
-/

namespace FirstPass

theorem enter_idle {pass : FirstPass} {card : Card} (h : (pass.incoming card).Idle) :
    pass.enter card = .ok (pass.setDown, pass.incoming card) := by
  rw [enter_eq]
  rcases h with hblocked | hkind
  · rw [if_pos hblocked]
    rfl
  · split
    · rfl
    · unfold place
      rcases hkind with hkind | hkind | hkind <;> rw [hkind] <;> rfl

theorem history_idle {pass : FirstPass} {card : Card} (hnone : pass.current = none)
    (h : (pass.incoming card).Idle) (rest : List Card) :
    pass.history (card :: rest) = ⟨card, pass, pass, pass.incoming card⟩ :: pass.history rest := by
  simp only [history, enter_idle h, setDown_eq hnone]

end FirstPass

namespace SecondPass

theorem wordsOf_idle {pass : SecondPass} {st : Statement}
    (h : st.kind = .heading ∨ st.kind = .library ∨ st.kind = .remark) :
    pass.wordsOf st = .ok ([], st, pass.scope) := by
  unfold wordsOf
  rcases h with h | h | h <;> rw [h]

theorem assemble_idle {pass : SecondPass} {st : Statement} (hphase : st.phase = .allocated)
    (h : st.Idle) : pass.assemble st = .ok (pass, st.wordless) := by
  rw [assemble_eq pass hphase]
  rcases h with hblocked | hkind
  · rw [if_pos hblocked]
    rfl
  · split
    · rfl
    · have hwords : pass.wordsOf { st with phase := .assembled } = .ok ([], _, pass.scope) :=
        wordsOf_idle hkind
      rw [hwords]
      rfl

/-!
# Many statements

An idle statement among others leaves them as they are, in both passes.
-/

theorem assembleAll_current (pass : SecondPass) (current : Option CardPosition)
    (sts : List Statement) :
    assembleAll { pass with current := current } sts = pass.assembleAll sts := by
  cases sts <;> rfl

theorem assembleAll_length (pass : SecondPass) (sts : List Statement) :
    (pass.assembleAll sts).statements.length = sts.length := by
  induction sts generalizing pass with
  | nil => rfl
  | cons st rest ih =>
      unfold assembleAll
      split
      · rename_i next st' _
        exact congrArg Nat.succ (ih next)
      · rfl

theorem assembleAll_append {pass : SecondPass} {sts : List Statement}
    (h : (pass.assembleAll sts).fault = none) (others : List Statement) :
    pass.assembleAll (sts ++ others) =
      { (pass.assembleAll sts).pass.assembleAll others with
        statements := (pass.assembleAll sts).statements ++
          ((pass.assembleAll sts).pass.assembleAll others).statements } := by
  induction sts generalizing pass with
  | nil => exact (pass.assembleAll_current none others).symm
  | cons st rest ih =>
      cases hassemble : (pass.takeUp st).assemble st with
      | error fault =>
          simp only [assembleAll, hassemble] at h
          cases h
      | ok result =>
          rcases result with ⟨next, st'⟩
          rw [assembleAll_cons hassemble] at h
          rw [List.cons_append, assembleAll_cons hassemble, assembleAll_cons hassemble, ih h]
          rfl

theorem assembleAll_insert {pass : SecondPass} {sts : List Statement} {st : Statement}
    (h : (pass.assembleAll sts).fault = none) (hphase : st.phase = .allocated) (hidle : st.Idle)
    (others : List Statement) :
    pass.assembleAll (sts ++ st :: others) =
      { pass.assembleAll (sts ++ others) with
        statements := (pass.assembleAll sts).statements ++
          st.wordless :: ((pass.assembleAll sts).pass.assembleAll others).statements } := by
  rw [assembleAll_append h, assembleAll_append h, assembleAll_cons (assemble_idle hphase hidle),
    takeUp, assembleAll_current]

end SecondPass

/-!
# Whole programs

The two programs are in one state when they come to the card, and again after it.
-/

namespace Options

variable (options : Options) (earlier later : List Card) {card : Card}

theorem history_length (cards : List Card) :
    (options.history cards).length = cards.length := by
  have hcards := FirstPass.history_cards options.start cards
  rw [← List.length_map (f := FirstPass.Entry.card)]
  exact congrArg List.length hcards

theorem history_append :
    options.history (earlier ++ later) =
      options.history earlier ++ (options.lastPass earlier).history later :=
  FirstPass.history_append options.start earlier later

theorem lastPass_append :
    options.lastPass (earlier ++ later) =
      (options.lastPass earlier).afterAll ((options.lastPass earlier).history later) := by
  unfold lastPass
  rw [history_append, FirstPass.afterAll_append]
  rfl

theorem lastPass_insert (h : ((options.lastPass earlier).incoming card).Idle) :
    options.lastPass (earlier ++ card :: later) = options.lastPass (earlier ++ later) := by
  rw [lastPass_append, lastPass_append,
    FirstPass.history_idle (options.lastPass_current earlier) h]
  rfl

theorem statements_insert (h : ((options.lastPass earlier).incoming card).Idle) :
    (options.history (earlier ++ card :: later)).map FirstPass.Entry.statement =
      (options.history earlier).map FirstPass.Entry.statement ++
        (options.lastPass earlier).incoming card ::
          ((options.lastPass earlier).history later).map FirstPass.Entry.statement := by
  rw [history_append, FirstPass.history_idle (options.lastPass_current earlier) h, List.map_append,
    List.map_cons]

theorem finished_insert (h : ((options.lastPass earlier).incoming card).Idle) :
    ∃ before after, before.length = earlier.length ∧
      (options.finished (earlier ++ later)).statements = before ++ after ∧
      options.finished (earlier ++ card :: later) =
        { options.finished (earlier ++ later) with
          statements :=
            before ++ ((options.lastPass earlier).incoming card).wordless :: after } := by
  let start : SecondPass := ⟨(options.lastPass (earlier ++ later)).scope, ∅, none⟩
  have hfault : (start.assembleAll
      ((options.history earlier).map FirstPass.Entry.statement)).fault = none := by
    rcases SecondPass.assembleAll_run start (options.ready earlier) with ⟨last, sts, hall, _⟩
    rw [hall]
  have hwithout := SecondPass.assembleAll_append hfault
    (((options.lastPass earlier).history later).map FirstPass.Entry.statement)
  have hwith := SecondPass.assembleAll_insert hfault
    (FirstPass.incoming_phase (options.lastPass earlier) card) h
    (((options.lastPass earlier).history later).map FirstPass.Entry.statement)
  rw [← List.map_append, ← history_append] at hwithout hwith
  rw [← options.statements_insert earlier later h] at hwith
  refine ⟨_, _, ?_, congrArg SecondPass.Outcome.statements hwithout, ?_⟩
  · rw [SecondPass.assembleAll_length, List.length_map, history_length]
  · unfold finished outcome
    rw [lastPass_insert options earlier later h, hwith]

end Options

end Ibm704
