import Ibm704.Assembly.Assembler
import Ibm704.Proofs.FirstPass
import Ibm704.Proofs.SecondPass

/-!
# Whole assemblies

Cards can always be assembled: each is entered, each statement comes ready for
its words, and each gets them.  What is known of a finished assembler is the
history of its first pass and the run of its second one, and everything else is
proved from these two.
-/

namespace Ibm704

/-!
# From one pass to the next

Statements leave the first pass ready for the second, which changes neither what the
card says nor where the statement stands.
-/

namespace FirstPass

theorem Placed.kind {pass : FirstPass} {st : Statement} {result : FirstPass × Statement}
    (h : Placed pass st result) : result.2.kind = st.kind :=
  Statement.of_frame Statement.beforeSpace Statement.kind (fun _ => rfl) h.beforeSpace

theorem Placed.checked {pass : FirstPass} {st : Statement} {result : FirstPass × Statement}
    (h : Placed pass st result) (hchecked : st.Checked) : result.2.Checked := by
  have hkept := fun {α : Type} (part : Statement → α) hpart =>
    Statement.of_frame Statement.beforeSpace part hpart h.beforeSpace
  exact hchecked.of_same h.kind (hkept Statement.mnemonic fun _ => rfl)
    (hkept Statement.exprs fun _ => rfl) (hkept Statement.order fun _ => rfl)
    (hkept Statement.blocked fun _ => rfl)

theorem Placed.period {pass : FirstPass} {st : Statement} {result : FirstPass × Statement}
    (h : Placed pass st result) (hfresh : st.size = 0) (hrepetition : st.kind = .repetition)
    (hsize : 0 < result.2.size) : 0 < result.2.period := by
  cases h with
  | idle =>
      rw [hfresh] at hsize
      cases hsize
  | repetition hfree hexprs hkind hwords htimes =>
      rename_i words times
      have hpositive : 0 < lowBits 15 (words.address.val * times.address.val) := hsize
      show 0 < words.address.val
      apply Nat.pos_of_ne_zero
      intro hzero
      rw [hzero] at hpositive
      simp [lowBits] at hpositive
  | words hfree hkind => simp [hrepetition] at hkind
  | block hfree hexprs hkind => simp [hrepetition] at hkind
  | equated hfree hexprs hkind => simp [hrepetition] at hkind
  | unequated hfree hexprs hkind => simp [hrepetition] at hkind
  | origin hfree hexprs hkind => simp [hrepetition] at hkind
  | anchor hfree hexprs hkind => simp [hrepetition] at hkind
  | finish hfree hkind => simp [hrepetition] at hkind
  | format hfree hkind => simp [hrepetition] at hkind

theorem Entry.Placed.ready {entry : Entry} (h : entry.Placed) : entry.statement.Ready where
  toChecked := FirstPass.Placed.checked h (incoming_checked entry.before entry.card)
  phase :=
    (Statement.of_frame Statement.beforeSpace Statement.phase (fun _ => rfl)
      (FirstPass.Placed.beforeSpace h)).trans (incoming_phase entry.before entry.card)
  period hkind hsize :=
    FirstPass.Placed.period h (incoming_size entry.before entry.card)
      ((FirstPass.Placed.kind h).symm.trans hkind) hsize

end FirstPass

/-!
# Finished assemblers

A finished assembler has one statement for each card, which follows the entry of the
card in the history.
-/

namespace Options

def start (options : Options) : FirstPass :=
  .start options.location options.format

def history (options : Options) (cards : List Card) : List FirstPass.Entry :=
  options.start.history cards

def lastPass (options : Options) (cards : List Card) : FirstPass :=
  options.start.afterAll (options.history cards)

theorem lastPass_current (options : Options) (cards : List Card) :
    (options.lastPass cards).current = none :=
  FirstPass.history_current rfl cards

def entered (options : Options) (cards : List Card) : Assembler :=
  ⟨options.lastPass cards, ∅, (options.history cards).map FirstPass.Entry.statement⟩

def secondPassAt (options : Options) (cards : List Card) (k : Nat) : SecondPass :=
  (options.entered cards).secondPass.stateAt (options.entered cards).statements k

end Options

/-- The assembler has assembled the cards. -/
structure Finished (options : Options) (cards : List Card) (asm : Assembler) : Prop where
  run : SecondPass.Run ⟨(options.lastPass cards).scope, ∅, none⟩
    ((options.history cards).map FirstPass.Entry.statement) ⟨asm.first.scope, asm.words, none⟩
    asm.statements
  first : asm.first = { options.lastPass cards with scope := asm.first.scope }

/-- The statement of a card is at work in the first pass and again in the second, where `before` and
`after` are the states around it, from when it is taken up until it is set down. -/
structure FirstPass.Entry.WorkedOn (entry : FirstPass.Entry) (before after : SecondPass)
    (st : Statement) : Prop where
  first : ∃ placed,
    (entry.before.statementOf entry.card).prepared.AtWork (entry.before.takeUp entry.card).current ∧
    (entry.before.takeUp entry.card).allocate (entry.before.statementOf entry.card).prepared =
      .ok (placed, entry.statement) ∧
    entry.statement.AtWork placed.current ∧ entry.after = placed.setDown
  second : ∃ given,
    entry.statement.AtWork (before.takeUp entry.statement).current ∧
    (before.takeUp entry.statement).assemble entry.statement = .ok (given, st) ∧
    st.AtWork given.current ∧ after = given.setDown

theorem Options.addCards_entered (options : Options) (cards : List Card) :
    (Assembler.start options).addCards cards = .ok (options.entered cards) := by
  have hfirst := FirstPass.enterAll_eq (Assembler.start options).first cards
  rw [Assembler.addCards, hfirst]
  rfl

theorem Options.entered_finish (options : Options) (cards : List Card) :
    ∃ asm, (options.entered cards).finish = (asm, none) ∧ Finished options cards asm := by
  have hready : ∀ st ∈ (options.history cards).map FirstPass.Entry.statement, st.Ready := by
    intro st hmem
    rcases List.mem_map.mp hmem with ⟨entry, hentry, rfl⟩
    exact FirstPass.Entry.Placed.ready (FirstPass.history_placed entry hentry)
  rcases SecondPass.assembleAll_run (options.entered cards).secondPass hready with
    ⟨last, sts, hall, hrun⟩
  have hnone := options.lastPass_current cards
  refine ⟨⟨{ options.lastPass cards with scope := last.scope, current := none }, last.words, sts⟩, ?_,
    hrun, by rw [← hnone]⟩
  have hsecond : (options.entered cards).secondPass.assembleAll (options.entered cards).statements =
      ⟨last.setDown, sts, none⟩ := hall
  rw [Assembler.finish, hsecond]
  rfl

theorem assembleCards_of_finish {options : Options} {cards : List Card} {asm : Assembler}
    (h : (options.entered cards).finish = (asm, none)) : assembleCards options cards = .ok asm := by
  simp only [assembleCards, options.addCards_entered, bind, Except.bind, h]
  rfl

namespace Assembler

structure Follows (asm : Assembler) (entry : FirstPass.Entry) (st : Statement) : Prop where
  placed : entry.Placed
  grows : entry.after.scope.Extends asm.first.scope
  assembled : ∃ before after : SecondPass,
    SecondPass.Assembled before entry.statement (after, st) ∧
      after.scope.LeadsTo asm.first.scope

namespace Follows

variable {asm : Assembler} {entry : FirstPass.Entry} {st : Statement}

theorem kept (h : asm.Follows entry st) : st.beforeWords = entry.statement.beforeWords := by
  rcases h.assembled with ⟨before, after, hassembled, _⟩
  exact hassembled.kept

theorem part {α : Type} (h : asm.Follows entry st) (part : Statement → α)
    (hpart : ∀ st : Statement, part st.beforeWords = part st) : part st = part entry.statement :=
  Statement.of_frame Statement.beforeWords part hpart h.kept

theorem cardPart {α : Type} (h : asm.Follows entry st) (part : Statement → α)
    (hspace : ∀ st : Statement, part st.beforeSpace = part st)
    (hwords : ∀ st : Statement, part st.beforeWords = part st) :
    part st = part (entry.before.incoming entry.card) :=
  (h.part part hwords).trans
    (Statement.of_frame Statement.beforeSpace part hspace h.placed.beforeSpace)

theorem checked (h : asm.Follows entry st) : st.Checked :=
  h.placed.ready.toChecked.of_same (h.part Statement.kind fun _ => rfl)
    (h.part Statement.mnemonic fun _ => rfl) (h.part Statement.exprs fun _ => rfl)
    (h.part Statement.order fun _ => rfl) (h.part Statement.blocked fun _ => rfl)

theorem kind (h : asm.Follows entry st) : st.kind = entry.before.kindOf entry.card :=
  (h.cardPart Statement.kind (fun _ => rfl) fun _ => rfl).trans
    (FirstPass.incoming_kind entry.before entry.card)

theorem card (h : asm.Follows entry st) : st.card = entry.card :=
  (h.cardPart Statement.card (fun _ => rfl) fun _ => rfl).trans
    (congrArg Statement.card (FirstPass.incoming_frame entry.before entry.card))

theorem base (h : asm.Follows entry st) :
    st.base = if st.kind = .origin then entry.after.location else entry.before.location := by
  rw [h.part Statement.base fun _ => rfl,
    h.cardPart Statement.kind (fun _ => rfl) fun _ => rfl]
  exact FirstPass.Placed.base h.placed (FirstPass.incoming_base entry.before entry.card)

end Follows

end Assembler

theorem Finished.follows {options : Options} {cards : List Card} {asm : Assembler}
    (h : Finished options cards asm) :
    List.Forall₂ asm.Follows (options.history cards) asm.statements := by
  have heach := List.forall₂_map_left_iff.mp h.run.each
  have hentries : ∀ entry ∈ options.history cards,
      entry.Placed ∧ entry.after.scope.Extends asm.first.scope := by
    intro entry hmem
    exact ⟨FirstPass.history_placed entry hmem,
      (FirstPass.history_extends options.start cards entry hmem).trans h.run.leadsTo.grows⟩
  refine List.Forall₂.imp ?_ ((List.forall₂_and_left _ _).mpr ⟨hentries, heach⟩)
  rintro entry st ⟨⟨hplaced, hgrows⟩, hassembled⟩
  exact ⟨hplaced, hgrows, hassembled⟩

theorem Finished.kept {options : Options} {cards : List Card} {asm : Assembler}
    (h : Finished options cards asm) :
    asm.statements.map Statement.beforeWords =
      (options.history cards).map fun entry => entry.statement.beforeWords := by
  have hkept : List.Forall₂ (fun entry st => entry.statement.beforeWords = st.beforeWords)
      (options.history cards) asm.statements :=
    List.Forall₂.imp (fun _ _ hfollows => hfollows.kept.symm) h.follows
  have hmaps : List.Forall₂ Eq
      ((options.history cards).map fun entry => entry.statement.beforeWords)
      (asm.statements.map Statement.beforeWords) := by
    rw [List.forall₂_map_left_iff, List.forall₂_map_right_iff]
    exact hkept
  rw [List.forall₂_eq_eq_eq] at hmaps
  exact hmaps.symm

theorem Assembler.cards_of_follows {asm : Assembler} {entries : List FirstPass.Entry}
    {sts : List Statement} (h : List.Forall₂ asm.Follows entries sts) :
    sts.map Statement.card = entries.map FirstPass.Entry.card := by
  have hcards : List.Forall₂ Eq (entries.map FirstPass.Entry.card) (sts.map Statement.card) := by
    rw [List.forall₂_map_left_iff, List.forall₂_map_right_iff]
    exact h.imp fun entry st hfollows => hfollows.card.symm
  rw [List.forall₂_eq_eq_eq] at hcards
  exact hcards.symm

theorem Finished.cards {options : Options} {cards : List Card} {asm : Assembler}
    (h : Finished options cards asm) : asm.statements.map Statement.card = cards :=
  (Assembler.cards_of_follows h.follows).trans (FirstPass.history_cards options.start cards)

theorem exists_left_of_forall₂ {α β : Type} {R : α → β → Prop} {xs : List α} {ys : List β}
    (h : List.Forall₂ R xs ys) {y : β} (hmem : y ∈ ys) : ∃ x ∈ xs, R x y := by
  induction h with
  | nil => cases hmem
  | @cons x other xs ys hfirst _ ih =>
      rcases List.mem_cons.mp hmem with rfl | hrest
      · exact ⟨x, List.mem_cons_self, hfirst⟩
      · rcases ih hrest with ⟨x', hx', hR⟩
        exact ⟨x', List.mem_cons_of_mem x hx', hR⟩

theorem exists_right_of_forall₂ {α β : Type} {R : α → β → Prop} {xs : List α} {ys : List β}
    (h : List.Forall₂ R xs ys) {i : Nat} {x : α} (hx : xs[i]? = some x) :
    ∃ y, ys[i]? = some y ∧ R x y := by
  induction h generalizing i with
  | nil => cases hx
  | @cons first other xs ys hfirst _ ih =>
      cases i with
      | zero =>
          cases hx
          exact ⟨other, rfl, hfirst⟩
      | succ i => exact ih hx

theorem Finished.entry_of_mem {options : Options} {cards : List Card} {asm : Assembler}
    (h : Finished options cards asm) {st : Statement} (hmem : st ∈ asm.statements) :
    ∃ entry ∈ options.history cards, entry.card ∈ cards ∧ asm.Follows entry st := by
  rcases exists_left_of_forall₂ h.follows hmem with ⟨entry, hentry, hfollows⟩
  refine ⟨entry, hentry, ?_, hfollows⟩
  rw [← FirstPass.history_cards options.start cards]
  exact List.mem_map_of_mem hentry

theorem assembleSource_of_finish {options : Options} {source : Text} {lines : List Text}
    {asm : Assembler} (hlines : Source.lines? source = some lines)
    (hfinish : (options.entered (Card.ofLines 1 lines)).finish = (asm, none)) :
    assembleSource options source = .ok asm := by
  simp only [assembleSource, hlines, assembleLines, assembleCards_of_finish hfinish]
  rfl

theorem Options.workedOn {options : Options} {cards : List Card} {asm : Assembler}
    (h : (options.entered cards).finish = (asm, none)) {k : Nat} {entry : FirstPass.Entry}
    (hentry : (options.history cards)[k]? = some entry) :
    ∃ st, asm.statements[k]? = some st ∧
      entry.WorkedOn (options.secondPassAt cards k) (options.secondPassAt cards (k + 1)) st := by
  unfold Assembler.finish at h
  cases houtcome : (options.entered cards).secondPass.assembleAll (options.entered cards).statements with
  | mk last sts fault =>
      rw [houtcome] at h
      rcases Prod.mk.inj h with ⟨rfl, rfl⟩
      have hstatement : (options.entered cards).statements[k]? = some entry.statement := by
        rw [entered, List.getElem?_map, hentry]
        rfl
      rcases SecondPass.assembleAll_step houtcome hstatement with ⟨given, st, hst, hassemble, hnext⟩
      have hentered : entry.before.enter entry.card = .ok (entry.after, entry.statement) :=
        FirstPass.history_entered entry (List.mem_of_getElem? hentry)
      have hwork := SecondPass.takeUp_atWork (options.secondPassAt cards k) entry.statement
      exact ⟨st, hst, FirstPass.enter_atWork hentered, given, hwork, hassemble,
        SecondPass.assemble_atWork hassemble hwork, hnext⟩

theorem assembleSource_finished (options : Options) {source : Text} {lines : List Text}
    (h : Source.lines? source = some lines) :
    ∃ asm, assembleSource options source = .ok asm ∧
      Finished options (Card.ofLines 1 lines) asm := by
  rcases options.entered_finish (Card.ofLines 1 lines) with ⟨asm, hfinish, hfinished⟩
  exact ⟨asm, assembleSource_of_finish h hfinish, hfinished⟩

end Ibm704
