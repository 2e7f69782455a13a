import Mathlib.Data.List.Nodup
import Ibm704.Proofs.Assembly

/-!
# Space and words

The first pass reserves space and the second pass fills it.  The counter never
leaves core, it moves from the base of a statement by the size of the statement,
and a statement is later given exactly as many words as it has space, or none.  So
words cannot meet as long as no card sets the counter and core is large enough.
-/

namespace Ibm704

/-!
# The counter

The counter moves from the base of a statement by its size, and it stays within core.
-/

namespace Address

theorem add_val_nat (a : Address) (n : Nat) : (a.add n).val = (a.val + n) % coreSize := by
  simp only [add, ofInt_val, coreSize]
  omega

end Address

namespace FirstPass

theorem reserve_counter (pass : FirstPass) (st : Statement) (size : Nat) (binding : Binding) :
    (pass.reserve st size binding).1.location.val =
      ((pass.reserve st size binding).2.base.val + (pass.reserve st size binding).2.size) %
        coreSize :=
  Address.add_val_nat pass.location size

theorem Placed.counter {pass : FirstPass} {st : Statement} {result : FirstPass × Statement}
    (h : Placed pass st result) (hlocation : pass.location.val < coreSize)
    (hbase : st.base = pass.location) (hsize : st.size = 0) :
    result.1.location.val = (result.2.base.val + result.2.size) % coreSize := by
  have hstay : ∀ {location base : Address} {size : Nat}, location.val < coreSize →
      base = location → size = 0 → location.val = (base.val + size) % coreSize := by
    intro location base size hbound hsame hzero
    rw [hsame, hzero, Nat.add_zero, Nat.mod_eq_of_lt hbound]
  have hresolvedBase : ∀ {e}, (pass.resolved st e).statement.base = pass.location :=
    (resolved_part Statement.base fun _ _ => rfl).trans hbase
  have hresolvedSize : ∀ {e}, (pass.resolved st e).statement.size = 0 :=
    (resolved_part Statement.size fun _ _ => rfl).trans hsize
  cases h with
  | idle => exact hstay hlocation hbase hsize
  | words => exact reserve_counter _ _ _ _
  | block => exact reserve_counter _ _ _ _
  | equated => exact hstay hlocation hresolvedBase hresolvedSize
  | unequated => exact hstay hlocation hresolvedBase hresolvedSize
  | origin => exact hstay (Address.ofInt_val_lt _) rfl hresolvedSize
  | repetition => exact reserve_counter _ _ _ _
  | anchor => exact hstay hlocation hresolvedBase hresolvedSize
  | finish => exact reserve_counter _ _ _ _
  | format => exact hstay hlocation hbase hsize

theorem Entry.Placed.counter {entry : Entry} (h : entry.Placed)
    (hlocation : entry.before.location.val < coreSize) :
    entry.after.location.val =
      (entry.statement.base.val + entry.statement.size) % coreSize :=
  FirstPass.Placed.counter h hlocation (incoming_base entry.before entry.card)
    (incoming_size entry.before entry.card)

theorem Entry.Placed.location_lt {entry : Entry} (h : entry.Placed)
    (hlocation : entry.before.location.val < coreSize) :
    entry.after.location.val < coreSize := by
  rw [h.counter hlocation]
  exact Nat.mod_lt _ (by decide)

theorem history_location_lt {pass : FirstPass} (hlocation : pass.location.val < coreSize)
    (cards : List Card) :
    (pass.afterAll (pass.history cards)).location.val < coreSize ∧
      ∀ entry ∈ pass.history cards, entry.before.location.val < coreSize := by
  have h := history_respects
    (R := fun first second => first.location.val < coreSize → second.location.val < coreSize)
    (fun _ hbound => hbound) (fun hfirst hsecond hbound => hsecond (hfirst hbound))
    (fun _ hplaced => hplaced.location_lt) pass cards
  exact ⟨h.1 hlocation, fun entry hmem => (h.2 entry hmem).1 hlocation⟩

end FirstPass

namespace Assembler

/-- The states of an assembler that was started with the options: it takes cards, it is finished,
and symbols are looked up and defined, in any order. -/
inductive Reachable (options : Options) : Assembler → Prop where
  | start : Reachable options (.start options)
  | card {asm asm' : Assembler} {card : Card} {st : Statement} (h : Reachable options asm)
      (hcard : asm.addCard card = .ok (asm', st)) : Reachable options asm'
  | cards {asm asm' : Assembler} {cards : List Card} (h : Reachable options asm)
      (hcards : asm.addCards cards = .ok asm') : Reachable options asm'
  | finish {asm : Assembler} (h : Reachable options asm) : Reachable options asm.finish.1
  | lookup {asm : Assembler} (name : Text) (h : Reachable options asm) :
      Reachable options (asm.lookup name).2
  | define {asm : Assembler} (name : Text) (value : Word) (h : Reachable options asm) :
      Reachable options (asm.define name value)

theorem Reachable.location_lt {options : Options} {asm : Assembler}
    (h : Reachable options asm) (hlocation : options.location.val < coreSize) :
    asm.location.val < coreSize := by
  induction h with
  | start => exact hlocation
  | @card asm asm' card st _ hcard ih =>
      rcases FirstPass.enter_placed asm.first card with ⟨⟨after, placed⟩, henter, hplaced⟩
      have hentry : FirstPass.Entry.Placed ⟨card, asm.first, after, placed⟩ := hplaced
      rw [addCard, henter] at hcard
      cases hcard
      exact hentry.location_lt ih
  | @cards asm asm' cards _ hcards ih =>
      rw [addCards, FirstPass.enterAll_eq] at hcards
      cases hcards
      exact (FirstPass.history_location_lt ih cards).1
  | finish _ ih => exact ih
  | lookup _ _ ih => exact ih
  | define _ _ _ ih => exact ih

end Assembler

/-!
# Finishing

The second pass changes neither the counter nor the places of statements, even if it
stops at a fault.
-/

namespace SecondPass

theorem assembleAll_kept (pass : SecondPass) (sts : List Statement) :
    (pass.assembleAll sts).statements.map Statement.beforeWords =
      sts.map Statement.beforeWords := by
  induction sts generalizing pass with
  | nil => rfl
  | cons st rest ih =>
      unfold assembleAll
      split
      · rename_i next st' hassemble
        rw [List.map_cons, List.map_cons, assemble_kept hassemble, ih]
      · rfl

end SecondPass

theorem Assembler.finish_keeps (asm : Assembler) :
    asm.finish.1.location = asm.location ∧
      asm.finish.1.statements.map (fun st => (st.base, st.size)) =
        asm.statements.map fun st => (st.base, st.size) := by
  refine ⟨rfl, ?_⟩
  have hkept := SecondPass.assembleAll_kept asm.secondPass asm.statements
  have hplaces := congrArg (List.map fun st : Statement => (st.base, st.size)) hkept
  rw [List.map_map, List.map_map] at hplaces
  exact hplaces

/-!
# The number of words

The second pass gives a statement as many words as it has space for.
-/

def StatementKind.leavesWords : StatementKind → Bool
  | .instruction | .characters | .decimal | .octal | .repetition | .finish => true
  | _ => false

def Statement.wordCount (st : Statement) : Nat :=
  if st.blocked = false ∧ st.kind.leavesWords then st.size else 0

namespace FirstPass

theorem Placed.size {pass : FirstPass} {st : Statement} {result : FirstPass × Statement}
    (h : Placed pass st result) (hfree : st.blocked = false) :
    (st.kind = .instruction ∨ st.kind = .finish → result.2.size = 1) ∧
      (st.kind = .characters ∨ st.kind = .decimal ∨ st.kind = .octal →
        result.2.size = st.data.length) := by
  cases h with
  | words _ hkind =>
      rcases hkind with ⟨hkind, hsize⟩ | ⟨hkind | hkind | hkind, hsize⟩ <;>
        simp [hkind, reserve, hsize]
  | finish _ hkind => simp [hkind, reserve]
  | idle hkind =>
      rw [hfree] at hkind
      rcases hkind with hkind | hkind | hkind | hkind
      · cases hkind
      all_goals simp [hkind]
  | block _ _ hkind => rcases hkind with ⟨hkind, _⟩ | ⟨hkind, _⟩ <;> simp [hkind]
  | equated _ _ hkind => rcases hkind with hkind | hkind <;> simp [hkind]
  | unequated _ _ hkind => rcases hkind with hkind | hkind <;> simp [hkind]
  | origin _ _ hkind => simp [hkind]
  | repetition _ _ hkind => simp [hkind]
  | anchor _ _ hkind => simp [hkind]
  | format _ hkind => rcases hkind with ⟨hkind, _⟩ | ⟨hkind, _⟩ <;> simp [hkind]

end FirstPass

theorem SecondPass.Given.length {pass : SecondPass} {st : Statement} {words : List Word}
    {scope : Scope} (h : Given pass st words scope)
    (hsingle : st.blocked = false → st.kind = .instruction ∨ st.kind = .finish → st.size = 1)
    (hdata : st.blocked = false → st.kind = .characters ∨ st.kind = .decimal ∨ st.kind = .octal →
      st.size = st.data.length) :
    words.length = st.wordCount := by
  unfold Statement.wordCount
  cases h with
  | nothing hkind =>
      rw [if_neg]
      · rfl
      · rintro ⟨hfree, hleaves⟩
        rw [hfree] at hkind
        revert hkind hleaves
        cases st.kind <;> simp [StatementKind.leavesWords]
  | data hfree hkind =>
      rw [if_pos ⟨hfree, by rcases hkind with h | h | h <;> rw [h] <;> rfl⟩, hdata hfree hkind]
  | copies hfree hkind =>
      rw [if_pos ⟨hfree, by rw [hkind]; rfl⟩, List.length_map, List.length_range]
  | instruction hfree hkind =>
      rw [if_pos ⟨hfree, by rw [hkind]; rfl⟩, hsingle hfree (Or.inl hkind)]
      rfl
  | finish hfree hkind =>
      rw [if_pos ⟨hfree, by rw [hkind]; rfl⟩, hsingle hfree (Or.inr hkind)]
      rfl

namespace Assembler

structure Fills (entry : FirstPass.Entry) (st : Statement) : Prop where
  card : st.card = entry.card
  base : st.base = if st.kind = .origin then entry.after.location else entry.before.location
  counter : entry.after.location.val = (st.base.val + st.size) % coreSize
  kept : st.base = entry.statement.base ∧ st.size = entry.statement.size
  words : st.words.map List.length = some st.wordCount

theorem Follows.emitted_length {asm : Assembler} {entry : FirstPass.Entry} {st : Statement}
    (h : asm.Follows entry st) : st.emitted.length = st.wordCount := by
  have hsize := h.part Statement.size fun _ => rfl
  have hkind := h.cardPart Statement.kind (fun _ => rfl) fun _ => rfl
  have hdata := h.cardPart Statement.data (fun _ => rfl) fun _ => rfl
  have hblocked := h.cardPart Statement.blocked (fun _ => rfl) fun _ => rfl
  rcases h.assembled with ⟨before, after, hassembled, _⟩
  refine hassembled.given.length ?_ ?_
  · intro hfree hsingle
    rw [hblocked] at hfree
    rw [hkind] at hsingle
    exact hsize.trans ((FirstPass.Placed.size h.placed hfree).1 hsingle)
  · intro hfree hliteral
    rw [hblocked] at hfree
    rw [hkind] at hliteral
    rw [hdata]
    exact hsize.trans ((FirstPass.Placed.size h.placed hfree).2 hliteral)

theorem Follows.words {asm : Assembler} {entry : FirstPass.Entry} {st : Statement}
    (h : asm.Follows entry st) : st.words = some st.emitted := by
  rcases h.assembled with ⟨before, after, hassembled, _⟩
  exact hassembled.words

theorem Follows.fills {asm : Assembler} {entry : FirstPass.Entry} {st : Statement}
    (h : asm.Follows entry st) (hlocation : entry.before.location.val < coreSize) :
    Fills entry st := by
  have hbase := h.part Statement.base fun _ => rfl
  have hsize := h.part Statement.size fun _ => rfl
  refine ⟨h.card, h.base, ?_, ⟨hbase, hsize⟩, ?_⟩
  · rw [hbase, hsize]
    exact h.placed.counter hlocation
  · rw [h.words]
    exact congrArg some h.emitted_length

theorem Fills.length_le {entry : FirstPass.Entry} {st : Statement} (h : Fills entry st) :
    st.emitted.length ≤ st.size := by
  rcases Option.map_eq_some_iff.mp h.words with ⟨words, hwords, hlength⟩
  rw [Statement.emitted, hwords, Option.getD_some, hlength, Statement.wordCount]
  split
  · exact Nat.le_refl _
  · exact Nat.zero_le _

end Assembler

/-!
# Locations of words

Words follow each other from the base on, around the top of core.  Without a card that
sets the counter the locations of a program ascend, with gaps perhaps.
-/

def wordsFrom (n : Nat) (words : List Word) : List (Nat × Word) :=
  words.mapIdx fun i w => ((n + i) % coreSize, w)

def Statement.located (st : Statement) : List (Nat × Word) :=
  wordsFrom st.base.val st.emitted

theorem wordsFrom_cons (n : Nat) (w : Word) (rest : List Word) :
    wordsFrom n (w :: rest) = (n % coreSize, w) :: wordsFrom (n + 1) rest := by
  unfold wordsFrom
  rw [List.mapIdx_cons, Nat.add_zero]
  congr 2
  funext i v
  rw [Nat.add_assoc, Nat.add_comm 1 i]

theorem wordsFrom_mod (n : Nat) (words : List Word) :
    wordsFrom (n % coreSize) words = wordsFrom n words := by
  unfold wordsFrom
  congr 1
  funext i w
  rw [Nat.mod_add_mod]

theorem wordsFrom_words (n : Nat) (words : List Word) :
    (wordsFrom n words).map Prod.snd = words := by
  induction words generalizing n with
  | nil => rfl
  | cons w rest ih => rw [wordsFrom_cons, List.map_cons, ih]

theorem wordsFrom_locations (n : Nat) (words : List Word) :
    (wordsFrom n words).map Prod.fst = (List.range' n words.length).map (· % coreSize) := by
  induction words generalizing n with
  | nil => rfl
  | cons w rest ih => rw [wordsFrom_cons, List.map_cons, ih]; rfl

def totalSize : List Statement → Nat
  | [] => 0
  | st :: rest => st.size + totalSize rest

theorem locations_sublist {pass : FirstPass} {cards : List Card} {sts : List Statement} {n : Nat}
    (hfills : List.Forall₂ Assembler.Fills (pass.history cards) sts)
    (hforward : ∀ st ∈ sts, st.kind ≠ .origin) (hlocation : pass.location.val = n % coreSize) :
    ((sts.flatMap Statement.located).map Prod.fst).Sublist
      ((List.range' n (totalSize sts)).map (· % coreSize)) := by
  induction cards generalizing pass sts n with
  | nil =>
      cases hfills
      exact List.Sublist.slnil
  | cons card rest ih =>
      rcases FirstPass.history_cons pass card rest with ⟨entry, hhistory, _, hbefore, _, _⟩
      rw [hhistory] at hfills
      cases hfills with
      | @cons _ st _ others hfirst hothers =>
          have hbase : st.base.val = n % coreSize := by
            rw [hfirst.base, if_neg (hforward st List.mem_cons_self), hbefore, hlocation]
          have hafter : entry.after.location.val = (n + st.size) % coreSize := by
            rw [hfirst.counter, hbase, Nat.mod_add_mod]
          have hlength := hfirst.length_le
          rw [List.flatMap_cons, List.map_append, totalSize, ← List.range'_append_1,
            List.map_append]
          refine List.Sublist.append ?_ (ih hothers ?_ hafter)
          · rw [Statement.located, hbase, wordsFrom_mod, wordsFrom_locations]
            exact List.Sublist.map _ (List.range'_sublist_right.mpr hlength)
          · intro other hmem
            exact hforward other (List.mem_cons_of_mem st hmem)

theorem range'_locations_nodup {n length : Nat} (h : length ≤ coreSize) :
    ((List.range' n length).map (· % coreSize)).Nodup := by
  apply List.Nodup.map_on
  · intro x hx y hy hxy
    simp only [List.mem_range'_1, coreSize] at h hx hy hxy
    omega
  · exact List.nodup_range'

theorem Assembler.reachable_of_finish {options : Options} {cards : List Card} {asm : Assembler}
    (h : (options.entered cards).finish = (asm, none)) : Assembler.Reachable options asm := by
  have hreachable := (Assembler.Reachable.start.cards (options.addCards_entered cards)).finish
  rw [h] at hreachable
  exact hreachable

theorem Finished.fills {options : Options} {cards : List Card} {asm : Assembler}
    (h : Finished options cards asm) (hlocation : options.location.val < coreSize) :
    List.Forall₂ Assembler.Fills (options.history cards) asm.statements := by
  have hstart : options.start.location.val < coreSize := hlocation
  have hbounds := (FirstPass.history_location_lt hstart cards).2
  refine List.Forall₂.imp ?_ ((List.forall₂_and_left _ _).mpr ⟨hbounds, h.follows⟩)
  rintro entry st ⟨hbound, hfollows⟩
  exact hfollows.fills hbound

theorem Finished.locations_nodup {options : Options} {cards : List Card} {asm : Assembler}
    (h : Finished options cards asm) (hlocation : options.location.val < coreSize)
    (hforward : ∀ card ∈ cards, (Statement.classify card).1 ≠ .origin)
    (hroom : totalSize asm.statements ≤ coreSize) :
    ((asm.statements.flatMap Statement.located).map Prod.fst).Nodup := by
  have hkinds : ∀ st ∈ asm.statements, st.kind ≠ .origin := by
    intro st hmem
    rcases h.entry_of_mem hmem with ⟨entry, _, hcard, hfollows⟩
    rw [hfollows.kind, FirstPass.kindOf]
    split
    · simp
    · exact hforward entry.card hcard
  have hstart : options.start.location.val = options.location.val % coreSize :=
    (Nat.mod_eq_of_lt hlocation).symm
  exact (range'_locations_nodup hroom).sublist
    (locations_sublist (h.fills hlocation) hkinds hstart)

/-- From a start within core the counter stays within core, finishing moves nothing, every
statement of a program gets the words for which space was reserved, and if no card sets the counter
and the sizes do not exceed core, all words stand at different locations. -/
theorem second_pass_fills_space (options : Options) (source : Text) (lines : List Text)
    (hlocation : options.location.val < coreSize) (hlines : Source.lines? source = some lines) :
    (∀ asm, Assembler.Reachable options asm → asm.location.val < coreSize ∧
      asm.finish.1.location = asm.location ∧
      asm.finish.1.statements.map (fun st => (st.base, st.size)) =
        asm.statements.map fun st => (st.base, st.size)) ∧
    ∃ asm, assembleSource options source = .ok asm ∧ Assembler.Reachable options asm ∧
      asm.location = (options.lastPass (Card.ofLines 1 lines)).location ∧
      List.Forall₂ Assembler.Fills (options.history (Card.ofLines 1 lines)) asm.statements ∧
      ((∀ card ∈ Card.ofLines 1 lines, (Statement.classify card).1 ≠ .origin) →
        totalSize asm.statements ≤ coreSize →
        ((asm.statements.flatMap Statement.located).map Prod.fst).Nodup) := by
  constructor
  · intro asm hreachable
    exact ⟨hreachable.location_lt hlocation, asm.finish_keeps⟩
  · rcases options.entered_finish (Card.ofLines 1 lines) with ⟨asm, hfinish, hfinished⟩
    have hcounter : asm.location = (options.lastPass (Card.ofLines 1 lines)).location := by
      rw [Assembler.location, hfinished.first]
    refine ⟨asm, assembleSource_of_finish hlines hfinish, Assembler.reachable_of_finish hfinish,
      hcounter, hfinished.fills hlocation, ?_⟩
    intro hforward hroom
    exact hfinished.locations_nodup hlocation hforward hroom

/-- Words around the top of core, with a blocked statement and a block between them. -/
theorem second_pass_fills_space_around_top :
    (Address.ofNat 32766).val < coreSize ∧
      ∃ asm, assembleSource ⟨.ofNat 32766, .absolute⟩ (.ofString
          "A\tOCT\t1,2\n\tREP\t2,3\n\tXXX\nB\tBSS\t4\n\tEND\tA\n") = .ok asm ∧
        totalSize asm.statements = 13 ∧
        List.Forall₂ Assembler.Fills
          (Options.history ⟨.ofNat 32766, .absolute⟩ (Card.ofLines 1
            [.ofString "A\tOCT\t1,2", .ofString "\tREP\t2,3", .ofString "\tXXX",
              .ofString "B\tBSS\t4", .ofString "\tEND\tA"]))
          asm.statements ∧
        ((asm.statements.flatMap Statement.located).map Prod.fst).Nodup := by
  refine ⟨by decide, ?_⟩
  rcases second_pass_fills_space ⟨.ofNat 32766, .absolute⟩ (.ofString
      "A\tOCT\t1,2\n\tREP\t2,3\n\tXXX\nB\tBSS\t4\n\tEND\tA\n")
    [.ofString "A\tOCT\t1,2", .ofString "\tREP\t2,3", .ofString "\tXXX",
      .ofString "B\tBSS\t4", .ofString "\tEND\tA"] (by decide) (by decide) with
    ⟨_, asm, hsource, _, _, hfills, hnodup⟩
  have hsizes : (assembleSource ⟨.ofNat 32766, .absolute⟩ (.ofString
      "A\tOCT\t1,2\n\tREP\t2,3\n\tXXX\nB\tBSS\t4\n\tEND\tA\n")).toOption.map
        (fun asm => totalSize asm.statements) = some 13 := by
    decide +kernel
  rw [hsource] at hsizes
  have hsum : totalSize asm.statements = 13 := Option.some.inj hsizes
  exact ⟨asm, hsource, hsum, hfills, hnodup (by decide +kernel) (by rw [hsum]; decide)⟩

end Ibm704
