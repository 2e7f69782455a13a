import Ibm704.Proofs.CoreWords
import Ibm704.Proofs.FinalSymbols
import Ibm704.Proofs.Fields
import Ibm704.Proofs.ImageRoundTrip

/-!
# From source to core

The image of a program can be written, and loading it cannot fail.  It leaves the
words of the program in core, each at its location; where several words share
one, the last stays.  The end card starts the program at its operand and takes no
location.
-/

namespace Ibm704

/-! # Start addresses -/

theorem Word.or_address {w : Word} {n : Nat} (hw : w.toNat % 32768 = 0) (hn : n < 32768) :
    (w.or (.ofNat n)).address.val = n := by
  rw [address_val, toNat_or_ofNat (show 15 ≤ 64 by decide) hw hn]
  omega

/-!
# Formats

The end card is loaded as a transfer, and all other statements are loaded as words.
-/

def Format.LoadsWords (format : Format) : Prop :=
  format = .absolute ∨ format = .full

theorem Format.LoadsWords.ne_transfer {format : Format} (h : format.LoadsWords) :
    format ≠ .transfer := by
  rcases h with rfl | rfl
  · decide
  · decide

namespace FirstPass

theorem history_format {pass : FirstPass} (hpass : pass.format.LoadsWords) (cards : List Card) :
    ∀ entry ∈ pass.history cards, entry.before.format.LoadsWords := by
  have hstep : ∀ entry : Entry, entry.Placed →
      entry.before.format.LoadsWords → entry.after.format.LoadsWords := by
    intro entry hplaced hbefore
    by_cases hfinish : (entry.before.incoming entry.card).kind = .finish
    · have hchecked := incoming_checked entry.before entry.card
      exact (FirstPass.Placed.of_finish hplaced hchecked hfinish).2.1 ▸ hbefore
    · rcases (FirstPass.Placed.of_not_finish hplaced hfinish).2 with ⟨hsame, _⟩ | ⟨hnew, _⟩
      · exact hsame ▸ hbefore
      · exact hnew
  have h := history_respects
    (R := fun first second => first.format.LoadsWords → second.format.LoadsWords)
    (fun _ hformat => hformat) (fun hfirst hsecond hformat => hsecond (hfirst hformat)) hstep
    pass cards
  intro entry hmem
  exact (h.2 entry hmem).1 hpass

theorem history_finishes (pass : FirstPass) (cards : List Card) :
    (pass.history cards).countP (fun entry => entry.statement.kind = .finish) =
      if pass.ended = false ∧ ∃ card ∈ cards, (Statement.classify card).1 = .finish then 1 else 0 := by
  induction cards generalizing pass with
  | nil => simp [history]
  | cons card rest ih =>
      rcases history_cons pass card rest with ⟨entry, hhistory, rfl, rfl, hplaced, _⟩
      have hkind : entry.statement.kind = entry.before.kindOf entry.card :=
        (FirstPass.Placed.kind hplaced).trans (incoming_kind entry.before entry.card)
      rw [hhistory, List.countP_cons, ih, hkind, kindOf]
      by_cases hbefore : entry.before.ended = true
      · have hafter := hplaced.ended.mpr (Or.inl hbefore)
        simp [hbefore, hafter]
      · by_cases hcard : (Statement.classify entry.card).1 = .finish
        · have hafter := hplaced.ended.mpr (Or.inr hcard)
          simp [hbefore, hafter, hcard]
        · have hafter : entry.after.ended = false := by
            apply Bool.eq_false_iff.mpr
            intro hended
            rcases hplaced.ended.mp hended with hended | hended
            · exact hbefore hended
            · exact hcard hended
          simp [hbefore, hafter, hcard]

end FirstPass

/-!
# The words of a program

There is one end card at most, since after it every card is a remark.  It has one
word, which is not written to core.
-/

namespace Assembler

def located (asm : Assembler) : List (Nat × Word) :=
  (asm.statements.filter fun st => st.kind ≠ .finish).flatMap Statement.located

end Assembler

theorem filter_contents {sts : List Statement} {p : Format → Bool} {q : Statement → Bool}
    (h : ∀ st ∈ sts, p st.format = q st) :
    (sts.flatMap Statement.contents).filter (fun word => p word.1) =
      (sts.filter q).flatMap Statement.contents := by
  induction sts with
  | nil => rfl
  | cons st rest ih =>
      have hrest := ih fun other hmem => h other (List.mem_cons_of_mem st hmem)
      have hsame : ∀ word ∈ st.contents, p word.1 = q st := by
        intro word hmem
        rw [Statement.contents_format hmem, h st List.mem_cons_self]
      rw [List.flatMap_cons, List.filter_append, hrest]
      cases hq : q st with
      | true =>
          rw [List.filter_cons_of_pos hq, List.flatMap_cons, List.filter_eq_self.mpr]
          intro word hmem
          rw [hsame word hmem, hq]
      | false =>
          rw [List.filter_cons_of_neg (by simp [hq]), List.filter_eq_nil_iff.mpr, List.nil_append]
          intro word hmem
          rw [hsame word hmem, hq]
          decide

namespace Finished

variable {options : Options} {cards : List Card} {asm : Assembler}

theorem formats (h : Finished options cards asm) (hformat : options.format.LoadsWords) :
    ∀ st ∈ asm.statements, st.kind = .finish ∧ st.format = .transfer ∨
      st.kind ≠ .finish ∧ st.format.LoadsWords := by
  intro st hmem
  rcases h.entry_of_mem hmem with ⟨entry, hentry, _, hfollows⟩
  have hstart : options.start.format.LoadsWords := hformat
  have hbefore := FirstPass.history_format hstart cards entry hentry
  have hkind := hfollows.cardPart Statement.kind (fun _ => rfl) fun _ => rfl
  have hst := hfollows.part Statement.format fun _ => rfl
  rw [hkind, hst]
  by_cases hfinish : (entry.before.incoming entry.card).kind = .finish
  · have hchecked := FirstPass.incoming_checked entry.before entry.card
    exact Or.inl ⟨hfinish, (FirstPass.Placed.of_finish hfollows.placed hchecked hfinish).2.2⟩
  · refine Or.inr ⟨hfinish, ?_⟩
    rcases (FirstPass.Placed.of_not_finish hfollows.placed hfinish).2 with
      ⟨_, hsame⟩ | ⟨hnew, hsame⟩
    · rw [FirstPass.incoming_format] at hsame
      exact hsame ▸ hbefore
    · exact hsame ▸ hnew

theorem finishes (h : Finished options cards asm) :
    (¬∃ card ∈ cards, (Statement.classify card).1 = .finish) ∧
        asm.statements.filter (fun st => st.kind = .finish) = [] ∨
      (∃ card ∈ cards, (Statement.classify card).1 = .finish) ∧
        ∃ st, asm.statements.filter (fun st => st.kind = .finish) = [st] := by
  have hkept := congrArg (List.countP fun st => st.kind = .finish) h.kept
  rw [List.countP_map, List.countP_map] at hkept
  have hcount := hkept.trans (FirstPass.history_finishes options.start cards)
  have hlength : (asm.statements.filter fun st => st.kind = .finish).length =
      if false = false ∧ ∃ card ∈ cards, (Statement.classify card).1 = .finish then 1 else 0 := by
    rw [← List.countP_eq_length_filter]
    exact hcount
  by_cases hend : ∃ card ∈ cards, (Statement.classify card).1 = .finish
  · rw [if_pos ⟨rfl, hend⟩] at hlength
    exact Or.inr ⟨hend, List.length_eq_one_iff.mp hlength⟩
  · rw [if_neg fun hboth => hend hboth.2] at hlength
    exact Or.inl ⟨hend, List.length_eq_zero_iff.mp hlength⟩

theorem finish_word (h : Finished options cards asm) {st : Statement} (hmem : st ∈ asm.statements)
    (hkind : st.kind = .finish) :
    ∃ e w, st.exprs = [e] ∧ st.emitted = [w] ∧
      w.address = Address.ofInt (asm.symbols.number st.base e) := by
  rcases h.entry_of_mem hmem with ⟨entry, _, _, hfollows⟩
  rcases hfollows.agreesOn.finish hkind with ⟨order, e, horder, hexprs, hwords⟩
  refine ⟨e, _, hexprs, by rw [Statement.emitted, hwords]; rfl, ?_⟩
  have htransfer : (Order.ofMnemonic? (.ofString "TRA")).map (fun order =>
      order.template.toNat % 32768) = some 0 := by decide +kernel
  rw [horder] at htransfer
  apply Address.eq_of_val
  rw [Word.or_address (Option.some.inj htransfer) (lowBits_lt (by decide) _)]
  rfl

theorem transfer_iff (h : Finished options cards asm) (hformat : options.format.LoadsWords) :
    ∀ st ∈ asm.statements, (st.format = .transfer ↔ st.kind = .finish) := by
  intro st hmem
  rcases h.formats hformat st hmem with ⟨hkind, htransfer⟩ | ⟨hkind, hloads⟩
  · exact ⟨fun _ => hkind, fun _ => htransfer⟩
  · exact ⟨fun htransfer => absurd htransfer hloads.ne_transfer, fun hend => absurd hend hkind⟩

theorem transfers (h : Finished options cards asm) (hformat : options.format.LoadsWords) :
    (asm.statements.flatMap Statement.contents).filter (fun word => word.1 = .transfer) =
      (asm.statements.filter fun st => st.kind = .finish).flatMap Statement.contents := by
  apply filter_contents (p := fun format => format = .transfer)
  intro st hmem
  exact decide_eq_decide.mpr (h.transfer_iff hformat st hmem)

theorem memoryWords (h : Finished options cards asm) (hformat : options.format.LoadsWords) :
    Core.memoryWords (asm.statements.flatMap Statement.contents) = asm.located := by
  have hfilter : (asm.statements.flatMap Statement.contents).filter
        (fun word => word.1 ≠ .transfer) =
      (asm.statements.filter fun st => st.kind ≠ .finish).flatMap Statement.contents := by
    apply filter_contents (p := fun format => format ≠ .transfer)
    intro st hmem
    exact decide_eq_decide.mpr (not_congr (h.transfer_iff hformat st hmem))
  have hwords : ∀ st : Statement, st.contents.map Prod.snd = st.located := by
    intro st
    simp [Statement.contents, Function.comp_def]
  rw [Core.memoryWords, hfilter, List.map_flatMap]
  simp only [hwords]
  rfl

theorem mem_of_filter_finish {st : Statement}
    (h : asm.statements.filter (fun st => st.kind = .finish) = [st]) :
    st ∈ asm.statements ∧ st.kind = .finish := by
  have hmem : st ∈ asm.statements.filter fun st => st.kind = .finish := by
    rw [h]
    exact List.mem_singleton_self st
  rcases List.mem_filter.mp hmem with ⟨hst, hkind⟩
  exact ⟨hst, of_decide_eq_true hkind⟩

theorem transfers_length (h : Finished options cards asm) (hformat : options.format.LoadsWords) :
    ((asm.statements.flatMap Statement.contents).filter
      fun word => word.1 = .transfer).length ≤ 1 := by
  rw [h.transfers hformat]
  rcases h.finishes with ⟨_, hnone⟩ | ⟨_, st, hst⟩
  · rw [hnone]
    exact Nat.zero_le 1
  · rcases mem_of_filter_finish hst with ⟨hmem, hkind⟩
    rcases h.finish_word hmem hkind with ⟨_, w, _, hemitted, _⟩
    rw [hst, List.flatMap_singleton, Statement.contents, Statement.located, hemitted]
    exact Nat.le_refl 1

theorem transfer_single (h : Finished options cards asm) (hformat : options.format.LoadsWords) :
    ∀ segment ∈ asm.segments, segment.format = .transfer → segment.words.length = 1 := by
  intro segment hmem htransfer
  have hheld := asm.segments_held
  have hsublist : segment.contents.Sublist (asm.statements.flatMap Statement.contents) := by
    rw [← hheld.contents]
    exact List.sublist_flatten_of_mem (List.mem_map_of_mem hmem)
  have hall : segment.contents.filter (fun word => word.1 = .transfer) = segment.contents := by
    rw [List.filter_eq_self]
    intro word hword
    rcases List.mem_map.mp hword with ⟨located, _, rfl⟩
    exact decide_eq_true htransfer
  have hlength := (hsublist.filter fun word => word.1 = .transfer).length_le
  rw [hall] at hlength
  have hatMost := hlength.trans (h.transfers_length hformat)
  have hcontents : segment.contents.length = segment.words.length := by
    simp [Segment.contents, wordsFrom]
  have hsome := List.length_pos_iff.mpr (hheld.sound segment hmem).nonempty
  omega

theorem storable (h : Finished options cards asm) (hformat : options.format.LoadsWords) :
    ∀ segment ∈ asm.segments, Image.Storable segment := by
  intro segment hmem
  have hheld := asm.segments_held
  have hsound := hheld.sound segment hmem
  have hword : ∀ w ∈ segment.words, ∃ st ∈ asm.statements, st.format = segment.format ∧
      w ∈ st.emitted := by
    intro w hw
    rw [← wordsFrom_words segment.first.val segment.words] at hw
    rcases List.mem_map.mp hw with ⟨located, hlocated, rfl⟩
    have hcontent : (segment.format, located) ∈ asm.statements.flatMap Statement.contents := by
      rw [← hheld.contents]
      exact List.mem_flatMap.mpr ⟨segment, hmem, List.mem_map_of_mem hlocated⟩
    rcases List.mem_flatMap.mp hcontent with ⟨st, hst, hword⟩
    refine ⟨st, hst, (Statement.contents_format hword).symm, ?_⟩
    rcases List.mem_map.mp hword with ⟨other, hother, hsame⟩
    have hother' : other = located := congrArg Prod.snd hsame
    rw [← wordsFrom_words st.base.val st.emitted, ← hother']
    exact List.mem_map_of_mem hother
  refine ⟨hsound.bounds, hsound.top, ?_, ?_⟩
  · rcases List.exists_mem_of_ne_nil _ hsound.nonempty with ⟨w, hw⟩
    rcases hword w hw with ⟨st, hst, hsame, _⟩
    rw [← hsame]
    rcases h.formats hformat st hst with ⟨_, htransfer⟩ | ⟨_, hloads | hloads⟩
    · rw [htransfer]
      decide
    · rw [hloads]
      decide
    · rw [hloads]
      decide
  · intro w hw
    rcases hword w hw with ⟨st, hst, _, hemitted⟩
    exact h.fits st hst w hemitted

end Finished

/-!
# Loaded programs

Core holds the last word of each location, and starts where the end card says.
-/

/-- Core holds the program of the cards as the assembler has it. -/
structure Core.Holds (core : Core) (cards : List Card) (asm : Assembler) : Prop where
  loaded : ∀ a : Address, a.val < coreSize →
    (core.loaded a = true ↔ ∃ w, (a.val, w) ∈ asm.located)
  last : ∀ a : Address, a.val < coreSize → ∀ earlier w later,
    asm.located = earlier ++ (a.val, w) :: later → (∀ word ∈ later, word.1 ≠ a.val) →
    core.read a = w
  blank : ∀ a : Address, a.val < coreSize → (∀ w, (a.val, w) ∉ asm.located) → core.read a = .zero
  starts : core.transfer.isSome = true ↔ ∃ card ∈ cards, (Statement.classify card).1 = .finish
  start : ∀ a, core.transfer = some a ↔ ∃ st ∈ asm.statements, st.kind = .finish ∧
    ∃ e, st.exprs = [e] ∧ a = .ofInt (asm.symbols.number st.base e)

namespace Finished

variable {options : Options} {cards : List Card} {asm : Assembler}

theorem located_fits (h : Finished options cards asm) : ∀ word ∈ asm.located, word.2.Fits := by
  intro word hmem
  rcases List.mem_flatMap.mp hmem with ⟨st, hst, hword⟩
  apply h.fits st (List.mem_filter.mp hst).1
  rw [← wordsFrom_words st.base.val st.emitted]
  exact List.mem_map_of_mem hword

theorem start_address (h : Finished options cards asm) (hformat : options.format.LoadsWords)
    (core : Core) {st : Statement} (hmem : st ∈ asm.statements) (hkind : st.kind = .finish) :
    ∃ e, st.exprs = [e] ∧
      ((asm.statements.flatMap Statement.contents).foldl Core.put core).transfer =
        some (.ofInt (asm.symbols.number st.base e)) := by
  have hfiltered : st ∈ asm.statements.filter fun st => st.kind = .finish :=
    List.mem_filter.mpr ⟨hmem, decide_eq_true hkind⟩
  rcases h.finish_word hmem hkind with ⟨e, w, hexprs, hemitted, haddress⟩
  refine ⟨e, hexprs, ?_⟩
  rcases h.finishes with ⟨_, hnone⟩ | ⟨_, other, hother⟩
  · rw [hnone] at hfiltered
    cases hfiltered
  · rw [hother] at hfiltered
    rw [Core.foldl_put_transfer, h.transfers hformat, hother, ← List.mem_singleton.mp hfiltered,
      List.flatMap_singleton, Statement.contents, Statement.located, hemitted, ← haddress]
    rfl

theorem starts_iff (h : Finished options cards asm) (hformat : options.format.LoadsWords)
    (core : Core) :
    ((asm.statements.flatMap Statement.contents).foldl Core.put core.reset).transfer.isSome = true ↔
      ∃ card ∈ cards, (Statement.classify card).1 = .finish := by
  rcases h.finishes with ⟨hend, hnone⟩ | ⟨hend, st, hst⟩
  · rw [Core.foldl_put_transfer, h.transfers hformat, hnone]
    constructor
    · intro hsome
      cases hsome
    · intro hcard
      exact absurd hcard hend
  · rcases mem_of_filter_finish hst with ⟨hmem, hkind⟩
    rcases h.start_address hformat core.reset hmem hkind with ⟨_, _, haddress⟩
    rw [haddress]
    constructor
    · intro _
      exact hend
    · intro _
      rfl

theorem start_iff (h : Finished options cards asm) (hformat : options.format.LoadsWords)
    (core : Core) (a : Address) :
    ((asm.statements.flatMap Statement.contents).foldl Core.put core.reset).transfer = some a ↔
      ∃ st ∈ asm.statements, st.kind = .finish ∧
        ∃ e, st.exprs = [e] ∧ a = .ofInt (asm.symbols.number st.base e) := by
  constructor
  · intro hstart
    rcases h.finishes with ⟨_, hnone⟩ | ⟨_, st, hst⟩
    · rw [Core.foldl_put_transfer, h.transfers hformat, hnone] at hstart
      cases hstart
    · rcases mem_of_filter_finish hst with ⟨hmem, hkind⟩
      rcases h.start_address hformat core.reset hmem hkind with ⟨e, hexprs, haddress⟩
      rw [hstart] at haddress
      exact ⟨st, hmem, hkind, e, hexprs, Option.some.inj haddress⟩
  · rintro ⟨st, hmem, hkind, e, hexprs, rfl⟩
    rcases h.start_address hformat core.reset hmem hkind with ⟨other, hother, haddress⟩
    rw [hexprs] at hother
    cases hother
    exact haddress

theorem load_holds (h : Finished options cards asm) (hformat : options.format.LoadsWords)
    (core : Core) :
    ∃ loaded, core.reset.load asm.segments = (loaded, none) ∧ loaded.Holds cards asm := by
  refine ⟨_, core.reset.load_eq (h.transfer_single hformat), ?_⟩
  rw [asm.segments_held.contents]
  have hwords := h.memoryWords hformat
  constructor
  · intro a ha
    rw [Core.loaded_iff ha, hwords]
  · intro a ha earlier w later hlocated hlater
    have hfits : w.Fits := h.located_fits (a.val, w) (by rw [hlocated]; simp)
    rw [Core.read_last ha core _ (hwords.trans hlocated) hlater, hfits.stored]
  · intro a ha hnone
    rw [← hwords] at hnone
    exact Core.read_blank ha core _ hnone
  · exact h.starts_iff hformat core
  · exact h.start_iff hformat core

end Finished

/-- A program whose words are to be loaded can be assembled and written to an image, and whatever core
held before, loading the image succeeds and leaves the program in it. -/
theorem loaded_image_holds_program (options : Options) (source : Text) (lines : List Text)
    (hlines : Source.lines? source = some lines)
    (hformat : options.format = .absolute ∨ options.format = .full) :
    ∃ asm bytes, assembleSource options source = .ok asm ∧
      Image.write asm.segments = .ok bytes ∧
      ∀ core, ∃ loaded, Core.loadImage bytes core = (loaded, none) ∧
        loaded.Holds (Card.ofLines 1 lines) asm := by
  rcases assembleSource_finished options hlines with ⟨asm, hsource, hfinished⟩
  rcases Image.read_write (hfinished.storable hformat) with ⟨bytes, hwrite, hread⟩
  refine ⟨asm, bytes, hsource, hwrite, ?_⟩
  intro core
  rw [Core.loadImage, hread]
  exact hfinished.load_holds hformat core

/-- Words around the top of core, one of which is overwritten. -/
theorem loaded_image_holds_program_overlapping :
    Source.lines? (.ofString "A\tOCT\t1,2\n\tORG\t0\nB\tTRA\tA\n\tEND\tB\n") =
      some [.ofString "A\tOCT\t1,2", .ofString "\tORG\t0", .ofString "B\tTRA\tA",
        .ofString "\tEND\tB"] ∧
      ∃ asm bytes, assembleSource ⟨.ofNat 32767, .full⟩
          (.ofString "A\tOCT\t1,2\n\tORG\t0\nB\tTRA\tA\n\tEND\tB\n") = .ok asm ∧
        Image.write asm.segments = .ok bytes ∧
        asm.located =
          [(32767, .ofNat 1), (0, .ofNat 2), (0, .ofNat 0o002000077777)] ∧
        ∀ core, ∃ loaded, Core.loadImage bytes core = (loaded, none) ∧
          loaded.Holds (Card.ofLines 1 [.ofString "A\tOCT\t1,2", .ofString "\tORG\t0",
            .ofString "B\tTRA\tA", .ofString "\tEND\tB"]) asm := by
  refine ⟨by decide, ?_⟩
  rcases loaded_image_holds_program ⟨.ofNat 32767, .full⟩
      (.ofString "A\tOCT\t1,2\n\tORG\t0\nB\tTRA\tA\n\tEND\tB\n")
      [.ofString "A\tOCT\t1,2", .ofString "\tORG\t0", .ofString "B\tTRA\tA", .ofString "\tEND\tB"]
      (by decide) (Or.inr rfl) with
    ⟨asm, bytes, hsource, hwrite, hload⟩
  have hlocated : (assembleSource ⟨.ofNat 32767, .full⟩
      (.ofString "A\tOCT\t1,2\n\tORG\t0\nB\tTRA\tA\n\tEND\tB\n")).toOption.map
        Assembler.located =
      some [(32767, .ofNat 1), (0, .ofNat 2), (0, .ofNat 0o002000077777)] := by
    decide +kernel
  rw [hsource] at hlocated
  exact ⟨asm, bytes, hsource, hwrite, Option.some.inj hlocated, hload⟩

end Ibm704
