import Ibm704.Segment
import Ibm704.Proofs.Layout

/-!
# Segments hold the words of a program

Wherever segments are joined or broken, together they hold the words of the
statements in their order, each in its form and at its location.  A segment has
words, its bounds agree with their number, and it ends within core.
-/

namespace Ibm704

/-!
# Contents

A sound segment has words, and its bounds agree with their number.
-/

namespace Segment

def contents (segment : Segment) : List (Format × Nat × Word) :=
  (wordsFrom segment.first.val segment.words).map fun word => (segment.format, word)

structure Sound (segment : Segment) : Prop where
  nonempty : segment.words ≠ []
  bounds : segment.first.val + segment.words.length = segment.last.val
  top : segment.last.val ≤ coreSize

theorem Sound.contents_ne_nil {segment : Segment} (h : segment.Sound) : segment.contents ≠ [] := by
  simp [contents, wordsFrom, h.nonempty]

end Segment

structure Held (segments : List Segment) (words : List (Format × Nat × Word)) : Prop where
  sound : ∀ segment ∈ segments, segment.Sound
  contents : segments.flatMap Segment.contents = words

theorem Held.nil : Held [] [] where
  sound := by
    intro segment hmem
    cases hmem
  contents := rfl

theorem Held.cons {segment : Segment} {rest : List Segment} {words : List (Format × Nat × Word)}
    (hfirst : segment.Sound) (hrest : Held rest words) :
    Held (segment :: rest) (segment.contents ++ words) where
  sound := by
    intro other hmem
    rcases List.mem_cons.mp hmem with rfl | hother
    · exact hfirst
    · exact hrest.sound other hother
  contents := by rw [List.flatMap_cons, hrest.contents]

namespace Placement

def content? : Placement → Option (Format × Nat × Word)
  | .word format address w => some (format, address.val, w)
  | .gap => none

def InCore : Placement → Prop
  | .word _ address _ => address.val < coreSize
  | .gap => True

end Placement

/-!
# Forming segments

A word just before a segment joins it and keeps it sound.
-/

namespace Segmentation

theorem single_sound (format : Format) {address : Address} (w : Word)
    (h : address.val < coreSize) :
    (single format address w).Sound ∧
      (single format address w).contents = [(format, address.val, w)] := by
  have hlast : (Address.ofNat (address.val + 1)).val = address.val + 1 := by
    simp only [coreSize] at h
    simp only [Address.ofNat]
    omega
  refine ⟨⟨by simp [single], hlast.symm, ?_⟩, ?_⟩
  · show (Address.ofNat (address.val + 1)).val ≤ coreSize
    rw [hlast]
    exact h
  · show (wordsFrom address.val [w]).map _ = _
    rw [wordsFrom_cons, Nat.mod_eq_of_lt h]
    rfl

theorem join_sound {segment : Segment} {address : Address} (w : Word) (h : segment.Sound)
    (hfirst : segment.first.val = address.val + 1) :
    Segment.Sound { segment with first := address, words := w :: segment.words } ∧
      Segment.contents { segment with first := address, words := w :: segment.words } =
        (segment.format, address.val, w) :: segment.contents := by
  have hbounds := h.bounds
  have htop := h.top
  refine ⟨⟨by simp, ?_, htop⟩, ?_⟩
  · simp only [List.length_cons]
    omega
  · have hlt : address.val < coreSize := by omega
    show (wordsFrom address.val (w :: segment.words)).map _ = _
    rw [wordsFrom_cons, Nat.mod_eq_of_lt hlt, ← hfirst]
    rfl

theorem cons_held {s : Segmentation} {placement : Placement} {words : List (Format × Nat × Word)}
    (hheld : Held s.toList words) (hplace : placement.InCore) :
    Held (cons placement s).toList (placement.content?.toList ++ words) := by
  rcases s with ⟨joinable, rest⟩
  cases placement with
  | gap => exact hheld
  | word format address w =>
      rcases single_sound format w hplace with ⟨hsingle, hcontents⟩
      have hnew := hheld.cons hsingle
      rw [hcontents] at hnew
      cases joinable with
      | none => exact hnew
      | some segment =>
          by_cases hjoin : segment.format = format ∧ segment.first.val = address.val + 1
          · simp only [cons, if_pos hjoin]
            rcases hjoin with ⟨rfl, hfirst⟩
            have hsegment := hheld.sound segment List.mem_cons_self
            have hrest : Held rest (rest.flatMap Segment.contents) :=
              ⟨fun other hmem => hheld.sound other (List.mem_cons_of_mem segment hmem), rfl⟩
            rcases join_sound w hsegment hfirst with ⟨hjoined, hcontents'⟩
            have hall := hrest.cons hjoined
            rw [hcontents'] at hall
            rw [← hheld.contents]
            exact hall
          · simp only [cons, if_neg hjoin]
            exact hnew

end Segmentation

theorem segmentsOf_held {placements : List Placement}
    (h : ∀ placement ∈ placements, placement.InCore) :
    Held (segmentsOf placements) (placements.filterMap Placement.content?) := by
  induction placements with
  | nil => exact Held.nil
  | cons placement rest ih =>
      have hrest := ih fun other hmem => h other (List.mem_cons_of_mem placement hmem)
      have hall := Segmentation.cons_held hrest (h placement List.mem_cons_self)
      rw [List.filterMap_cons]
      cases hcontent : placement.content? with
      | none =>
          rw [hcontent] at hall
          exact hall
      | some content =>
          rw [hcontent] at hall
          exact hall

/-!
# Segments of statements

A statement contributes gaps, if anything, and then its words.
-/

namespace Statement

def contents (st : Statement) : List (Format × Nat × Word) :=
  st.located.map fun word => (st.format, word)

theorem contents_format {st : Statement} {word : Format × Nat × Word} (h : word ∈ st.contents) :
    word.1 = st.format := by
  rcases List.mem_map.mp h with ⟨located, _, rfl⟩
  rfl

theorem placedWords_inCore (format : Format) (base : Address) (words : List Word) :
    ∀ placement ∈ placedWords format base words, placement.InCore := by
  induction words generalizing base with
  | nil =>
      intro placement hmem
      cases hmem
  | cons w rest ih =>
      intro placement hmem
      rcases List.mem_cons.mp hmem with rfl | hrest
      · exact Address.add_val_lt base 0
      · exact ih (base.add 1) placement hrest

theorem placedWords_contents (format : Format) (base : Address) (words : List Word) :
    (placedWords format base words).filterMap Placement.content? =
      (wordsFrom base.val words).map fun word => (format, word) := by
  induction words generalizing base with
  | nil => rfl
  | cons w rest ih =>
      have hzero : (base.add 0).val = base.val % coreSize := Address.add_val_nat base 0
      have hone : (base.add 1).val = (base.val + 1) % coreSize := Address.add_val_nat base 1
      rw [placedWords, List.filterMap_cons, Placement.content?, ih, hone, wordsFrom_mod, hzero,
        wordsFrom_cons]
      rfl

theorem placements_eq (st : Statement) :
    ∃ gaps, (∀ placement ∈ gaps, placement = .gap) ∧
      st.placements = gaps ++ placedWords st.format st.base st.emitted := by
  have hbefore : ∀ placement ∈ (if st.breaks then [Placement.gap] else []), placement = .gap := by
    intro placement hmem
    split at hmem
    · exact List.mem_singleton.mp hmem
    · cases hmem
  unfold placements emitted
  cases hwords : st.words with
  | none => exact ⟨_, hbefore, (List.append_nil _).symm⟩
  | some words =>
      cases words with
      | nil =>
          by_cases hsize : 0 < st.size
          · refine ⟨(if st.breaks then [.gap] else []) ++ [.gap], ?_, ?_⟩
            · intro placement hmem
              rcases List.mem_append.mp hmem with hbreak | hgap
              · exact hbefore placement hbreak
              · exact List.mem_singleton.mp hgap
            · simp only [if_pos hsize, Option.getD_some, placedWords, List.append_nil]
          · refine ⟨_, hbefore, ?_⟩
            simp only [if_neg hsize, Option.getD_some, placedWords, List.append_nil]
      | cons w rest => exact ⟨_, hbefore, rfl⟩

theorem placements_inCore (st : Statement) : ∀ placement ∈ st.placements, placement.InCore := by
  rcases placements_eq st with ⟨gaps, hgaps, hplacements⟩
  intro placement hmem
  rw [hplacements] at hmem
  rcases List.mem_append.mp hmem with hgap | hword
  · rw [hgaps placement hgap]
    exact True.intro
  · exact placedWords_inCore _ _ _ placement hword

theorem placements_contents (st : Statement) :
    st.placements.filterMap Placement.content? = st.contents := by
  rcases placements_eq st with ⟨gaps, hgaps, hplacements⟩
  have hnone : gaps.filterMap Placement.content? = [] := by
    rw [List.filterMap_eq_nil_iff]
    intro placement hmem
    rw [hgaps placement hmem]
    rfl
  rw [hplacements, List.filterMap_append, hnone, placedWords_contents]
  rfl

end Statement

theorem Assembler.placements_inCore (asm : Assembler) :
    ∀ placement ∈ asm.statements.flatMap Statement.placements, placement.InCore := by
  intro placement hmem
  rcases List.mem_flatMap.mp hmem with ⟨st, _, hplacement⟩
  exact st.placements_inCore placement hplacement

theorem Assembler.segments_held (asm : Assembler) :
    Held asm.segments (asm.statements.flatMap Statement.contents) := by
  have hheld := segmentsOf_held asm.placements_inCore
  rw [List.filterMap_flatMap] at hheld
  simp only [Statement.placements_contents] at hheld
  exact hheld

end Ibm704
