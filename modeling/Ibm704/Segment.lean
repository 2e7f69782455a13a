import Ibm704.Assembly.Assembler

/-!
# Segments

The words of a program are loaded in segments: runs of words in one form at
consecutive addresses.  Two words that follow each other in the program are in
one segment unless their formats differ, their addresses are not consecutive, or
a statement between them asks for a new segment or leaves a gap.
-/

namespace Ibm704

structure Segment where
  format : Format
  first : Address
  /-- The address after the last word, or the size of core. -/
  last : Address
  words : List Word
  deriving DecidableEq, Repr

namespace Segment

def length (segment : Segment) : Int :=
  (segment.last.val : Int) - segment.first.val

end Segment

inductive Placement where
  | word (format : Format) (address : Address) (w : Word)
  | gap
  deriving DecidableEq, Repr

namespace Statement

def placedWords (format : Format) (base : Address) : List Word → List Placement
  | [] => []
  | w :: rest => .word format (base.add 0) w :: placedWords format (base.add 1) rest

def placements (st : Statement) : List Placement :=
  let before := if st.breaks then [.gap] else []
  match st.words with
  | none => before
  | some [] => if 0 < st.size then before ++ [.gap] else before
  | some words => before ++ placedWords st.format st.base words

end Statement

/-- Segments that are being formed from the end of a program: the one that the next word before
may join, and those after it. -/
structure Segmentation where
  joinable : Option Segment
  rest : List Segment
  deriving DecidableEq, Repr

namespace Segmentation

def empty : Segmentation :=
  ⟨none, []⟩

def toList (s : Segmentation) : List Segment :=
  s.joinable.toList ++ s.rest

def single (format : Format) (address : Address) (w : Word) : Segment :=
  ⟨format, address, .ofNat (address.val + 1), [w]⟩

def cons (placement : Placement) (s : Segmentation) : Segmentation :=
  match placement, s.joinable with
  | .gap, _ => ⟨none, s.toList⟩
  | .word format address w, none => ⟨some (single format address w), s.rest⟩
  | .word format address w, some segment =>
      if segment.format = format ∧ segment.first.val = address.val + 1 then
        ⟨some { segment with first := address, words := w :: segment.words }, s.rest⟩
      else
        ⟨some (single format address w), segment :: s.rest⟩

end Segmentation

def segmentsOf (placements : List Placement) : List Segment :=
  (placements.foldr Segmentation.cons .empty).toList

namespace Assembler

def segments (asm : Assembler) : List Segment :=
  segmentsOf (asm.statements.flatMap Statement.placements)

end Assembler

end Ibm704
