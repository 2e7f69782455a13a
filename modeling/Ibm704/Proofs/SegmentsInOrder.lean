import Ibm704.Proofs.Fields
import Ibm704.Proofs.Segments

/-!
# Segments in the order of the program

Words can be put into segments in their order, with one segment open at a time.
A word is put into the open segment, so there must be one by then: the step that
opens it is checked here.  The outcome is that of forming segments from the end.
-/

namespace Ibm704

def Segment.put (w : Word) (segment : Segment) : Segment :=
  { segment with last := .ofNat (segment.last.val + 1), words := segment.words ++ [w] }

structure OpenSegments where
  closed : List Segment
  current : Option Segment

namespace OpenSegments

def empty : OpenSegments :=
  ⟨[], none⟩

def flush (run : OpenSegments) : OpenSegments :=
  ⟨run.closed ++ run.current.toList, none⟩

def flushBefore (format : Format) (address : Address) (run : OpenSegments) : OpenSegments :=
  match run.current with
  | none => run
  | some segment =>
      if segment.format ≠ format ∨ segment.last ≠ address then run.flush else run

def openAt (format : Format) (address : Address) (run : OpenSegments) : OpenSegments :=
  match run.current with
  | none => { run with current := some ⟨format, address, address, []⟩ }
  | some _ => run

def put? (w : Word) (run : OpenSegments) : Option OpenSegments := do
  let segment ← run.current
  return { run with current := some (segment.put w) }

def step? (run : OpenSegments) : Placement → Option OpenSegments
  | .gap => some run.flush
  | .word format address w => put? w ((run.flushBefore format address).openAt format address)

/-!
# Steps

Segments are formed in the order of the program as well: a word that cannot be put
into the open segment closes it and opens another.
-/

theorem step?_join {segment : Segment} (closed : List Segment) (w : Word) :
    step? ⟨closed, some segment⟩ (.word segment.format segment.last w) =
      some ⟨closed, some (segment.put w)⟩ := by
  unfold step? flushBefore
  simp only [ne_eq, not_true_eq_false, or_self, if_false]
  rfl

theorem step?_fresh {run : OpenSegments} {format : Format} {address : Address} (w : Word)
    (h : ∀ segment, run.current = some segment →
      ¬(format = segment.format ∧ address = segment.last)) :
    step? run (.word format address w) =
      some ⟨run.closed ++ run.current.toList, some (Segmentation.single format address w)⟩ := by
  rcases run with ⟨closed, current⟩
  cases current with
  | none =>
      rw [Option.toList_none, List.append_nil]
      rfl
  | some segment =>
      have hother : segment.format ≠ format ∨ segment.last ≠ address := by
        by_contra hsame
        rw [not_or, not_not, not_not] at hsame
        exact h segment rfl ⟨hsame.1.symm, hsame.2.symm⟩
      unfold step? flushBefore
      simp only [if_pos hother]
      rfl

/-!
# From the other end

What is formed from the end of the program is put behind the open segment.
-/

def attach (current : Option Segment) (s : Segmentation) : List Segment :=
  match current, s.joinable with
  | none, _ => s.toList
  | some segment, none => segment :: s.rest
  | some segment, some next =>
      if next.format = segment.format ∧ next.first = segment.last then
        { segment with last := next.last, words := segment.words ++ next.words } :: s.rest
      else
        segment :: next :: s.rest

theorem attach_of_joins {segment next : Segment} {rest : List Segment}
    (h : next.format = segment.format ∧ next.first = segment.last) :
    attach (some segment) ⟨some next, rest⟩ =
      { segment with last := next.last, words := segment.words ++ next.words } :: rest :=
  if_pos h

theorem attach_of_apart {segment next : Segment} {rest : List Segment}
    (h : ¬(next.format = segment.format ∧ next.first = segment.last)) :
    attach (some segment) ⟨some next, rest⟩ = segment :: next :: rest :=
  if_neg h

theorem attach_gap (current : Option Segment) (s : Segmentation) :
    attach current (.cons .gap s) = current.toList ++ attach none s := by
  cases current with
  | none => rfl
  | some segment => rfl

theorem cons_word (format : Format) (address : Address) (w : Word) (s : Segmentation) :
    ∃ next rest, Segmentation.cons (.word format address w) s = ⟨some next, rest⟩ ∧
      next.format = format ∧ next.first = address := by
  rcases s with ⟨joinable, rest⟩
  cases joinable with
  | none => exact ⟨_, _, rfl, rfl, rfl⟩
  | some segment =>
      by_cases hjoin : segment.format = format ∧ segment.first.val = address.val + 1
      · exact ⟨_, _, if_pos hjoin, hjoin.1, rfl⟩
      · exact ⟨_, _, if_neg hjoin, rfl, rfl⟩

theorem attach_fresh {current : Option Segment} {format : Format} {address : Address} (w : Word)
    (s : Segmentation) (h : ∀ segment, current = some segment →
      ¬(format = segment.format ∧ address = segment.last)) :
    attach current (.cons (.word format address w) s) =
      current.toList ++ (Segmentation.cons (.word format address w) s).toList := by
  cases current with
  | none => rfl
  | some segment =>
      rcases cons_word format address w s with ⟨next, rest, hcons, hformat, hfirst⟩
      have hother : ¬(next.format = segment.format ∧ next.first = segment.last) := by
        rw [hformat, hfirst]
        exact h segment rfl
      rw [hcons, attach_of_apart hother]
      rfl

theorem next_address {address first : Address} (h : address.val < coreSize) :
    first = .ofNat (address.val + 1) ↔ first.val = address.val + 1 := by
  have hnext : (Address.ofNat (address.val + 1)).val = address.val + 1 := by
    simp only [coreSize] at h
    simp only [Address.ofNat]
    omega
  constructor
  · intro hfirst
    rw [hfirst, hnext]
  · intro hval
    exact Address.eq_of_val (hval.trans hnext.symm)

theorem attach_single {format : Format} {address : Address} (w : Word) (s : Segmentation)
    (h : address.val < coreSize) :
    attach (some (Segmentation.single format address w)) s =
      (Segmentation.cons (.word format address w) s).toList := by
  rcases s with ⟨joinable, rest⟩
  cases joinable with
  | none => rfl
  | some next =>
      unfold Segmentation.cons
      by_cases hjoin : next.format = format ∧ next.first.val = address.val + 1
      · rw [attach_of_joins ⟨hjoin.1, (next_address h).mpr hjoin.2⟩]
        simp only [if_pos hjoin]
        rw [hjoin.1]
        rfl
      · rw [attach_of_apart fun hsame => hjoin ⟨hsame.1, (next_address h).mp hsame.2⟩]
        simp only [if_neg hjoin]
        rfl

theorem attach_put {segment : Segment} (w : Word) (s : Segmentation)
    (h : segment.last.val < coreSize) :
    attach (some (segment.put w)) s =
      attach (some segment) (.cons (.word segment.format segment.last w) s) := by
  rcases s with ⟨joinable, rest⟩
  unfold Segmentation.cons
  cases joinable with
  | none =>
      have hjoined : attach (some segment)
          ⟨some (Segmentation.single segment.format segment.last w), rest⟩ = _ := attach_of_joins ⟨rfl, rfl⟩
      exact hjoined.symm
  | some next =>
      by_cases hjoin : next.format = segment.format ∧ next.first.val = segment.last.val + 1
      · have hput : attach (some (segment.put w)) ⟨some next, rest⟩ = _ :=
          attach_of_joins ⟨hjoin.1, (next_address h).mpr hjoin.2⟩
        simp only [if_pos hjoin]
        rw [hput, attach_of_joins]
        · unfold Segment.put
          rw [List.append_assoc, List.singleton_append]
        · exact ⟨hjoin.1, rfl⟩
      · have hput : attach (some (segment.put w)) ⟨some next, rest⟩ = _ :=
          attach_of_apart fun hsame => hjoin ⟨hsame.1, (next_address h).mp hsame.2⟩
        simp only [if_neg hjoin]
        rw [hput, attach_of_joins]
        · rfl
        · exact ⟨rfl, rfl⟩

/-!
# Runs

The two ways to form segments agree on every list of placements.
-/

theorem step?_attach (run : OpenSegments) {placement : Placement} (s : Segmentation)
    (h : placement.InCore) :
    ∃ next, run.step? placement = some next ∧
      next.closed ++ attach next.current s =
        run.closed ++ attach run.current (.cons placement s) := by
  cases placement with
  | gap =>
      refine ⟨run.flush, rfl, ?_⟩
      rw [attach_gap, ← List.append_assoc]
      rfl
  | word format address w =>
      by_cases hjoin : ∃ segment, run.current = some segment ∧
          format = segment.format ∧ address = segment.last
      · rcases run with ⟨closed, current⟩
        rcases hjoin with ⟨segment, rfl, rfl, rfl⟩
        exact ⟨_, step?_join closed w, congrArg (closed ++ ·) (attach_put w s h)⟩
      · have hfresh : ∀ segment, run.current = some segment →
            ¬(format = segment.format ∧ address = segment.last) := by
          intro segment hcurrent hsame
          exact hjoin ⟨segment, hcurrent, hsame⟩
        refine ⟨_, step?_fresh w hfresh, ?_⟩
        rw [attach_single w s h, attach_fresh w s hfresh, List.append_assoc]

theorem foldlM_step? {placements : List Placement} (run : OpenSegments)
    (h : ∀ placement ∈ placements, placement.InCore) :
    ∃ last, placements.foldlM step? run = some last ∧
      last.flush.closed =
        run.closed ++ attach run.current (placements.foldr Segmentation.cons .empty) := by
  induction placements generalizing run with
  | nil =>
      refine ⟨run, rfl, ?_⟩
      rcases run with ⟨closed, current⟩
      cases current with
      | none => rfl
      | some segment => rfl
  | cons placement rest ih =>
      rcases step?_attach run (rest.foldr Segmentation.cons .empty) (h placement List.mem_cons_self)
        with ⟨next, hstep, hnext⟩
      rcases ih next fun other hmem => h other (List.mem_cons_of_mem placement hmem) with
        ⟨last, hlast, hclosed⟩
      refine ⟨last, ?_, hclosed.trans hnext⟩
      rw [List.foldlM_cons, hstep]
      exact hlast

end OpenSegments

def Assembler.segments? (asm : Assembler) : Option (List Segment) := do
  let run ← (asm.statements.flatMap Statement.placements).foldlM OpenSegments.step? .empty
  return run.flush.closed

theorem Assembler.segments?_eq (asm : Assembler) : asm.segments? = some asm.segments := by
  rcases OpenSegments.foldlM_step? .empty asm.placements_inCore with ⟨last, hlast, hclosed⟩
  unfold segments?
  rw [hlast]
  exact congrArg some hclosed

end Ibm704
