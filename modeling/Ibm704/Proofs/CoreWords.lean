import Ibm704.Core
import Ibm704.Proofs.Segments

/-!
# Core as the outcome of its words

Loading segments comes down to loading their words one after another.  So what is
in core afterwards can be said of the words alone: a location holds the last word
that was put there, and the last transfer is the start address.
-/

namespace Ibm704

/-!
# Loading word by word

Loading takes the words of the segments one after another.  The last word that is put
at a location stays there.
-/

namespace Core

def put (core : Core) (word : Format × Nat × Word) : Core :=
  if word.1 = .transfer then
    { core with start := word.2.2.address, started := true }
  else
    { core with
      memory := core.memory.insert word.2.1 word.2.2.stored
      written := core.written.insert word.2.1 }

theorem writeAll_eq {format : Format} (hformat : format ≠ .transfer) (core : Core)
    (address : Address) (words : List Word) :
    core.writeAll address words =
      ((wordsFrom address.val words).map fun word => (format, word)).foldl put core := by
  induction words generalizing core address with
  | nil => rfl
  | cons w rest ih =>
      have hwrapped : address.wrapped.val = address.val % coreSize := Address.add_val_nat address 0
      have hnext : (address.add 1).val = (address.val + 1) % coreSize :=
        Address.add_val_nat address 1
      rw [writeAll, ih, hnext, wordsFrom_mod, wordsFrom_cons, List.map_cons, List.foldl_cons, put,
        if_neg hformat, write, hwrapped]

theorem load_eq (core : Core) {segments : List Segment}
    (h : ∀ segment ∈ segments, segment.format = .transfer → segment.words.length = 1) :
    core.load segments = ((segments.flatMap Segment.contents).foldl put core, none) := by
  induction segments generalizing core with
  | nil => rfl
  | cons segment rest ih =>
      have hload : core.loadSegment segment = .ok (segment.contents.foldl put core) := by
        unfold loadSegment
        by_cases hformat : segment.format = .transfer
        · rcases List.length_eq_one_iff.mp (h segment List.mem_cons_self hformat) with ⟨w, hw⟩
          rw [if_pos hformat, hw, Segment.contents, hw, wordsFrom_cons, List.map_cons,
            List.foldl_cons, put, if_pos hformat]
          rfl
        · have hfirst : (segment.first.add 0).val = segment.first.val % coreSize :=
            Address.add_val_nat segment.first 0
          rw [if_neg hformat, writeAll_eq hformat, hfirst, wordsFrom_mod]
          rfl
      rw [load, hload]
      dsimp only
      rw [ih _ fun other hmem => h other (List.mem_cons_of_mem segment hmem), List.flatMap_cons,
        List.foldl_append]

def insertAll (memory : WordMap) (words : List (Nat × Word)) : WordMap :=
  words.foldl (fun memory word => memory.insert word.1 word.2.stored) memory

def memoryWords (words : List (Format × Nat × Word)) : List (Nat × Word) :=
  (words.filter fun word => word.1 ≠ .transfer).map Prod.snd

theorem foldl_put_memory (core : Core) (words : List (Format × Nat × Word)) :
    (words.foldl put core).memory =
      insertAll core.memory (memoryWords words) := by
  induction words generalizing core with
  | nil => rfl
  | cons word rest ih =>
      rw [List.foldl_cons, ih]
      by_cases hformat : word.1 = .transfer
      · simp [put, hformat, memoryWords]
      · simp [put, hformat, memoryWords, insertAll]

theorem foldl_put_transfer (core : Core) (words : List (Format × Nat × Word)) :
    (words.foldl put core).transfer =
      (words.filter fun word => word.1 = .transfer).foldl (fun _ word => some word.2.2.address)
        core.transfer := by
  induction words generalizing core with
  | nil => rfl
  | cons word rest ih =>
      rw [List.foldl_cons, ih]
      by_cases hformat : word.1 = .transfer
      · simp [put, hformat, transfer]
      · simp [put, hformat, transfer]

theorem foldl_put_written (core : Core) (words : List (Format × Nat × Word)) (address : Nat) :
    (words.foldl put core).written.contains address = true ↔
      core.written.contains address = true ∨ ∃ w, (address, w) ∈ memoryWords words := by
  induction words generalizing core with
  | nil => simp [memoryWords]
  | cons word rest ih =>
      rcases word with ⟨format, location, v⟩
      rw [List.foldl_cons, ih]
      by_cases hformat : format = .transfer
      · simp [put, hformat, memoryWords]
      · have hwords : memoryWords ((format, location, v) :: rest) =
            (location, v) :: memoryWords rest := by
          simp [memoryWords, hformat]
        have hput : (core.put (format, location, v)).written.contains address = true ↔
            location = address ∨ core.written.contains address = true := by
          simp [put, hformat, Std.TreeSet.contains_insert]
        rw [hwords, hput]
        constructor
        · rintro ((rfl | hold) | ⟨w, hw⟩)
          · exact Or.inr ⟨v, List.mem_cons_self⟩
          · exact Or.inl hold
          · exact Or.inr ⟨w, List.mem_cons_of_mem _ hw⟩
        · rintro (hold | ⟨w, hw⟩)
          · exact Or.inl (Or.inr hold)
          · rcases List.mem_cons.mp hw with hfirst | hrest
            · exact Or.inl (Or.inl (congrArg Prod.fst hfirst).symm)
            · exact Or.inr ⟨w, hrest⟩

theorem insertAll_other {address : Nat} {words : List (Nat × Word)}
    (h : ∀ word ∈ words, word.1 ≠ address) (memory : WordMap) :
    (insertAll memory words)[address]? = memory[address]? := by
  induction words generalizing memory with
  | nil => rfl
  | cons word rest ih =>
      have hrest := ih (fun other hmem => h other (List.mem_cons_of_mem word hmem))
        (memory.insert word.1 word.2.stored)
      have hfirst := h word List.mem_cons_self
      rw [insertAll, List.foldl_cons]
      refine hrest.trans ?_
      rw [Std.TreeMap.getElem?_insert, if_neg]
      simpa using hfirst

theorem insertAll_last {address : Nat} {w : Word} {earlier later : List (Nat × Word)}
    (h : ∀ word ∈ later, word.1 ≠ address) (memory : WordMap) :
    (insertAll memory (earlier ++ (address, w) :: later))[address]? = some w.stored := by
  rw [insertAll, List.foldl_append, List.foldl_cons]
  refine (insertAll_other h _).trans ?_
  exact Std.TreeMap.getElem?_insert_self

section

variable {a : Address} (ha : a.val < coreSize) (core : Core) (words : List (Format × Nat × Word))
include ha

theorem wrapped_val : a.wrapped.val = a.val :=
  (Address.add_val_nat a 0).trans (Nat.mod_eq_of_lt ha)

theorem loaded_iff :
    (words.foldl put core.reset).loaded a = true ↔ ∃ w, (a.val, w) ∈ memoryWords words := by
  rw [loaded, wrapped_val ha, foldl_put_written]
  exact or_iff_right (by simp [reset])

theorem read_last {earlier later : List (Nat × Word)} {w : Word}
    (hwords : memoryWords words = earlier ++ (a.val, w) :: later)
    (hlater : ∀ word ∈ later, word.1 ≠ a.val) :
    (words.foldl put core.reset).read a = w.stored := by
  rw [read, wrapped_val ha, foldl_put_memory, hwords, insertAll_last hlater]
  rfl

theorem read_blank (hnone : ∀ w, (a.val, w) ∉ memoryWords words) :
    (words.foldl put core.reset).read a = .zero := by
  have hother : ∀ word ∈ memoryWords words, word.1 ≠ a.val := by
    rintro ⟨location, w⟩ hmem rfl
    exact hnone w hmem
  rw [read, wrapped_val ha, foldl_put_memory, insertAll_other hother]
  rfl

end

end Core

end Ibm704
