import Mathlib.Data.List.Induction
import Mathlib.Data.List.Sort
import Ibm704.Proofs.CoreWords

/-!
# Regions of core

Core can be cleared, written, loaded with segments and loaded with an image, in any
order and any number of times.  Each of these clears core or writes locations, and
a location counts as written if nothing cleared core since it was last written.
The regions of core are the runs of these locations: they ascend, no two of them
touch, and together they have the written locations and no others.  They can be found
by a scan that looks at the marks of all locations from the first to the last.
-/

namespace Ibm704
namespace Core

/-!
# Runs

The location just before the first region joins it, and one further before is a region
of its own.
-/

def Region.Covers (region : Region) (address : Nat) : Prop :=
  region.first ≤ address ∧ address < region.last

/-- The regions are the runs of the locations that satisfy a condition. -/
structure AreRuns (regions : List Region) (written : Nat → Prop) : Prop where
  nonempty : ∀ region ∈ regions, region.first < region.last
  apart : regions.Pairwise fun region next => region.last < next.first
  covered : ∀ address, (∃ region ∈ regions, region.Covers address) ↔ written address

namespace AreRuns

variable {regions : List Region} {region : Region} {written : Nat → Prop}

theorem first_written (h : AreRuns regions written) (hmem : region ∈ regions) :
    written region.first :=
  (h.covered region.first).mp ⟨region, hmem, Nat.le_refl _, h.nonempty region hmem⟩

theorem last_written (h : AreRuns regions written) (hmem : region ∈ regions) :
    written (region.last - 1) := by
  have hnonempty := h.nonempty region hmem
  exact (h.covered _).mp ⟨region, hmem, by omega, by omega⟩

theorem extend {address : Nat} (h : AreRuns (region :: regions) written)
    (hnext : region.first = address + 1) :
    AreRuns (⟨address, region.last⟩ :: regions) fun other => other = address ∨ written other where
  nonempty := by
    intro other hmem
    rcases List.mem_cons.mp hmem with rfl | hrest
    · have hfirst := h.nonempty region List.mem_cons_self
      show address < region.last
      omega
    · exact h.nonempty other (List.mem_cons_of_mem region hrest)
  apart := by
    rcases List.pairwise_cons.mp h.apart with ⟨hfirst, hrest⟩
    exact List.pairwise_cons.mpr ⟨hfirst, hrest⟩
  covered := by
    intro other
    have hfirst := h.nonempty region List.mem_cons_self
    rw [← h.covered other]
    simp only [List.exists_mem_cons_iff, Region.Covers, ← or_assoc]
    apply or_congr_left
    omega

theorem separate {address : Nat} (h : AreRuns regions written)
    (hgap : ∀ region ∈ regions, address + 1 < region.first) :
    AreRuns (⟨address, address + 1⟩ :: regions) fun other => other = address ∨ written other where
  nonempty := by
    intro other hmem
    rcases List.mem_cons.mp hmem with rfl | hrest
    · exact Nat.lt_succ_self address
    · exact h.nonempty other hrest
  apart := List.pairwise_cons.mpr ⟨hgap, h.apart⟩
  covered := by
    intro other
    rw [← h.covered other, List.exists_mem_cons_iff]
    apply or_congr_left
    simp only [Region.Covers]
    omega

end AreRuns

theorem areRuns_runs {addresses : List Nat} (h : addresses.Pairwise (· < ·)) :
    AreRuns (runs addresses) (· ∈ addresses) := by
  induction addresses with
  | nil =>
      refine ⟨?_, List.Pairwise.nil, ?_⟩
      · intro region hmem
        cases hmem
      · simp [runs]
  | cons address rest ih =>
      rcases List.pairwise_cons.mp h with ⟨hbelow, hrest⟩
      have hruns := ih hrest
      have habove : ∀ region ∈ runs rest, address < region.first := by
        intro region hmem
        exact hbelow region.first (hruns.first_written hmem)
      simp only [List.mem_cons]
      rw [runs]
      split
      · rename_i region regions hlater
        rw [hlater] at hruns habove
        split
        · rename_i hnext
          exact hruns.extend hnext
        · rename_i hnext
          apply hruns.separate
          intro other hmem
          have hfirst := habove region List.mem_cons_self
          rcases List.mem_cons.mp hmem with rfl | hothers
          · omega
          · have hafter := List.rel_of_pairwise_cons hruns.apart hothers
            have hnonempty := hruns.nonempty region List.mem_cons_self
            omega
      · rename_i hlater
        rw [hlater] at hruns
        apply hruns.separate
        intro other hmem
        cases hmem

theorem written_ascend (core : Core) : core.written.toList.Pairwise (· < ·) :=
  Std.TreeSet.ordered_toList.imp Nat.compare_eq_lt.mp

theorem regions_areRuns (core : Core) :
    AreRuns core.regions fun address => core.written.contains address = true := by
  have hruns := areRuns_runs core.written_ascend
  refine ⟨hruns.nonempty, hruns.apart, ?_⟩
  intro address
  refine (hruns.covered address).trans ?_
  rw [Std.TreeSet.mem_toList, Std.TreeSet.mem_iff_contains]

/-!
# The scan of all locations

A scan looks at the marks of all locations, from the first to the last, and either
extends the last region or starts one.
-/

def extendLast : List Region → Nat → List Region
  | [], address => [⟨address, address + 1⟩]
  | [region], address =>
      if region.last = address then [⟨region.first, address + 1⟩]
      else [region, ⟨address, address + 1⟩]
  | region :: next :: rest, address => region :: extendLast (next :: rest) address

def scan (marked : Nat → Bool) : List Region :=
  (List.range coreSize).foldl
    (fun regions address => if marked address then extendLast regions address else regions) []

theorem runs_concat (addresses : List Nat) (address : Nat) :
    runs (addresses ++ [address]) = extendLast (runs addresses) address := by
  induction addresses with
  | nil => rfl
  | cons first rest ih =>
      rw [List.cons_append, runs, ih, runs]
      -- With two regions or more, the first location and the last one touch different regions.
      match runs rest with
      | [] => simp only [extendLast, eq_comm]
      | [region] =>
          by_cases hlast : region.last = address
          · by_cases hfirst : region.first = first + 1 <;> simp [extendLast, hlast, hfirst]
          · by_cases hfirst : region.first = first + 1 <;> simp [extendLast, hlast, hfirst]
      | region :: next :: others =>
          simp only [extendLast]
          split <;> rfl

theorem runs_eq_foldl (addresses : List Nat) : runs addresses = addresses.foldl extendLast [] := by
  induction addresses using List.reverseRecOn with
  | nil => rfl
  | append_singleton addresses address ih => rw [runs_concat, ih, List.foldl_concat]

theorem regions_eq_scan {core : Core}
    (h : ∀ address, core.written.contains address = true → address < coreSize) :
    core.regions = scan core.written.contains := by
  have hwritten : core.written.toList = (List.range coreSize).filter core.written.contains := by
    apply core.written_ascend.eq_of_mem_iff (List.pairwise_lt_range.filter _)
    intro address
    rw [Std.TreeSet.mem_toList, List.mem_filter, List.mem_range]
    exact ⟨fun hmem => ⟨h address hmem, hmem⟩, And.right⟩
  rw [regions, hwritten, runs_eq_foldl, List.foldl_filter]
  rfl

/-!
# What happens to core

Actions on core are told as events, each of which clears core or writes a location.  A
load that fails leaves what it wrote before.
-/

inductive Action where
  | reset
  | write (address : Address) (value : Word)
  | load (segments : List Segment)
  | loadImage (bytes : Text)
  deriving DecidableEq, Repr

def perform (core : Core) : Action → Core
  | .reset => core.reset
  | .write address value => core.write address value
  | .load segments => (core.load segments).1
  | .loadImage bytes => (Core.loadImage bytes core).1

def afterAll (actions : List Action) : Core :=
  actions.foldl perform empty

inductive Event where
  | cleared
  | written (address : Nat)
  deriving DecidableEq, Repr

end Core

namespace Segment

def locations (segment : Segment) : List Nat :=
  if segment.format = .transfer then []
  else (List.range' segment.first.val segment.words.length).map (· % coreSize)

def loadable (segment : Segment) : Bool :=
  segment.format ≠ .transfer || segment.words.length = 1

end Segment

namespace Core

def loadEvents (segments : List Segment) : List Event :=
  ((segments.takeWhile Segment.loadable).flatMap Segment.locations).map .written

namespace Action

/-- What an action does to core, in its order.  An image clears core first, and is loaded only if
all of it can be read. -/
def events : Action → List Event
  | .reset => [.cleared]
  | .write address _ => [.written (address.val % coreSize)]
  | .load segments => loadEvents segments
  | .loadImage bytes =>
      .cleared ::
        match Image.read bytes with
        | (segments, none) => loadEvents segments
        | (_, some _) => []

end Action

/-- The location was written, and core was not cleared after that. -/
def WrittenSinceClear (events : List Event) (address : Nat) : Prop :=
  ∃ earlier later, events = earlier ++ .written address :: later ∧ .cleared ∉ later

/-!
# Events one after another

A location is marked if it was written after core was last cleared.
-/

theorem writtenSinceClear_concat (events : List Event) (event : Event) (address : Nat) :
    WrittenSinceClear (events ++ [event]) address ↔
      event = .written address ∨ event ≠ .cleared ∧ WrittenSinceClear events address := by
  constructor
  · rintro ⟨earlier, later, hevents, hkept⟩
    cases later using List.reverseRecOn with
    | nil =>
        have hlast := List.append_inj_right' hevents rfl
        exact Or.inl (List.singleton_inj.mp hlast)
    | append_singleton later last =>
        rw [← List.cons_append, ← List.append_assoc] at hevents
        rcases List.append_inj' hevents rfl with ⟨hbefore, hlast⟩
        rw [List.mem_append, List.mem_singleton, not_or] at hkept
        refine Or.inr ⟨?_, earlier, later, hbefore, hkept.1⟩
        rw [List.singleton_inj.mp hlast]
        exact Ne.symm hkept.2
  · rintro (rfl | ⟨hevent, earlier, later, rfl, hkept⟩)
    · exact ⟨events, [], rfl, List.not_mem_nil⟩
    · refine ⟨earlier, later ++ [event], by simp, ?_⟩
      rw [List.mem_append, List.mem_singleton, not_or]
      exact ⟨hkept, Ne.symm hevent⟩

theorem writtenSinceClear_append_written (events : List Event) (locations : List Nat)
    (address : Nat) :
    WrittenSinceClear (events ++ locations.map .written) address ↔
      WrittenSinceClear events address ∨ address ∈ locations := by
  induction locations using List.reverseRecOn with
  | nil => simp
  | append_singleton locations location ih =>
      rw [List.map_append, List.map_singleton, ← List.append_assoc, writtenSinceClear_concat, ih,
        List.mem_append, List.mem_singleton, Event.written.injEq]
      constructor
      · rintro (rfl | ⟨_, hold | hmem⟩)
        · exact Or.inr (Or.inr rfl)
        · exact Or.inl hold
        · exact Or.inr (Or.inl hmem)
      · rintro (hold | hmem | rfl)
        · exact Or.inr ⟨Event.noConfusion, Or.inl hold⟩
        · exact Or.inr ⟨Event.noConfusion, Or.inr hmem⟩
        · exact Or.inl rfl

def Tracks (core : Core) (events : List Event) : Prop :=
  ∀ address, core.written.contains address = true ↔ WrittenSinceClear events address

theorem tracks_cleared {core : Core} (h : core.written = ∅) (events : List Event) :
    core.Tracks (events ++ [.cleared]) := by
  intro address
  rw [h, writtenSinceClear_concat]
  simp

theorem Tracks.written {core after : Core} {events : List Event} (h : core.Tracks events)
    {locations : List Nat}
    (hafter : ∀ address, after.written.contains address = true ↔
      core.written.contains address = true ∨ address ∈ locations) :
    after.Tracks (events ++ locations.map .written) := by
  intro address
  rw [hafter, h address, writtenSinceClear_append_written]

/-!
# Loading

A load writes the locations of the segments that it takes, up to the first that is
wrong.
-/

theorem loadSegment_of_not_loadable (core : Core) {segment : Segment}
    (h : segment.loadable = false) :
    core.loadSegment segment = .error (.transferLength segment.words.length) := by
  simp only [Segment.loadable, Bool.or_eq_false_iff, decide_eq_false_iff_not, not_not] at h
  rw [loadSegment, if_pos h.1]
  split
  · rename_i hword
    rw [hword] at h
    exact absurd rfl h.2
  · rfl

theorem load_takeWhile (core : Core) (segments : List Segment) :
    (core.load segments).1 = (core.load (segments.takeWhile Segment.loadable)).1 := by
  induction segments generalizing core with
  | nil => rfl
  | cons segment rest ih =>
      cases hsegment : segment.loadable with
      | true =>
          rw [List.takeWhile_cons_of_pos hsegment, load, load]
          cases core.loadSegment segment with
          | ok next => exact ih next
          | error error => rfl
      | false =>
          have hstop : (segment :: rest).takeWhile Segment.loadable = [] :=
            List.takeWhile_cons_of_neg (by simp [hsegment])
          rw [hstop]
          show (core.load (segment :: rest)).1 = core
          rw [load, loadSegment_of_not_loadable core hsegment]

theorem memoryWords_locations (segments : List Segment) :
    (memoryWords (segments.flatMap Segment.contents)).map Prod.fst =
      segments.flatMap Segment.locations := by
  induction segments with
  | nil => rfl
  | cons segment rest ih =>
      have hsegment : (memoryWords segment.contents).map Prod.fst = segment.locations := by
        rw [Segment.locations, ← wordsFrom_locations]
        by_cases hformat : segment.format = .transfer
        · simp [memoryWords, Segment.contents, List.filter_map, Function.comp_def, hformat]
        · simp [memoryWords, Segment.contents, List.filter_map, Function.comp_def, hformat]
      rw [List.flatMap_cons, List.flatMap_cons, ← ih, ← hsegment, memoryWords, List.filter_append,
        List.map_append, List.map_append]
      rfl

theorem load_contains (core : Core) (segments : List Segment) (address : Nat) :
    (core.load segments).1.written.contains address = true ↔
      core.written.contains address = true ∨
        address ∈ (segments.takeWhile Segment.loadable).flatMap Segment.locations := by
  have hloadable : ∀ segment ∈ segments.takeWhile Segment.loadable,
      segment.format = .transfer → segment.words.length = 1 := by
    intro segment hmem htransfer
    have hgood := List.all_eq_true.mp List.all_takeWhile segment hmem
    simpa [Segment.loadable, htransfer] using hgood
  rw [load_takeWhile, load_eq core hloadable, foldl_put_written,
    ← memoryWords_locations]
  simp only [List.mem_map, Prod.exists, exists_and_right, exists_eq_right]

theorem write_contains (core : Core) (location : Address) (value : Word) (address : Nat) :
    (core.write location value).written.contains address = true ↔
      core.written.contains address = true ∨ address ∈ [location.val % coreSize] := by
  have hwrapped : location.wrapped.val = location.val % coreSize := Address.add_val_nat location 0
  rw [write, hwrapped, Std.TreeSet.contains_insert, List.mem_singleton, Bool.or_eq_true, or_comm]
  apply or_congr_right
  rw [beq_iff_eq, Nat.compare_eq_eq, eq_comm]

/-!
# Runs of actions

Each action keeps the marks in step with the events, so any list of actions does.
-/

theorem Tracks.load {core : Core} {events : List Event} (h : core.Tracks events)
    (segments : List Segment) : (core.load segments).1.Tracks (events ++ loadEvents segments) :=
  h.written (core.load_contains segments)

theorem Tracks.perform {core : Core} {events : List Event} (h : core.Tracks events)
    (action : Action) : (core.perform action).Tracks (events ++ action.events) := by
  cases action with
  | reset => exact tracks_cleared rfl events
  | write location value => exact h.written (core.write_contains location value)
  | load segments => exact h.load segments
  | loadImage bytes =>
      have hcleared : core.reset.Tracks (events ++ [.cleared]) := tracks_cleared rfl events
      rw [Core.perform, Action.events, loadImage, List.append_cons]
      cases Image.read bytes with
      | mk segments error =>
          cases error with
          | none => exact hcleared.load segments
          | some error =>
              rw [List.append_nil]
              exact hcleared

theorem tracks_afterAll (actions : List Action) :
    (afterAll actions).Tracks (actions.flatMap Action.events) := by
  induction actions using List.reverseRecOn with
  | nil =>
      intro address
      simp [afterAll, empty, WrittenSinceClear]
  | append_singleton actions action ih =>
      rw [afterAll, List.foldl_concat, List.flatMap_append, List.flatMap_singleton]
      exact ih.perform action

theorem Action.written_lt {action : Action} {address : Nat}
    (h : .written address ∈ action.events) : address < coreSize := by
  have hload : ∀ segments, .written address ∈ loadEvents segments → address < coreSize := by
    intro segments hmem
    rcases List.mem_map.mp hmem with ⟨location, hlocation, hsame⟩
    cases hsame
    rcases List.mem_flatMap.mp hlocation with ⟨segment, _, hlocation⟩
    rw [Segment.locations] at hlocation
    split at hlocation
    · cases hlocation
    · rcases List.mem_map.mp hlocation with ⟨n, _, rfl⟩
      exact Nat.mod_lt n (by decide)
  cases action with
  | reset => simp [events] at h
  | write location value =>
      rw [events, List.mem_singleton, Event.written.injEq] at h
      rw [h]
      exact Nat.mod_lt _ (by decide)
  | load segments => exact hload segments h
  | loadImage bytes =>
      rw [events, List.mem_cons] at h
      rcases h with h | h
      · cases h
      · split at h
        · exact hload _ h
        · cases h

theorem WrittenSinceClear.mem {events : List Event} {address : Nat}
    (h : WrittenSinceClear events address) : .written address ∈ events := by
  rcases h with ⟨earlier, later, rfl, _⟩
  simp

/-- The regions of core, whatever was done with it: they are not empty and lie within core, they
ascend with a gap between any two, and a location is in one of them exactly if it was written since
core was last cleared.  A scan of all locations finds the same regions. -/
theorem regions_of_written_locations (actions : List Action) :
    (∀ region ∈ (afterAll actions).regions, region.first < region.last ∧ region.last ≤ 32768) ∧
    ((afterAll actions).regions.Pairwise fun region next => region.last < next.first) ∧
    (∀ address,
      (∃ region ∈ (afterAll actions).regions, region.first ≤ address ∧ address < region.last) ↔
        WrittenSinceClear (actions.flatMap Action.events) address) ∧
    (afterAll actions).regions = scan (afterAll actions).written.contains := by
  have hruns := (afterAll actions).regions_areRuns
  have htracks := tracks_afterAll actions
  have hcore : ∀ address, (afterAll actions).written.contains address = true → address < 32768 := by
    intro address hwritten
    rcases List.mem_flatMap.mp ((htracks address).mp hwritten).mem with ⟨action, _, hevent⟩
    exact action.written_lt hevent
  refine ⟨?_, hruns.apart, ?_, regions_eq_scan hcore⟩
  · intro region hmem
    have hnonempty := hruns.nonempty region hmem
    have hlast := hcore _ (hruns.last_written hmem)
    omega
  · intro address
    exact (hruns.covered address).trans (htracks address)

-- A segment around the top of core, one after it that is not loaded, and a word that joins two runs.
example :
    (afterAll [.write (.ofNat 5) (.ofNat 1), .reset,
      .load [⟨.full, .ofNat 32767, .ofNat 32769, [.zero, .zero]⟩, ⟨.transfer, .zero, .zero, []⟩,
        ⟨.full, .ofNat 7, .ofNat 8, [.zero]⟩],
      .write (.ofNat 2) .zero, .write (.ofNat 32769) .zero]).regions =
      [⟨0, 3⟩, ⟨32767, 32768⟩] := by
  decide +kernel

end Core
end Ibm704
