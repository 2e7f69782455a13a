import Std.Data.TreeSet
import Ibm704.Image

/-!
# Core memory

Core holds words by address, and marks the locations that were written since it was
last cleared.  Loading puts segments into core; a transfer segment sets the
address at which the program starts and takes no location.
-/

namespace Ibm704

structure Core where
  /-- The words by address; a location that is not there holds 0. -/
  memory : WordMap
  written : Std.TreeSet Nat
  start : Address
  /-- Was the start address set?  Until then it means nothing. -/
  started : Bool

namespace Core

def empty : Core :=
  ⟨∅, ∅, .zero, false⟩

def reset (core : Core) : Core :=
  { core with memory := ∅, written := ∅, start := .zero, started := false }

def transfer (core : Core) : Option Address :=
  if core.started then some core.start else none

inductive Error where
  | transferLength (words : Nat)
  | image (error : Image.Error)
  deriving DecidableEq, Repr

namespace Error

def message : Error → Text
  | transferLength words =>
      .ofString "Transfer segment must hold one word: have " ++ Text.decimal words
  | image error => error.message

end Error

def write (core : Core) (address : Address) (value : Word) : Core :=
  { core with
    memory := core.memory.insert address.wrapped.val value.stored
    written := core.written.insert address.wrapped.val }

def read (core : Core) (address : Address) : Word :=
  (core.memory[address.wrapped.val]?).getD .zero

def loaded (core : Core) (address : Address) : Bool :=
  core.written.contains address.wrapped.val

/-!
# Loading

Words go into core one after another, around its top.  A load stops at the first
segment that is wrong and keeps what was written before it.
-/

def writeAll (core : Core) (address : Address) : List Word → Core
  | [] => core
  | w :: rest => (core.write address w).writeAll (address.add 1) rest

def loadSegment (core : Core) (segment : Segment) : Except Error Core :=
  if segment.format = .transfer then
    match segment.words with
    | [w] => .ok { core with start := w.address, started := true }
    | words => .error (.transferLength words.length)
  else
    .ok (core.writeAll (segment.first.add 0) segment.words)

def load (core : Core) : List Segment → Core × Option Error
  | [] => (core, none)
  | segment :: rest =>
      match core.loadSegment segment with
      | .ok core => core.load rest
      | .error error => (core, some error)

/-- Clears core and loads the records of an image, if all of them are good. -/
def loadImage (bytes : Text) (core : Core := empty) : Core × Option Error :=
  match Image.read bytes with
  | (segments, none) => core.reset.load segments
  | (_, some error) => (core.reset, some (.image error))

/-!
# Regions

The written locations in ascending order fall into runs, in which each is the
successor of the one before.
-/

/-- A run of written locations; `last` is the address after it. -/
structure Region where
  first : Nat
  last : Nat
  deriving DecidableEq, Repr

def runs : List Nat → List Region
  | [] => []
  | address :: rest =>
      match runs rest with
      | region :: regions =>
          if region.first = address + 1 then
            ⟨address, region.last⟩ :: regions
          else
            ⟨address, address + 1⟩ :: region :: regions
      | [] => [⟨address, address + 1⟩]

def regions (core : Core) : List Region :=
  runs core.written.toList

end Core

end Ibm704
