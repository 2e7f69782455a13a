import Ibm704.Word.Basic

/-!
# Character code

A word holds six characters of six bits each, the first in the highest bits.
Some codes have two characters; the first one listed is the one that is read
back.  Small letters are coded as capitals.
-/

namespace Ibm704
namespace CharacterCode

/-- Every character that has a code.  Where two share one, the first is its name. -/
def codes : List (Char × Nat) :=
  [('0', 0o00), ('1', 0o01), ('2', 0o02), ('3', 0o03), ('4', 0o04),
   ('5', 0o05), ('6', 0o06), ('7', 0o07), ('8', 0o10), ('9', 0o11),
   ('=', 0o13), ('#', 0o13), ('\'', 0o14), ('@', 0o14),
   ('+', 0o20), ('&', 0o20),
   ('A', 0o21), ('B', 0o22), ('C', 0o23), ('D', 0o24), ('E', 0o25),
   ('F', 0o26), ('G', 0o27), ('H', 0o30), ('I', 0o31),
   ('.', 0o33), (')', 0o34),
   ('-', 0o40),
   ('J', 0o41), ('K', 0o42), ('L', 0o43), ('M', 0o44), ('N', 0o45),
   ('O', 0o46), ('P', 0o47), ('Q', 0o50), ('R', 0o51),
   ('$', 0o53), ('*', 0o54),
   (' ', 0o60), ('/', 0o61),
   ('S', 0o62), ('T', 0o63), ('U', 0o64), ('V', 0o65), ('W', 0o66),
   ('X', 0o67), ('Y', 0o70), ('Z', 0o71),
   (',', 0o73), ('(', 0o74), ('%', 0o74)]

def blank : Nat := 0o60

def perWord : Nat := 6

def fold (c : Char) : Char :=
  if 'a' ≤ c ∧ c ≤ 'z' then Char.ofNat (c.toNat - 32) else c

def encode? (c : Char) : Option Nat :=
  codes.lookup (fold c)

def decode (code : Nat) : Char :=
  match codes.find? fun entry => entry.2 == code % 64 with
  | some (c, _) => c
  | none => '?'

def assemble (groups : List Nat) : Nat :=
  groups.foldl (fun value code => value * 64 + code) 0

def sixOf (chars : List Char) : List Char :=
  (chars ++ List.replicate perWord ' ').take perWord

/-- The word of the first six characters.  A character without a code is packed as a blank. -/
def pack (chars : List Char) : Word :=
  Word.ofNat (assemble ((sixOf chars).map fun c => (encode? c).getD blank))

def uncoded? (chars : List Char) : Option Char :=
  (chars.take perWord).find? fun c => (encode? c).isNone

def uncodedMessage (c : Char) : Text :=
  .ofString "Character has no BCD code '" ++ .ofChar c ++ .ofString "'"

def groups (w : Word) : List Nat :=
  [30, 24, 18, 12, 6, 0].map fun shift => w.get ⟨shift, 6⟩

def unpack (w : Word) : List Char :=
  (groups w).map decode

end CharacterCode
end Ibm704
