import Ibm704.Segment

/-!
# The binary image

Segments are stored as records one after another: a byte for the format, the
first address and the one after the last in two bytes each, and every word in
eight bytes, the most significant byte first.  Words are stored with 36 bits.

A reader takes one record at a time.  What it took before it found a record
wrong is gone, and it can go on with the rest.
-/

namespace Ibm704
namespace Image

inductive Error where
  | endOfInput
  | shortHeader
  | badHeader (format first last : Nat)
  | noWords
  | missingWords
  | wrongLength (first last : Address) (words : Nat)
  deriving DecidableEq, Repr

namespace Error

def corrupt : Text :=
  .ofString "Corrupt segment record"

def message : Error → Text
  | endOfInput => .ofString "EOF"
  | shortHeader => corrupt
  | badHeader format first last =>
      corrupt ++ .ofString ": header \x7bFormat:" ++ Text.decimal format ++
        .ofString " First:" ++ Text.decimal first ++
        .ofString " Last:" ++ Text.decimal last ++ .ofString "\x7d"
  | noWords => corrupt ++ .ofString ": EOF"
  | missingWords => corrupt ++ .ofString ": unexpected EOF"
  | wrongLength first last words =>
      corrupt ++ .ofString ": [" ++ first.toText ++ .ofString ", " ++ last.toText ++
        .ofString ") holds " ++ Text.decimal words ++ .ofString " words"

end Error

/-!
# Numbers

Numbers are stored with their most significant byte first.
-/

def numberBytes : (count : Nat) → Nat → Text
  | 0, _ => []
  | count + 1, n => UInt8.ofNat (n >>> (8 * count)) :: numberBytes count n

def number (bytes : Text) : Nat :=
  bytes.foldl (fun n byte => n * 256 + byte.toNat) 0

/-!
# Writing

The bounds of a segment must agree with the number of its words.
-/

def headerBytes (segment : Segment) : Text :=
  numberBytes 1 segment.format.code ++ numberBytes 2 segment.first.val ++
    numberBytes 2 segment.last.val

def wordBytes (w : Word) : Text :=
  numberBytes 8 w.stored.toNat

def writeSegment (segment : Segment) : Except Error Text :=
  if segment.length = segment.words.length then
    .ok (headerBytes segment ++ segment.words.flatMap wordBytes)
  else
    .error (.wrongLength segment.first segment.last segment.words.length)

def write (segments : List Segment) : Except Error Text :=
  (segments.mapM writeSegment).map List.flatten

/-!
# Reading

Records are read up to the end of input or to the first that is wrong.
-/

def wordsOf : (count : Nat) → Text → List Word
  | 0, _ => []
  | count + 1, bytes => (Word.ofNat (number (bytes.take 8))).stored :: wordsOf count (bytes.drop 8)

/-- The words that belong to a good header.  If there are not enough bytes for them, all are
taken. -/
def readWords (format first last : Nat) (bytes : Text) : Except Error Segment × Text :=
  let count := last - first
  if bytes.length < 8 * count then
    (.error (if bytes.isEmpty then .noWords else .missingWords), [])
  else
    (.ok ⟨⟨format⟩, .ofNat first, .ofNat last, wordsOf count bytes⟩, bytes.drop (8 * count))

def readSegment (bytes : Text) : Except Error Segment × Text :=
  match bytes with
  | f :: a :: b :: c :: d :: rest =>
      let first := number [a, b]
      let last := number [c, d]
      if last < first ∨ coreSize < last ∨ 2 < f.toNat then
        (.error (.badHeader f.toNat first last), rest)
      else
        readWords f.toNat first last rest
  | [] => (.error .endOfInput, [])
  | _ => (.error .shortHeader, [])

theorem readWords_length {format first last : Nat} {bytes : Text} :
    (readWords format first last bytes).2.length ≤ bytes.length := by
  simp only [readWords]
  split
  · simp
  · simp

theorem readSegment_length {bytes rest : Text} {segment : Segment}
    (h : readSegment bytes = (.ok segment, rest)) : rest.length < bytes.length := by
  unfold readSegment at h
  split at h
  · rename_i f a b c d tail
    have shorter := @readWords_length f.toNat (number [a, b]) (number [c, d]) tail
    dsimp only at h
    split at h
    · simp at h
    · rw [h] at shorter
      simp only [List.length_cons] at shorter ⊢
      omega
  · simp at h
  · simp at h

def read (bytes : Text) : List Segment × Option Error :=
  match _h : readSegment bytes with
  | (.ok segment, rest) =>
      let (segments, error) := read rest
      (segment :: segments, error)
  | (.error .endOfInput, _) => ([], none)
  | (.error error, _) => ([], some error)
termination_by bytes.length
decreasing_by exact readSegment_length (by assumption)

end Image
end Ibm704
