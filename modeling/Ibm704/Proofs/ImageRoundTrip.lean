import Mathlib.Tactic.Ring
import Ibm704.Image
import Ibm704.Proofs.StoredWords

/-!
# Images are read as they were written

Bytes spell a number, eight of them a word, and a header and its words a record.
A record in an image can have more in its words than the 36 bits that count.  At
each of these levels reading takes exactly the bytes of what it gives back and
leaves those that follow.  So an image is read up to the first bytes that no
record starts with, it is read without an error if that is its end, and segments
come back from an image as they went into it.
-/

namespace Ibm704
namespace Image

/-!
# Numbers

Bytes spell the number that they were made from, if there are enough of them.
-/

theorem numberBytes_length (count n : Nat) : (numberBytes count n).length = count := by
  induction count with
  | zero => rfl
  | succ count ih => rw [numberBytes, List.length_cons, ih]

theorem foldl_numberBytes (count n start : Nat) :
    (numberBytes count n).foldl (fun value byte => value * 256 + byte.toNat) start =
      start <<< (8 * count) + n % (1 <<< (8 * count)) := by
  induction count generalizing start with
  | zero => simp [numberBytes, Nat.mod_one]
  | succ count ih =>
      have hbyte : (UInt8.ofNat (n >>> (8 * count))).toNat = n / (1 <<< (8 * count)) % 256 := by
        rw [Nat.shiftRight_eq_div_pow, Nat.one_shiftLeft]
        exact UInt8.toNat_ofNat'
      have hmore : ∀ m, m <<< (8 * (count + 1)) = m <<< (8 * count) * 256 := by
        intro m
        rw [Nat.mul_add, Nat.mul_one, Nat.shiftLeft_add, Nat.shiftLeft_eq _ 8]
      have hscale : ∀ m, m <<< (8 * count) = m * (1 <<< (8 * count)) := by
        intro m
        rw [Nat.shiftLeft_eq, Nat.one_shiftLeft]
      rw [numberBytes, List.foldl_cons, ih, hbyte, hmore start, hmore 1, Nat.mod_mul,
        hscale (start * 256 + _), hscale start]
      ring

theorem number_numberBytes {count n : Nat} (h : n < 1 <<< (8 * count)) :
    number (numberBytes count n) = n := by
  rw [number, foldl_numberBytes, Nat.zero_shiftLeft, Nat.zero_add, Nat.mod_eq_of_lt h]

theorem foldl_bytes_inj {bytes bytes' : Text} (hlength : bytes.length = bytes'.length)
    {start start' : Nat}
    (h : bytes.foldl (fun value byte => value * 256 + byte.toNat) start =
      bytes'.foldl (fun value byte => value * 256 + byte.toNat) start') :
    start = start' ∧ bytes = bytes' := by
  induction bytes generalizing bytes' start start' with
  | nil =>
      cases bytes' with
      | nil => exact ⟨h, rfl⟩
      | cons byte' rest' => simp at hlength
  | cons byte rest ih =>
      cases bytes' with
      | nil => simp at hlength
      | cons byte' rest' =>
          have hbyte : byte.toNat < 256 := byte.toNat_lt
          have hbyte' : byte'.toNat < 256 := byte'.toNat_lt
          rw [List.foldl_cons, List.foldl_cons] at h
          rcases ih (Nat.succ.inj hlength) h with ⟨hstart, hrest⟩
          have hsame : byte = byte' := UInt8.toNat_inj.mp (by omega)
          exact ⟨by omega, by rw [hsame, hrest]⟩

theorem number_lt (bytes : Text) : number bytes < 1 <<< (8 * bytes.length) := by
  have hbytes : ∀ byte ∈ bytes, byte.toNat < 256 := fun byte _ => byte.toNat_lt
  have hbound := foldl_digits_lt (show 256 = 1 <<< 8 from rfl) hbytes 0
  rwa [Nat.zero_add] at hbound

theorem numberBytes_number (bytes : Text) : numberBytes bytes.length (number bytes) = bytes := by
  have hlength := numberBytes_length bytes.length (number bytes)
  exact (foldl_bytes_inj hlength (number_numberBytes (number_lt bytes))).2

/-!
# Words

A word is stored in eight bytes.  Reading clears the upper 28 bits, which do not
count.
-/

def carrierBytes (w : Word) : Text :=
  numberBytes 8 w.toNat

theorem wordBytes_eq (w : Word) : wordBytes w = carrierBytes w.stored :=
  rfl

theorem carrierBytes_length (w : Word) : (carrierBytes w).length = 8 :=
  numberBytes_length 8 _

theorem bytes_length (words : List Word) :
    (words.flatMap carrierBytes).length = 8 * words.length := by
  simp [List.length_flatMap, carrierBytes_length, Nat.mul_comm]

theorem ofNat_carrierBytes (w : Word) : Word.ofNat (number (carrierBytes w)) = w := by
  have hnumber : number (carrierBytes w) = w.toNat := number_numberBytes w.bits.isLt
  rw [hnumber]
  simp [Word.ofNat, Word.toNat]

theorem carrierBytes_ofNat {bytes : Text} (h : bytes.length = 8) :
    carrierBytes (Word.ofNat (number bytes)) = bytes := by
  have hnumber : (Word.ofNat (number bytes)).toNat = number bytes := by
    have hbound := number_lt bytes
    rw [h] at hbound
    simpa [Word.ofNat, Word.toNat] using hbound
  rw [carrierBytes, hnumber, ← h, numberBytes_number]

theorem wordsOf_carrierBytes (words : List Word) (rest : Text) :
    wordsOf words.length (words.flatMap carrierBytes ++ rest) = words.map Word.stored := by
  induction words with
  | nil => rfl
  | cons w others ih =>
      rw [List.flatMap_cons, List.append_assoc, List.length_cons, wordsOf,
        List.take_left' (carrierBytes_length w), List.drop_left' (carrierBytes_length w),
        ofNat_carrierBytes, ih]
      rfl

theorem exists_carriers {count : Nat} {bytes : Text} (h : 8 * count ≤ bytes.length) :
    ∃ (words : List Word) (rest : Text), words.length = count ∧
      bytes = words.flatMap carrierBytes ++ rest := by
  induction count generalizing bytes with
  | zero => exact ⟨[], bytes, rfl, rfl⟩
  | succ count ih =>
      have hfirst : (bytes.take 8).length = 8 := by
        rw [List.length_take]
        omega
      have hmore : 8 * count ≤ (bytes.drop 8).length := by
        rw [List.length_drop]
        omega
      rcases ih hmore with ⟨words, rest, hlength, hbytes⟩
      refine ⟨Word.ofNat (number (bytes.take 8)) :: words, rest, by rw [List.length_cons, hlength],
        ?_⟩
      rw [List.flatMap_cons, carrierBytes_ofNat hfirst, List.append_assoc, ← hbytes,
        List.take_append_drop]

/-!
# Records

What is read is a record that the bytes start with, and every record that the bytes
start with is read.
-/

/-- A segment as an image holds it, with words of 64 bits. -/
structure Record extends Segment where
  bounds : first.val + words.length = last.val
  top : last.val ≤ coreSize
  format_le : format.code ≤ 2

namespace Record

def bytes (record : Record) : Text :=
  headerBytes record.toSegment ++ record.words.flatMap carrierBytes

def cleared (record : Record) : Record where
  format := record.format
  first := record.first
  last := record.last
  words := record.words.map Word.stored
  bounds := by rw [List.length_map, record.bounds]
  top := record.top
  format_le := record.format_le

theorem cleared_cleared (record : Record) : record.cleared.cleared = record.cleared := by
  have hwords : ∀ w : Word, w.stored.stored = w.stored := fun w => (Word.stored_fits w).stored
  simp [cleared, Function.comp_def, hwords]

end Record

theorem writeSegment_cleared (record : Record) :
    writeSegment record.cleared.toSegment = .ok record.cleared.bytes := by
  have hbounds := record.cleared.bounds
  have hlength : record.cleared.length = record.cleared.words.length := by
    unfold Segment.length
    omega
  have hwords : record.cleared.words.flatMap wordBytes =
      record.cleared.words.flatMap carrierBytes := by
    unfold Record.cleared
    simp only [List.flatMap_map]
    congr
    funext w
    rw [wordBytes_eq, (Word.stored_fits w).stored]
  rw [writeSegment, if_pos hlength, hwords]
  rfl

theorem readWords_record (record : Record) (rest : Text) :
    readWords record.format.code record.first.val record.last.val
        (record.words.flatMap carrierBytes ++ rest) =
      (.ok record.cleared.toSegment, rest) := by
  have hbounds := record.bounds
  have hcount : record.last.val - record.first.val = record.words.length := by omega
  have hlength := bytes_length record.words
  have haddress : ∀ a : Address, Address.ofNat a.val = a := by
    intro a
    simp only [Address.ofNat, Nat.mod_eq_of_lt a.isLt]
  unfold readWords
  dsimp only
  rw [if_neg]
  · rw [hcount, wordsOf_carrierBytes, List.drop_left' hlength, haddress, haddress]
    rfl
  · rw [hcount, List.length_append, hlength]
    omega

theorem readSegment_record (record : Record) (rest : Text) :
    readSegment (record.bytes ++ rest) = (.ok record.cleared.toSegment, rest) := by
  have hbounds := record.bounds
  have htop := record.top
  have hcode := record.format_le
  have hformat : (UInt8.ofNat (record.format.code >>> (8 * 0))).toNat = record.format.code := by
    rw [Nat.mul_zero, Nat.shiftRight_zero, UInt8.toNat_ofNat']
    omega
  have hnumber : ∀ a : Address,
      number [UInt8.ofNat (a.val >>> (8 * 1)), UInt8.ofNat (a.val >>> (8 * 0))] = a.val := by
    intro a
    show number (numberBytes 2 a.val) = a.val
    exact number_numberBytes a.isLt
  have hsplit : record.bytes ++ rest =
      UInt8.ofNat (record.format.code >>> (8 * 0)) ::
        UInt8.ofNat (record.first.val >>> (8 * 1)) :: UInt8.ofNat (record.first.val >>> (8 * 0)) ::
        UInt8.ofNat (record.last.val >>> (8 * 1)) :: UInt8.ofNat (record.last.val >>> (8 * 0)) ::
        (record.words.flatMap carrierBytes ++ rest) := by
    rw [Record.bytes, List.append_assoc]
    rfl
  rw [hsplit, readSegment, hformat, hnumber, hnumber, if_neg]
  · exact readWords_record record rest
  · omega

theorem record_of_header {f a b c d : UInt8} {tail : Text}
    (hbounds : number [a, b] ≤ number [c, d]) (htop : number [c, d] ≤ coreSize)
    (hformat : f.toNat ≤ 2) (hsize : 8 * (number [c, d] - number [a, b]) ≤ tail.length) :
    ∃ (record : Record) (rest : Text), f :: a :: b :: c :: d :: tail = record.bytes ++ rest := by
  have haddress : ∀ x y : UInt8, (Address.ofNat (number [x, y])).val = number [x, y] :=
    fun x y => Nat.mod_eq_of_lt (number_lt [x, y])
  rcases exists_carriers hsize with ⟨words, rest, hlength, htail⟩
  refine ⟨{ format := ⟨f.toNat⟩, first := .ofNat (number [a, b]), last := .ofNat (number [c, d]),
            words := words, bounds := ?_, top := ?_, format_le := hformat }, rest, ?_⟩
  · rw [haddress, haddress, hlength]
    omega
  · rw [haddress]
    exact htop
  · have hcode : numberBytes 1 f.toNat = [f] := by
      have hspelled := numberBytes_number [f]
      simpa [number] using hspelled
    have hfirst : numberBytes 2 (Address.ofNat (number [a, b])).val = [a, b] := by
      rw [haddress]
      exact numberBytes_number [a, b]
    have hlast : numberBytes 2 (Address.ofNat (number [c, d])).val = [c, d] := by
      rw [haddress]
      exact numberBytes_number [c, d]
    show _ = numberBytes 1 f.toNat ++ numberBytes 2 (Address.ofNat (number [a, b])).val ++
      numberBytes 2 (Address.ofNat (number [c, d])).val ++ words.flatMap carrierBytes ++ rest
    rw [hcode, hfirst, hlast, List.append_assoc, ← htail]
    rfl

theorem exists_record {bytes rest : Text} {segment : Segment}
    (h : readSegment bytes = (.ok segment, rest)) :
    ∃ record : Record, bytes = record.bytes ++ rest ∧ segment = record.cleared.toSegment := by
  have hrecord : ∃ (record : Record) (after : Text), bytes = record.bytes ++ after := by
    unfold readSegment at h
    split at h
    · dsimp only at h
      split at h
      · cases h
      · rename_i hheader
        unfold readWords at h
        dsimp only at h
        split at h
        · cases h
        · apply record_of_header <;> omega
    · cases h
    · cases h
  rcases hrecord with ⟨record, after, rfl⟩
  rw [readSegment_record] at h
  cases h
  exact ⟨record, rfl, rfl⟩

theorem bytes_append_inj {record record' : Record} {rest rest' : Text}
    (h : record.bytes ++ rest = record'.bytes ++ rest') :
    record.bytes = record'.bytes ∧ rest = rest' := by
  have hread := readSegment_record record rest
  rw [h, readSegment_record] at hread
  have hrest : rest' = rest := (Prod.mk.inj hread).2
  subst hrest
  exact ⟨List.append_cancel_right h, rfl⟩

/-- No record starts the bytes. -/
def Unreadable (bytes : Text) : Prop :=
  ∀ record : Record, ¬ record.bytes <+: bytes

theorem unreadable_of_error {bytes rest : Text} {error : Error}
    (h : readSegment bytes = (.error error, rest)) : Unreadable bytes := by
  intro record hstart
  rcases hstart with ⟨after, rfl⟩
  rw [readSegment_record] at h
  cases h

theorem readSegment_error {bytes rest : Text} {error : Error}
    (h : readSegment bytes = (.error error, rest)) :
    (error = .endOfInput ∧ bytes = []) ∨ Error.corrupt <+: error.message := by
  unfold readSegment at h
  split at h
  · right
    dsimp only at h
    split at h
    · cases h
      simp only [Error.message, List.append_assoc]
      exact List.prefix_append _ _
    · unfold readWords at h
      dsimp only at h
      split at h
      · cases h
        split
        · exact List.prefix_append _ _
        · exact List.prefix_append _ _
      · cases h
  · cases h
    exact .inl ⟨rfl, rfl⟩
  · cases h
    exact .inr List.prefix_rfl

/-!
# Images

An image is a row of records up to bytes that no record starts.  There is one such row
only.
-/

theorem read_record (record : Record) (rest : Text) :
    read (record.bytes ++ rest) =
      (record.cleared.toSegment :: (read rest).1, (read rest).2) := by
  have hfirst := readSegment_record record rest
  rw [read]
  split
  · rename_i heq
    rw [hfirst] at heq
    cases heq
    rfl
  · rename_i heq
    rw [hfirst] at heq
    cases heq
  · rename_i heq
    rw [hfirst] at heq
    cases heq

theorem read_records (records : List Record) (rest : Text) :
    read (records.flatMap Record.bytes ++ rest) =
      (records.map (fun record => record.cleared.toSegment) ++ (read rest).1, (read rest).2) := by
  induction records with
  | nil => rfl
  | cons record others ih =>
      rw [List.flatMap_cons, List.append_assoc, read_record, ih]
      rfl

theorem read_all_records (records : List Record) :
    read (records.flatMap Record.bytes) =
      (records.map (fun record => record.cleared.toSegment), none) := by
  have hread := read_records records []
  have hnil : read [] = ([], none) := by
    rw [read]
    rfl
  rwa [hnil, List.append_nil, List.append_nil] at hread

theorem read_unreadable {bytes : Text} (h : Unreadable bytes) :
    (read bytes = ([], none) ∧ bytes = []) ∨
      ∃ error, read bytes = ([], some error) ∧ Error.corrupt <+: error.message := by
  rw [read]
  split
  · rename_i hread
    rcases exists_record hread with ⟨record, hbytes, _⟩
    exact absurd ⟨_, hbytes.symm⟩ (h record)
  · rename_i hread
    rcases readSegment_error hread with ⟨_, hnil⟩ | hcorrupt
    · exact .inl ⟨rfl, hnil⟩
    · exact absurd hcorrupt (by decide)
  · rename_i error _ hnext hread
    rcases readSegment_error hread with ⟨hend, _⟩ | hcorrupt
    · exact absurd hend hnext
    · exact .inr ⟨error, rfl, hcorrupt⟩

theorem exists_records (bytes : Text) :
    ∃ (records : List Record) (rest : Text),
      bytes = records.flatMap Record.bytes ++ rest ∧ Unreadable rest := by
  -- The cases are those of the reader: a record was taken, the input ended, or an error came.
  induction bytes using read.induct with
  | case1 bytes segment rest hfirst _ _ _ ih =>
      rcases exists_record hfirst with ⟨record, hbytes, _⟩
      rcases ih with ⟨records, last, hrest, hlast⟩
      refine ⟨record :: records, last, ?_, hlast⟩
      rw [List.flatMap_cons, List.append_assoc, ← hrest, hbytes]
  | case2 bytes _ hfirst => exact ⟨[], bytes, rfl, unreadable_of_error hfirst⟩
  | case3 bytes _ _ _ hfirst => exact ⟨[], bytes, rfl, unreadable_of_error hfirst⟩

theorem records_longest {records others : List Record} {rest : Text} (hrest : Unreadable rest)
    (h : others.flatMap Record.bytes <+: records.flatMap Record.bytes ++ rest) :
    others.flatMap Record.bytes <+: records.flatMap Record.bytes := by
  induction others generalizing records with
  | nil => exact List.nil_prefix
  | cons other others ih =>
      rcases h with ⟨after, h⟩
      rw [List.flatMap_cons, List.append_assoc] at h
      cases records with
      | nil => exact absurd ⟨_, h⟩ (hrest other)
      | cons record records =>
          rw [List.flatMap_cons, List.append_assoc] at h
          rcases bytes_append_inj h with ⟨hfirst, hothers⟩
          rw [List.flatMap_cons, List.flatMap_cons, hfirst]
          exact (List.prefix_append_right_inj _).mpr (ih ⟨after, hothers⟩)

theorem write_records (records : List Record) :
    write (records.map fun record => record.cleared.toSegment) =
      .ok (records.flatMap fun record => record.cleared.bytes) := by
  have hrecords : (records.map fun record => record.cleared.toSegment).mapM writeSegment =
      .ok (records.map fun record => record.cleared.bytes) := by
    induction records with
    | nil => rfl
    | cons record others ih =>
        rw [List.map_cons, List.mapM_cons, writeSegment_cleared, ih]
        rfl
  rw [write, hrecords]
  rfl

/-!
# Segments that can be stored

A segment can be stored if its bounds are right, its format has a code and its words
fit.
-/

structure Storable (segment : Segment) : Prop where
  bounds : segment.first.val + segment.words.length = segment.last.val
  top : segment.last.val ≤ coreSize
  format : segment.format.code ≤ 2
  words : ∀ w ∈ segment.words, w.Fits

theorem Storable.exists_record {segment : Segment} (h : Storable segment) :
    ∃ record : Record, record.cleared.toSegment = segment := by
  have hwords : segment.words.map Word.stored = segment.words := by
    rw [List.map_congr_left fun w hmem => (h.words w hmem).stored, List.map_id']
  refine ⟨⟨segment, h.bounds, h.top, h.format⟩, ?_⟩
  simp only [Record.cleared, hwords]

theorem exists_records_of_storable {segments : List Segment}
    (h : ∀ segment ∈ segments, Storable segment) :
    ∃ records : List Record, (records.map fun record => record.cleared.toSegment) = segments := by
  induction segments with
  | nil => exact ⟨[], rfl⟩
  | cons segment rest ih =>
      rcases (h segment List.mem_cons_self).exists_record with ⟨record, hsegment⟩
      rcases ih fun other hmem => h other (List.mem_cons_of_mem segment hmem) with
        ⟨records, hsegments⟩
      refine ⟨record :: records, ?_⟩
      rw [List.map_cons, hsegment, hsegments]

theorem read_write {segments : List Segment} (h : ∀ segment ∈ segments, Storable segment) :
    ∃ bytes, write segments = .ok bytes ∧ read bytes = (segments, none) := by
  rcases exists_records_of_storable h with ⟨records, rfl⟩
  refine ⟨_, write_records records, ?_⟩
  have hread := read_all_records (records.map Record.cleared)
  simpa only [List.flatMap_map, List.map_map, Function.comp_def, Record.cleared_cleared] using hread

/-- An image is read without an error exactly if it is made of records.  Their segments are read,
with 36 bits of each word, and written again they give the image without the other bits.  The
error of any other image calls it corrupt, and the segments of all records before it are read.
Segments that can be stored come back from their image. -/
theorem images_read_exactly :
    (∀ (bytes : Text) (segments : List Segment),
      read bytes = (segments, none) ↔
        ∃ records : List Record, bytes = records.flatMap Record.bytes ∧
          segments = records.map fun record => record.cleared.toSegment) ∧
    (∀ records : List Record,
      write (records.map fun record => record.cleared.toSegment) =
        .ok (records.flatMap fun record => record.cleared.bytes)) ∧
    (∀ (bytes : Text) (segments : List Segment) (error : Error),
      read bytes = (segments, some error) →
        Error.corrupt <+: error.message ∧
        ∃ records : List Record,
          segments = (records.map fun record => record.cleared.toSegment) ∧
          records.flatMap Record.bytes <+: bytes ∧
          ∀ others : List Record, others.flatMap Record.bytes <+: bytes →
            others.flatMap Record.bytes <+: records.flatMap Record.bytes) ∧
    (∀ segments : List Segment, (∀ segment ∈ segments, Storable segment) →
      ∃ bytes, write segments = .ok bytes ∧ read bytes = (segments, none)) := by
  refine ⟨?_, write_records, ?_, fun segments h => read_write h⟩
  · intro bytes segments
    constructor
    · intro hread
      rcases exists_records bytes with ⟨records, rest, rfl, hrest⟩
      rw [read_records] at hread
      rcases read_unreadable hrest with ⟨hlast, rfl⟩ | ⟨error, hlast, _⟩
      · rw [hlast] at hread
        cases hread
        exact ⟨records, List.append_nil _, List.append_nil _⟩
      · rw [hlast] at hread
        cases hread
    · rintro ⟨records, rfl, rfl⟩
      exact read_all_records records
  · intro bytes segments error hread
    rcases exists_records bytes with ⟨records, rest, rfl, hrest⟩
    rw [read_records] at hread
    rcases read_unreadable hrest with ⟨hlast, _⟩ | ⟨_, hlast, hcorrupt⟩
    · rw [hlast] at hread
      cases hread
    · rw [hlast] at hread
      cases hread
      refine ⟨hcorrupt, records, List.append_nil _, List.prefix_append _ _, ?_⟩
      intro others hothers
      exact records_longest hrest hothers

/-- A record whose word has all its 64 bits, one without words, and a header that is cut. -/
theorem images_read_exactly_cut :
    (∃ records : List Record,
      [(⟨⟨0⟩, .ofNat 1, .ofNat 2, [.ofNat 68719476735]⟩ : Segment), ⟨⟨2⟩, .ofNat 5, .ofNat 5, []⟩] =
        (records.map fun record => record.cleared.toSegment) ∧
      records.flatMap Record.bytes <+:
        [0, 0, 1, 0, 2, 255, 255, 255, 255, 255, 255, 255, 255, 2, 0, 5, 0, 5, 0, 0] ∧
      ∀ others : List Record,
        others.flatMap Record.bytes <+:
            [0, 0, 1, 0, 2, 255, 255, 255, 255, 255, 255, 255, 255, 2, 0, 5, 0, 5, 0, 0] →
          others.flatMap Record.bytes <+: records.flatMap Record.bytes) ∧
    ∃ bytes, write [⟨⟨0⟩, .ofNat 1, .ofNat 2, [.ofNat 68719476735]⟩] = .ok bytes ∧
      read bytes = ([⟨⟨0⟩, .ofNat 1, .ofNat 2, [.ofNat 68719476735]⟩], none) := by
  have hread : read [0, 0, 1, 0, 2, 255, 255, 255, 255, 255, 255, 255, 255, 2, 0, 5, 0, 5, 0, 0] =
      ([⟨⟨0⟩, .ofNat 1, .ofNat 2, [.ofNat 68719476735]⟩, ⟨⟨2⟩, .ofNat 5, .ofNat 5, []⟩],
        some .shortHeader) := by
    decide +kernel
  have hstorable : Storable ⟨⟨0⟩, .ofNat 1, .ofNat 2, [.ofNat 68719476735]⟩ :=
    ⟨by decide, by decide, by decide, by decide⟩
  refine ⟨(images_read_exactly.2.2.1 _ _ _ hread).2, images_read_exactly.2.2.2 _ ?_⟩
  intro segment hmem
  rcases List.mem_singleton.mp hmem with rfl
  exact hstorable

end Image
end Ibm704
