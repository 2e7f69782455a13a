import Ibm704.Proofs.CardLayouts
import Ibm704.Proofs.PlainLiterals
import Ibm704.Proofs.Repetitions
import Ibm704.Proofs.Unfailing

/-!
# Words of characters

Six characters go into a word and are read back in their normal form: small letters
have become capitals, the second name of a code its first one, and what has no code a
blank.  A word is packed again from what is read in it exactly if it holds codes only.
The card of characters cuts its text by bytes, which are characters as long as all of
them have codes, so its words read back as the text in normal form.
-/

namespace Ibm704
namespace CharacterCode

/-!
# Normal form

The normal form of a character is what is read back for it: small letters become
capitals, and a character that shares its code becomes the name of the code.
-/

def normal (c : Char) : Char :=
  if c = '#' then '='
  else if c = '@' then '\''
  else if c = '&' then '+'
  else if c = '%' then '('
  else if (encode? c).isSome then c.toUpper
  else ' '

/-- The first `length` characters in normal form, with blanks after them. -/
def normalText (length : Nat) (chars : List Char) : List Char :=
  Text.padded length ((chars.take length).map normal)

/-!
# The table

The facts about codes are checked for the whole table at once.  Small letters are not
in it and are checked one by one.
-/

def tableFacts (entry : Char × Nat) : Bool :=
  encode? entry.1 == some entry.2 && decode entry.2 == normal entry.1 &&
    encode? (decode entry.2) == some entry.2 && decide (entry.1.toNat < 0x80)

theorem codes_tableFacts : codes.all tableFacts = true := by
  decide

theorem tableFacts_of_mem {c : Char} {code : Nat} (h : (c, code) ∈ codes) :
    encode? c = some code ∧ decode code = normal c ∧ encode? (decode code) = some code ∧ Plain c := by
  have hfacts := List.all_eq_true.mp codes_tableFacts _ h
  simp only [tableFacts, Bool.and_eq_true, beq_iff_eq, decide_eq_true_eq] at hfacts
  exact ⟨hfacts.1.1.1, hfacts.1.1.2, hfacts.1.2, hfacts.2⟩

theorem mem_codes_of_encode? {c : Char} {code : Nat} (h : encode? c = some code) :
    (fold c, code) ∈ codes := by
  rcases List.lookup_eq_some_iff.mp h with ⟨before, after, hsplit, _⟩
  rw [hsplit]
  simp

theorem of_small_letters {p : Char → Bool}
    (h : (List.range 26).all (fun i => p (Char.ofNat (97 + i))) = true) {c : Char}
    (hc : 'a' ≤ c ∧ c ≤ 'z') : p c = true := by
  have hlow : 97 ≤ c.toNat := UInt32.le_iff_toNat_le.mp hc.1
  have hhigh : c.toNat ≤ 122 := UInt32.le_iff_toNat_le.mp hc.2
  have hletter := List.all_eq_true.mp h (c.toNat - 97) (List.mem_range.mpr (by omega))
  rw [Nat.add_sub_cancel' hlow, Char.ofNat_toNat] at hletter
  exact hletter

theorem decode_code (c : Char) : decode ((encode? c).getD blank) = normal c := by
  by_cases hsmall : 'a' ≤ c ∧ c ≤ 'z'
  · have hletter := of_small_letters
      (p := fun c => decode ((encode? c).getD blank) == normal c) (by decide) hsmall
    exact beq_iff_eq.mp hletter
  · cases hcode : encode? c with
    | some code =>
        have hmem := mem_codes_of_encode? hcode
        rw [fold, if_neg hsmall] at hmem
        exact (tableFacts_of_mem hmem).2.1
    | none =>
        have hother : ∀ c' : Char, (encode? c').isSome = true → c ≠ c' := by
          rintro c' hsome rfl
          rw [hcode] at hsome
          cases hsome
        rw [normal, if_neg (hother '#' rfl), if_neg (hother '@' rfl), if_neg (hother '&' rfl),
          if_neg (hother '%' rfl), hcode]
        rfl

theorem plain_of_encode? {c : Char} {code : Nat} (h : encode? c = some code) : Plain c := by
  by_cases hsmall : 'a' ≤ c ∧ c ≤ 'z'
  · have hhigh : c.toNat ≤ 122 := UInt32.le_iff_toNat_le.mp hsmall.2
    unfold Plain
    omega
  · have hmem := mem_codes_of_encode? h
    rw [fold, if_neg hsmall] at hmem
    exact (tableFacts_of_mem hmem).2.2.2

theorem encode?_decode {code : Nat} (h : ∃ c, encode? c = some code) :
    encode? (decode code) = some code := by
  rcases h with ⟨c, hc⟩
  exact (tableFacts_of_mem (mem_codes_of_encode? hc)).2.2.1

theorem exists_encode?_of_decode {code : Nat} (hcode : code < 64)
    (h : encode? (decode code) ≠ none) : ∃ c, encode? c = some code := by
  unfold decode at h
  split at h
  · rename_i c other hfound
    have hsame : other = code := by
      have hequal := List.find?_some hfound
      rw [beq_iff_eq, Nat.mod_eq_of_lt hcode] at hequal
      exact hequal
    rw [hsame] at hfound
    exact ⟨c, (tableFacts_of_mem (List.mem_of_find?_eq_some hfound)).1⟩
  · exact absurd rfl h

theorem plain_decode (code : Nat) : Plain (decode code) := by
  unfold decode
  split
  · rename_i c other hfound
    exact (tableFacts_of_mem (List.mem_of_find?_eq_some hfound)).2.2.2
  · exact Nat.lt_of_sub_ne_zero (by decide)

/-!
# Six codes in a word

Six groups of six bits are put together and taken apart.
-/

theorem groups_eq (w : Word) :
    groups w = [5, 4, 3, 2, 1, 0].map fun i => w.toNat / 64 ^ i % 64 := by
  have hget : ∀ shift, w.get ⟨shift, 6⟩ = w.toNat / 2 ^ shift % 64 := by
    intro shift
    rw [w.get_eq (f := ⟨shift, 6⟩) (show 6 ≤ 64 by decide), Nat.shiftRight_eq_div_pow]
    rfl
  simp only [groups, List.map_cons, List.map_nil, hget]
  rfl

theorem groups_lt {w : Word} {code : Nat} (h : code ∈ groups w) : code < 64 := by
  rw [groups_eq] at h
  rcases List.mem_map.mp h with ⟨i, _, rfl⟩
  exact Nat.mod_lt _ (by decide)

theorem forall_groups_iff {w : Word} {p : Nat → Prop} :
    (∀ code ∈ groups w, p code) ↔ ∀ i < 6, p (w.toNat / 64 ^ i % 64) := by
  have hplaces : ∀ i, i ∈ [5, 4, 3, 2, 1, 0] ↔ i < 6 := by
    intro i
    simp only [List.mem_cons, List.not_mem_nil, or_false]
    omega
  rw [groups_eq, List.forall_mem_map]
  exact forall_congr' fun i => imp_congr_left (hplaces i)

theorem groups_assemble {codes : List Nat} (hlength : codes.length = 6)
    (hcodes : ∀ code ∈ codes, code < 64) : groups (.ofNat (assemble codes)) = codes := by
  obtain ⟨a, b, c, d, e, f, rfl⟩ : ∃ a b c d e f, codes = [a, b, c, d, e, f] := by
    match codes, hlength with
    | [a, b, c, d, e, f], _ => exact ⟨a, b, c, d, e, f, rfl⟩
  simp only [List.forall_mem_cons] at hcodes
  obtain ⟨ha, hb, hc, hd, he, hf, _⟩ := hcodes
  have hnumber : assemble [a, b, c, d, e, f] =
      ((((a * 64 + b) * 64 + c) * 64 + d) * 64 + e) * 64 + f := by
    simp [assemble]
  have hfits : assemble [a, b, c, d, e, f] < 2 * Word.signWeight := by
    rw [hnumber, Word.signWeight]
    omega
  rw [groups_eq, Word.toNat_ofNat hfits, hnumber]
  simp only [List.map_cons, List.map_nil, List.cons.injEq, and_true]
  refine ⟨?_, ?_, ?_, ?_, ?_, ?_⟩
  all_goals omega

theorem assemble_groups {w : Word} (h : w.toNat < 2 ^ 36) : .ofNat (assemble (groups w)) = w := by
  have hnumber : assemble (groups w) = w.toNat := by
    rw [groups_eq]
    simp only [assemble, List.map_cons, List.map_nil, List.foldl_cons, List.foldl_nil]
    omega
  rw [hnumber]
  simp [Word.ofNat, Word.toNat]

/-!
# Packing and reading

Six characters are read back in normal form, and so is a text of whole groups.
-/

theorem sixOf_eq (chars : List Char) : sixOf chars = Text.padded 6 (chars.take 6) := by
  simp only [sixOf, perWord, Text.padded, List.take_append, List.take_replicate, List.length_take]
  congr 2
  omega

theorem map_normal_padded (length : Nat) (chars : List Char) :
    (Text.padded length chars).map normal = Text.padded length (chars.map normal) := by
  have hblank : normal ' ' = ' ' := by decide
  simp only [Text.padded, List.map_append, List.map_replicate, List.length_map, hblank]

theorem unpack_pack (chars : List Char) : unpack (pack chars) = normalText 6 chars := by
  have hgroups : groups (pack chars) = packedCodes chars :=
    groups_assemble (packedCodes_length chars) (packedCodes_lt chars)
  have hnormal : (packedCodes chars).map decode = (sixOf chars).map normal := by
    rw [packedCodes, List.map_map]
    exact List.map_congr_left fun c _ => decode_code c
  rw [unpack, hgroups, hnormal, sixOf_eq, map_normal_padded, normalText]

theorem uncoded?_isSome_iff (chars : List Char) :
    (uncoded? chars).isSome = true ↔ ∃ c ∈ chars.take 6, encode? c = none := by
  simp [uncoded?, perWord, List.find?_isSome]

theorem unpack_length (w : Word) : (unpack w).length = 6 := by
  simp [unpack, groups]

theorem unpack_plain (w : Word) : ∀ c ∈ unpack w, Plain c := by
  intro c hmem
  rcases List.mem_map.mp hmem with ⟨code, _, rfl⟩
  exact plain_decode code

theorem uncoded?_unpack_iff (w : Word) :
    uncoded? (unpack w) = none ↔ ∀ code ∈ groups w, ∃ c, encode? c = some code := by
  have hcoded : uncoded? (unpack w) = none ↔ ∀ code ∈ groups w, encode? (decode code) ≠ none := by
    rw [← Option.not_isSome_iff_eq_none, uncoded?_isSome_iff,
      List.take_of_length_le (unpack_length w).le, unpack]
    simp
  rw [hcoded]
  constructor
  · intro hread code hmem
    exact exists_encode?_of_decode (groups_lt hmem) (hread code hmem)
  · intro hcodes code hmem
    rw [encode?_decode (hcodes code hmem)]
    exact Option.some_ne_none code

theorem pack_unpack {w : Word} (h : w.toNat < 2 ^ 36)
    (hcodes : ∀ code ∈ groups w, ∃ c, encode? c = some code) : pack (unpack w) = w := by
  have hsix : sixOf (unpack w) = unpack w := List.take_left' (unpack_length w)
  have hpacked : packedCodes (unpack w) = groups w := by
    rw [packedCodes, hsix, unpack, List.map_map]
    refine (List.map_congr_left fun code hmem => ?_).trans (List.map_id (groups w))
    exact congrArg (Option.getD · blank) (encode?_decode (hcodes code hmem))
  have hassembled : Word.ofNat (assemble (packedCodes (unpack w))) = w := by
    rw [hpacked, assemble_groups h]
  exact hassembled

end CharacterCode

/-!
# Cards of characters

Each character is one byte, so cutting and filling up the bytes of a field does the
same to its characters.
-/

namespace Text

theorem ofChars_eq_map {chars : List Char} (h : ∀ c ∈ chars, Plain c) :
    ofChars chars = chars.map fun c => UInt8.ofNat c.toNat := by
  rw [List.map_eq_flatMap]
  exact List.flatMap_congr fun c hmem => ofChar_plain (h c hmem)

theorem take_ofChars {chars : List Char} (h : ∀ c ∈ chars, Plain c) (n : Nat) :
    (ofChars chars).take n = ofChars (chars.take n) := by
  rw [ofChars_eq_map h, ← List.map_take,
    ofChars_eq_map fun c hmem => h c (List.mem_of_mem_take hmem)]

theorem drop_ofChars {chars : List Char} (h : ∀ c ∈ chars, Plain c) (n : Nat) :
    (ofChars chars).drop n = ofChars (chars.drop n) := by
  rw [ofChars_eq_map h, ← List.map_drop,
    ofChars_eq_map fun c hmem => h c (List.mem_of_mem_drop hmem)]

theorem padded_of_length_le {width : Nat} {chars : List Char} (h : width ≤ chars.length) :
    padded width chars = chars := by
  rw [padded, Nat.sub_eq_zero_of_le h, List.replicate_zero, List.append_nil]

theorem length_padded {width : Nat} {chars : List Char} (h : chars.length ≤ width) :
    (padded width chars).length = width := by
  rw [padded, List.length_append, List.length_replicate, Nat.add_sub_cancel' h]

end Text

/-- The field of a card of characters: a column with the number of words, 1 to 9 or a blank for ten,
and the text after it.  Blanks at the end of a card may be missing. -/
inductive Text.Counted : (field : Text) → (count : Nat) → (chars : List Char) → Prop where
  | digit {count : Nat} (chars : List Char) (hleast : 1 ≤ count) (hmost : count ≤ 9) :
      Counted (.ofChars (count.digitChar :: chars)) count chars
  | blank (chars : List Char) : Counted (.ofChars (' ' :: chars)) 10 chars
  | nothing : Counted [] 10 []

namespace Statement

open CharacterCode

structure Holds (words : List Word) (count : Nat) (chars : List Char) : Prop where
  length : words.length = count
  unpacked : words.flatMap unpack = normalText (6 * count) chars

theorem unpack_groupsOf {count : Nat} {chars : List Char} (hplain : ∀ c ∈ chars, Plain c)
    (hlength : chars.length = count * 6) :
    ((groupsOf 6 count (.ofChars chars)).map fun group => pack group.chars).flatMap unpack =
      chars.map normal := by
  induction count generalizing chars with
  | zero =>
      rw [Nat.zero_mul, List.length_eq_zero_iff] at hlength
      rw [hlength]
      rfl
  | succ count ih =>
      have hfirst : ∀ c ∈ chars.take 6, Plain c := fun c hmem => hplain c (List.mem_of_mem_take hmem)
      have hrest : ∀ c ∈ chars.drop 6, Plain c := fun c hmem => hplain c (List.mem_of_mem_drop hmem)
      have hsix : normalText 6 (chars.take 6) = (chars.take 6).map normal := by
        rw [normalText, List.take_take, Nat.min_self, Text.padded_of_length_le]
        rw [List.length_map, List.length_take]
        omega
      rw [groupsOf, List.map_cons, List.flatMap_cons, Text.take_ofChars hplain,
        Text.drop_ofChars hplain, ih hrest (by rw [List.length_drop]; omega),
        Text.chars_ofChars hfirst, unpack_pack, hsix, ← List.map_append, List.take_append_drop]

theorem takeCharacters_holds (st : Statement) (count : Nat) {chars : List Char}
    (hplain : ∀ c ∈ chars, Plain c) :
    Holds (st.takeCharacters count (.ofChars chars)).data count chars := by
  have hfirst : ∀ c ∈ chars.take (count * 6), Plain c :=
    fun c hmem => hplain c (List.mem_of_mem_take hmem)
  have hwidth := List.length_take_le (count * 6) chars
  have hpadded : (Text.ofChars chars).take (count * 6) ++
      Text.blanks (count * 6 - ((Text.ofChars chars).take (count * 6)).length) =
        Text.ofChars (Text.padded (count * 6) (chars.take (count * 6))) := by
    rw [Text.take_ofChars hplain, Text.length_ofChars hfirst, Text.blanks_eq, Text.padded,
      Text.ofChars_append]
  have hdata : (st.takeCharacters count (.ofChars chars)).data = (groupsOf 6 count
      (.ofChars (Text.padded (count * 6) (chars.take (count * 6))))).map
        fun group => pack group.chars := by
    rw [← hpadded]
    rfl
  constructor
  · rw [hdata, groupsOf_eq, List.length_map, List.length_map, List.length_range]
  · rw [hdata, unpack_groupsOf (Text.padded_plain hfirst _) (Text.length_padded hwidth),
      map_normal_padded, Nat.mul_comm, normalText]

theorem characterCount?_digitChar {count : Nat} (hleast : 1 ≤ count) (hmost : count ≤ 9) :
    Plain count.digitChar ∧
      characterCount? (UInt8.ofNat count.digitChar.toNat) = some count := by
  have hall : ∀ count < 10, 1 ≤ count → count.digitChar.toNat < 0x80 ∧
      characterCount? (UInt8.ofNat count.digitChar.toNat) = some count := by
    decide
  exact hall count (by omega) hleast

theorem parseCharacters_holds {st : Statement} {count : Nat} {chars : List Char}
    (hfield : Text.Counted st.card.field count chars) (hplain : ∀ c ∈ chars, Plain c) :
    Holds st.parseCharacters.data count chars := by
  have hcounted : ∀ {c : Char} {count : Nat}, Plain c →
      characterCount? (UInt8.ofNat c.toNat) = some count →
      st.card.field = .ofChars (c :: chars) → Holds st.parseCharacters.data count chars := by
    intro c count hc hcount hfield
    rw [Text.ofChars_cons hc] at hfield
    simp only [parseCharacters, hfield, hcount]
    exact takeCharacters_holds st count hplain
  -- The field is an index of the relation, so it has to be a variable.
  generalize hst : st.card.field = field at hfield
  cases hfield with
  | digit _ hleast hmost =>
      rcases characterCount?_digitChar hleast hmost with ⟨hdigit, hcount⟩
      exact hcounted hdigit hcount hst
  | blank => exact hcounted (Nat.lt_of_sub_ne_zero (by decide)) rfl hst
  | nothing =>
      have hempty : ([] : Text) = Text.ofChars [] := rfl
      simp only [parseCharacters, hst]
      rw [hempty]
      exact takeCharacters_holds st defaultCount hplain

theorem prepared_holds {st : Statement} {count : Nat} {chars : List Char}
    (hkind : st.kind = .characters) (hfield : Text.Counted st.card.field count chars)
    (hplain : ∀ c ∈ chars, Plain c) : Holds st.prepared.data count chars := by
  have hparsed : parseField { st with phase := .parsed } =
      parseCharacters { st with phase := .parsed } := by
    unfold parseField
    dsimp only
    rw [hkind]
  rw [prepared_data, hparsed]
  exact parseCharacters_holds hfield hplain

end Statement

theorem FirstPass.incoming_holds {pass : FirstPass} {card : Card} {count : Nat} {chars : List Char}
    (hkind : pass.kindOf card = .characters) (hfield : card.field.Counted count chars)
    (hplain : ∀ c ∈ chars, Plain c) : Statement.Holds (pass.incoming card).data count chars := by
  have hframe := statementOf_frame pass card
  refine Statement.prepared_holds ((congrArg Statement.kind hframe).trans hkind) ?_ hplain
  have hcard : (pass.statementOf card).card = card := congrArg Statement.card hframe
  rw [hcard]
  exact hfield

theorem SecondPass.Given.of_characters {pass : SecondPass} {st : Statement} {words : List Word}
    {scope : Scope} (h : Given pass st words scope) (hkind : st.kind = .characters)
    (hfree : st.blocked = false) : words = st.data := by
  cases h with
  | data => rfl
  | nothing hother => simp [hkind, hfree] at hother
  | copies _ hother => simp [hkind] at hother
  | instruction _ hother => simp [hkind] at hother
  | finish _ hother => simp [hkind] at hother

theorem Assembler.Follows.holds {asm : Assembler} {entry : FirstPass.Entry} {st : Statement}
    {count : Nat} {chars : List Char} (h : asm.Follows entry st) (hkind : st.kind = .characters)
    (hfield : entry.card.field.Counted count chars) (hplain : ∀ c ∈ chars, Plain c) :
    st.words = some st.emitted ∧ Statement.Holds st.emitted count chars := by
  have hfree : st.blocked = false := h.checked.unblocked (by simp [hkind])
  have hdata := h.cardPart Statement.data (fun _ => rfl) fun _ => rfl
  rcases h.assembled with ⟨_, _, hassembled, _⟩
  refine ⟨hassembled.words, ?_⟩
  rw [hassembled.given.of_characters hkind hfree, hdata]
  exact FirstPass.incoming_holds (h.kind.symm.trans hkind) hfield hplain

/-!
# Reading back

A code that is read as a character with a code is the code of a character.
-/

namespace CharacterCode

/-- Six characters are read back from a word in normal form, with an error exactly if one of them
has no code, and a word is packed again from what is read in it exactly if it holds codes only.
The words of a card of characters are read back as its text in normal form. -/
theorem character_text_read_back :
    (∀ text : Text, unpack (pack text.chars) = normalText 6 text.chars ∧
      ((uncoded? text.chars).isSome = true ↔ ∃ c ∈ text.chars.take 6, encode? c = none)) ∧
    (∀ w : Word, w.toNat < 2 ^ 36 →
      ((pack (Text.ofChars (unpack w)).chars = w ∧ uncoded? (Text.ofChars (unpack w)).chars = none) ↔
        ∀ i < 6, ∃ c, encode? c = some (w.toNat / 64 ^ i % 64))) ∧
    ∀ (options : Options) (source : Text) (lines : List Text),
      Source.lines? source = some lines →
      ∃ asm, assembleSource options source = .ok asm ∧
        ∀ before card after count chars, Card.ofLines 1 lines = before ++ card :: after →
          (Statement.classify card).1 = .characters →
          (∀ other ∈ before, (Statement.classify other).1 ≠ .finish) →
          card.field.Counted count chars → (∀ c ∈ chars, encode? c ≠ none) →
          ∃ earlier st later, asm.statements = earlier ++ st :: later ∧
            earlier.map Statement.card = before ∧ st.card = card ∧ st.words = some st.emitted ∧
            st.emitted.length = count ∧
            st.emitted.flatMap unpack = normalText (6 * count) chars := by
  refine ⟨?_, ?_, ?_⟩
  · intro text
    exact ⟨unpack_pack text.chars, uncoded?_isSome_iff text.chars⟩
  · intro w hw
    rw [Text.chars_ofChars (unpack_plain w), uncoded?_unpack_iff, forall_groups_iff]
    constructor
    · exact fun hsame => hsame.2
    · exact fun hcodes => ⟨pack_unpack hw (forall_groups_iff.mpr hcodes), hcodes⟩
  · intro options source lines hlines
    rcases assembleSource_finished options hlines with ⟨asm, hsource, hfinished⟩
    refine ⟨asm, hsource, ?_⟩
    intro before card after count chars hcards hcharacters hunended hfield hcoded
    rw [hcards] at hfinished
    rcases hfinished.statement_of_card hunended with
      ⟨entry, earlier, st, later, hsts, hearlier, hcard, _, hfollows, hkind⟩
    have hplain : ∀ c ∈ chars, Plain c := by
      intro c hmem
      rcases Option.ne_none_iff_exists'.mp (hcoded c hmem) with ⟨code, hcode⟩
      exact plain_of_encode? hcode
    rw [← hcard] at hfield
    rcases hfollows.holds (hkind.trans hcharacters) hfield hplain with ⟨hwords, hholds⟩
    exact ⟨earlier, st, later, hsts, hearlier, hfollows.card.trans hcard, hwords, hholds.length,
      hholds.unpacked⟩

/-- The text ends in the second word of three, its letters are small, and its signs have other names
first.  A word with one group that is no code is packed again as another word. -/
theorem character_text_read_back_padded :
    let options : Options := ⟨.ofNat 64, .absolute⟩
    let line : Text := .ofString "\tBCD\t3a#b@c&d%"
    let w : Word := .ofNat 0o216060601260
    (w.toNat < 2 ^ 36 ∧
      ((pack (Text.ofChars (unpack w)).chars = w ∧ uncoded? (Text.ofChars (unpack w)).chars = none) ↔
        ∀ i < 6, ∃ c, encode? c = some (w.toNat / 64 ^ i % 64))) ∧
    ∃ asm, assembleSource options line = .ok asm ∧
      ∃ earlier st later, asm.statements = earlier ++ st :: later ∧
        earlier.map Statement.card = [] ∧ st.card = .ofLine 1 line ∧ st.words = some st.emitted ∧
        st.emitted.length = 3 ∧ st.emitted.flatMap unpack = "A=B'C+D(          ".toList := by
  intro options line w
  have hw : w.toNat < 2 ^ 36 := by decide
  have hfield : (Card.ofLine 1 line).field.Counted 3 "a#b@c&d%".toList := by
    have htext : (Card.ofLine 1 line).field =
        Text.ofChars (Nat.digitChar 3 :: "a#b@c&d%".toList) := by
      decide +kernel
    rw [htext]
    exact .digit _ (by decide) (by decide)
  have hcoded : "a#b@c&d%".toList.all (fun c => (encode? c).isSome) = true := by
    decide +kernel
  have hread : normalText (6 * 3) "a#b@c&d%".toList = "A=B'C+D(          ".toList := by
    decide +kernel
  refine ⟨⟨hw, character_text_read_back.2.1 w hw⟩, ?_⟩
  rcases character_text_read_back.2.2 options line [line] (by decide +kernel) with
    ⟨asm, hsource, hheld⟩
  rw [← hread]
  exact ⟨asm, hsource, hheld [] _ [] 3 _ rfl (by decide +kernel) (by decide) hfield
    fun c hmem => Option.isSome_iff_ne_none.mp (List.all_eq_true.mp hcoded c hmem)⟩

end CharacterCode
end Ibm704
