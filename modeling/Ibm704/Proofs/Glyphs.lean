import Ibm704.Text.Glyph

/-!
# Glyphs give their text back

A glyph is written with the bytes that it was read from, so no byte of a text is
lost or changed when the text is divided into glyphs.
-/

namespace Ibm704
namespace Text

theorem charAtLeast?_eq_some {least code : Nat} {c : Char} (h : charAtLeast? least code = some c) :
    c.val.toNat = code ∧ least ≤ code ∧ code < 0x110000 := by
  unfold charAtLeast? at h
  by_cases hvalid : code.isValidChar
  · rw [dif_pos hvalid] at h
    by_cases hleast : least ≤ code
    · rw [if_pos hleast] at h
      cases h
      refine ⟨rfl, hleast, ?_⟩
      rcases hvalid with hlow | hhigh
      · omega
      · exact hhigh.2
    · rw [if_neg hleast] at h
      cases h
  · rw [dif_neg hvalid] at h
    cases h

theorem continuation?_eq_some {byte : UInt8} {payload : Nat}
    (h : continuation? byte = some payload) :
    payload < 64 ∧ byte = UInt8.ofNat (payload + 128) := by
  unfold continuation? at h
  split at h
  · rename_i hbyte
    cases h
    refine ⟨Nat.mod_lt _ (by decide), ?_⟩
    have hcode : byte.toNat % 64 + 128 = byte.toNat := by omega
    rw [hcode, UInt8.ofNat_toNat]
  · cases h

/-!
# Characters of two, three and four bytes

The bytes of a character are the byte that it starts with and those that it takes.
-/

section Widths

variable {c : Char} {lead x y z : Nat}

theorem utf8EncodeChar_two (hlead : 0xC0 ≤ lead ∧ lead < 0xE0) (hx : x < 64)
    (hcode : c.val.toNat = (lead - 0xC0) * 64 + x) (hleast : 0x80 ≤ (lead - 0xC0) * 64 + x) :
    String.utf8EncodeChar c = [UInt8.ofNat lead, UInt8.ofNat (x + 128)] := by
  have hbytes : c.val.toNat / 64 % 32 + 192 = lead ∧ c.val.toNat % 64 = x := by omega
  unfold String.utf8EncodeChar
  rw [if_neg (by omega), if_pos (by omega), hbytes.1, hbytes.2]

theorem utf8EncodeChar_three (hlead : 0xE0 ≤ lead ∧ lead < 0xF0) (hx : x < 64) (hy : y < 64)
    (hcode : c.val.toNat = ((lead - 0xE0) * 64 + x) * 64 + y)
    (hleast : 0x800 ≤ ((lead - 0xE0) * 64 + x) * 64 + y) :
    String.utf8EncodeChar c =
      [UInt8.ofNat lead, UInt8.ofNat (x + 128), UInt8.ofNat (y + 128)] := by
  have hbytes : c.val.toNat / 4096 % 16 + 224 = lead ∧ c.val.toNat / 64 % 64 = x ∧
      c.val.toNat % 64 = y := by omega
  unfold String.utf8EncodeChar
  rw [if_neg (by omega), if_neg (by omega), if_pos (by omega), hbytes.1, hbytes.2.1, hbytes.2.2]

theorem utf8EncodeChar_four (hlead : 0xF0 ≤ lead) (hx : x < 64) (hy : y < 64) (hz : z < 64)
    (hcode : c.val.toNat = (((lead - 0xF0) * 64 + x) * 64 + y) * 64 + z)
    (hleast : 0x10000 ≤ (((lead - 0xF0) * 64 + x) * 64 + y) * 64 + z)
    (hmost : (((lead - 0xF0) * 64 + x) * 64 + y) * 64 + z < 0x110000) :
    String.utf8EncodeChar c =
      [UInt8.ofNat lead, UInt8.ofNat (x + 128), UInt8.ofNat (y + 128),
        UInt8.ofNat (z + 128)] := by
  have hbytes : c.val.toNat / 262144 % 8 + 240 = lead ∧ c.val.toNat / 4096 % 64 = x ∧
      c.val.toNat / 64 % 64 = y ∧ c.val.toNat % 64 = z := by omega
  unfold String.utf8EncodeChar
  rw [if_neg (by omega), if_neg (by omega), if_neg (by omega), hbytes.1, hbytes.2.1,
    hbytes.2.2.1, hbytes.2.2.2]

end Widths

theorem utf8EncodeChar_of_leadingChar? {first : UInt8} {rest : Text} {c : Char} {taken : Nat}
    (h : leadingChar? first rest = some (c, taken)) :
    String.utf8EncodeChar c = first :: rest.take taken := by
  have hfirst : UInt8.ofNat first.toNat = first := UInt8.ofNat_toNat
  unfold leadingChar? at h
  dsimp only at h
  split at h
  · rcases Option.map_eq_some_iff.mp h with ⟨c', hchar, hpair⟩
    cases hpair
    rcases charAtLeast?_eq_some hchar with ⟨hcode, _, _⟩
    unfold String.utf8EncodeChar
    rw [if_pos (by omega), hcode, hfirst]
    rfl
  · split at h
    · cases h
    · split at h
      · split at h
        · rcases Option.bind_eq_some_iff.mp h with ⟨x, hx, h⟩
          rcases Option.bind_eq_some_iff.mp h with ⟨c', hchar, hpair⟩
          cases hpair
          rcases continuation?_eq_some hx with ⟨hxs, rfl⟩
          rcases charAtLeast?_eq_some hchar with ⟨hcode, hleast, _⟩
          rw [utf8EncodeChar_two (by omega) hxs hcode hleast, hfirst]
          rfl
        · cases h
      · split at h
        · split at h
          · rcases Option.bind_eq_some_iff.mp h with ⟨x, hx, h⟩
            rcases Option.bind_eq_some_iff.mp h with ⟨y, hy, h⟩
            rcases Option.bind_eq_some_iff.mp h with ⟨c', hchar, hpair⟩
            cases hpair
            rcases continuation?_eq_some hx with ⟨hxs, rfl⟩
            rcases continuation?_eq_some hy with ⟨hys, rfl⟩
            rcases charAtLeast?_eq_some hchar with ⟨hcode, hleast, _⟩
            rw [utf8EncodeChar_three (by omega) hxs hys hcode hleast, hfirst]
            rfl
          · cases h
        · split at h
          · rcases Option.bind_eq_some_iff.mp h with ⟨x, hx, h⟩
            rcases Option.bind_eq_some_iff.mp h with ⟨y, hy, h⟩
            rcases Option.bind_eq_some_iff.mp h with ⟨z, hz, h⟩
            rcases Option.bind_eq_some_iff.mp h with ⟨c', hchar, hpair⟩
            cases hpair
            rcases continuation?_eq_some hx with ⟨hxs, rfl⟩
            rcases continuation?_eq_some hy with ⟨hys, rfl⟩
            rcases continuation?_eq_some hz with ⟨hzs, rfl⟩
            rcases charAtLeast?_eq_some hchar with ⟨hcode, hleast, hmost⟩
            rw [utf8EncodeChar_four (by omega) hxs hys hzs hcode hleast hmost, hfirst]
            rfl
          · cases h

/-!
# Whole texts

The bytes of the glyphs of a text are the text.
-/

theorem ofGlyphs_glyphsAfter (skip : Nat) (text : Text) :
    ofGlyphs (glyphsAfter skip text) = text.drop skip := by
  induction text generalizing skip with
  | nil => rw [List.drop_nil]; cases skip <;> rfl
  | cons byte rest ih =>
      cases skip with
      | succ skip => exact ih skip
      | zero =>
          rw [glyphsAfter]
          split
          · rename_i c taken hchar
            unfold ofGlyphs at ih ⊢
            rw [List.flatMap_cons, ih, Glyph.toText, utf8EncodeChar_of_leadingChar? hchar,
              List.cons_append, List.take_append_drop, List.drop_zero]
          · unfold ofGlyphs at ih ⊢
            rw [List.flatMap_cons, ih]
            rfl

theorem ofGlyphs_glyphs (text : Text) : ofGlyphs text.glyphs = text :=
  ofGlyphs_glyphsAfter 0 text

end Text
end Ibm704
