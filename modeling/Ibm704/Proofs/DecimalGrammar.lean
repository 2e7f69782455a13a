import Ibm704.Proofs.PlainLiterals

/-!
# The form of decimal literals

A decimal literal is an optional sign, digits with or without a point, an optional
exponent after the letter E and an optional scale after the letter B.  The literal is
cut at the first B, its sign is taken off, and its mantissa is read from the left, one
part after another; these steps together accept exactly that form.  What remains to
be refused is a number that is too large for a double.
-/

namespace Ibm704
namespace Literal

/-!
# Forms

The form of a literal is given as a relation, apart from the reader: a mantissa with
or without a point, an optional exponent and an optional scale.
-/

structure Run (digits : List Char) : Prop where
  some : digits ≠ []
  all : ∀ c ∈ digits, c.isDigit = true

/-- Digits with or without a point: `D+`, `D+.D*` or `.D+`. -/
inductive Pointed : (whole : List Char) → (fraction : Option (List Char)) → List Char → Prop where
  | whole {whole : List Char} (hwhole : Run whole) : Pointed whole none whole
  | both {whole fraction : List Char} (hwhole : Run whole)
      (hfraction : ∀ c ∈ fraction, c.isDigit = true) :
      Pointed whole (some fraction) (whole ++ '.' :: fraction)
  | fraction {fraction : List Char} (hfraction : Run fraction) :
      Pointed [] (some fraction) ('.' :: fraction)

inductive Tail (letter : Char) : Option Exponent → List Char → Prop where
  | absent : Tail letter none []
  | present {negative : Bool} {mark digits : List Char} (hmark : Mark negative mark)
      (hdigits : Run digits) : Tail letter (some ⟨negative, digits⟩) (letter :: (mark ++ digits))

inductive Mantissa.Written (mantissa : Mantissa) : List Char → Prop where
  | intro {digits power : List Char} (hdigits : Pointed mantissa.whole mantissa.fraction digits)
      (hpower : Tail 'E' mantissa.exponent power) : Written mantissa (digits ++ power)

structure DecimalForm where
  negative : Bool
  mantissa : Mantissa
  scale : Option Exponent
  deriving DecidableEq, Repr

/-- The text is an optional sign, a mantissa and an optional scale. -/
inductive DecimalForm.Written (form : DecimalForm) : Text → Prop where
  | intro {mark chars scale : List Char} (hmark : Mark form.negative mark)
      (hmantissa : form.mantissa.Written chars) (hscale : Tail 'B' form.scale scale) :
      Written form (.ofChars (mark ++ (chars ++ scale)))

theorem DecimalForm.written_of_parts {negative : Bool} {whole : List Char}
    {fraction : Option (List Char)} {exponent scale : Option Exponent} {text : Text}
    {mark digits power tail : List Char} (hmark : Mark negative mark)
    (hdigits : Pointed whole fraction digits) (hpower : Tail 'E' exponent power)
    (hscale : Tail 'B' scale tail) (htext : text = .ofChars (mark ++ (digits ++ power ++ tail))) :
    Written ⟨negative, ⟨whole, fraction, exponent⟩, scale⟩ text := by
  rw [htext]
  exact .intro hmark (.intro hdigits hpower) hscale

def Exponent.number (e : Exponent) : Int :=
  if e.negative then -(Nat.ofDigitChars 10 e.digits 0 : Int) else Nat.ofDigitChars 10 e.digits 0

def DecimalForm.point? (form : DecimalForm) : Option Int64 :=
  form.scale.map fun e => Int64.ofInt e.number

/-!
# Characters of a form

A run of characters ends before the first that does not belong to it.
-/

def isPart (c : Char) : Bool :=
  c.isDigit || isSign c || c == '.' || c == 'E'

theorem isPart_of_isDigit {c : Char} (h : c.isDigit = true) : isPart c = true := by
  simp [isPart, h]

theorem plain_of_isPart {c : Char} (h : isPart c = true) : Plain c ∧ c ≠ 'B' := by
  simp only [isPart, isSign, Bool.or_eq_true, beq_iff_eq] at h
  rcases h with ((hdigit | rfl | rfl) | rfl) | rfl
  · refine ⟨(solid_of_isDigit hdigit).plain, ?_⟩
    rintro rfl
    cases hdigit
  all_goals exact ⟨Nat.lt_of_sub_ne_zero (by decide), by decide⟩

theorem Mark.isPart {negative : Bool} {mark : List Char} (h : Mark negative mark) :
    ∀ c ∈ mark, isPart c = true := by
  cases h with
  | absent => exact List.forall_mem_nil _
  | plus
  | minus => exact List.forall_mem_singleton.mpr rfl

theorem run_of_all {digits : List Char} (h : (!digits.isEmpty && digits.all Char.isDigit) = true) :
    Run digits := by
  rw [Bool.and_eq_true, Bool.not_eq_true', List.isEmpty_eq_false_iff, List.all_eq_true] at h
  exact ⟨h.1, h.2⟩

theorem Run.head {digits : List Char} (h : Run digits) : ∀ c ∈ digits.head?, c.isDigit = true :=
  fun c hmem => h.all c (List.mem_of_mem_head? hmem)

theorem Run.isPart {digits : List Char} (h : Run digits) : ∀ c ∈ digits, isPart c = true :=
  fun c hmem => isPart_of_isDigit (h.all c hmem)

theorem Tail.head {letter : Char} {e : Option Exponent} {chars : List Char}
    (h : Tail letter e chars) : ∀ c ∈ chars.head?, c = letter := by
  cases h with
  | absent =>
      intro c hmem
      cases hmem
  | present hmark hdigits =>
      intro c hmem
      cases hmem
      rfl

theorem Tail.head_not_digit {e : Option Exponent} {chars : List Char} (h : Tail 'E' e chars) :
    ∀ c ∈ chars.head?, c.isDigit = false := by
  intro c hmem
  rw [h.head c hmem]
  rfl

theorem Tail.isPart {letter : Char} {e : Option Exponent} {chars : List Char}
    (h : Tail letter e chars) : ∀ c ∈ chars, c = letter ∨ isPart c = true := by
  cases h with
  | absent => exact List.forall_mem_nil _
  | present hmark hdigits =>
      intro c hmem
      rcases List.mem_cons.mp hmem with rfl | hrest
      · exact .inl rfl
      · exact .inr (List.forall_mem_append.mpr ⟨hmark.isPart, hdigits.isPart⟩ c hrest)

theorem Pointed.isPart {whole : List Char} {fraction : Option (List Char)} {chars : List Char}
    (h : Pointed whole fraction chars) : ∀ c ∈ chars, isPart c = true := by
  have hpoint : ∀ {digits : List Char}, (∀ c ∈ digits, c.isDigit = true) →
      ∀ c ∈ '.' :: digits, Literal.isPart c = true := fun hdigits =>
    List.forall_mem_cons.mpr ⟨rfl, fun c hmem => isPart_of_isDigit (hdigits c hmem)⟩
  cases h with
  | whole hwhole => exact hwhole.isPart
  | both hwhole hfraction =>
      exact List.forall_mem_append.mpr ⟨hwhole.isPart, hpoint hfraction⟩
  | fraction hfraction => exact hpoint hfraction.all

theorem Pointed.head {whole : List Char} {fraction : Option (List Char)} {chars : List Char}
    (h : Pointed whole fraction chars) :
    ∃ c rest, chars = c :: rest ∧ isSign c = false := by
  have hrun : ∀ {digits : List Char}, Run digits →
      ∃ c rest, digits = c :: rest ∧ isSign c = false := by
    intro digits hdigits
    rcases List.exists_cons_of_ne_nil hdigits.some with ⟨c, rest, rfl⟩
    exact ⟨c, rest, rfl, isSign_of_isDigit (hdigits.head c rfl)⟩
  cases h with
  | whole hwhole => exact hrun hwhole
  | both hwhole hfraction =>
      rcases hrun hwhole with ⟨c, rest, rfl, hsign⟩
      exact ⟨c, _, List.cons_append, hsign⟩
  | fraction hfraction => exact ⟨_, _, rfl, rfl⟩

theorem Mantissa.Written.head {mantissa : Mantissa} {chars : List Char}
    (h : mantissa.Written chars) : ∃ c rest, chars = c :: rest ∧ isSign c = false := by
  cases h with
  | intro hdigits hpower =>
      rcases hdigits.head with ⟨c, rest, rfl, hsign⟩
      exact ⟨c, _, List.cons_append, hsign⟩

theorem Mantissa.Written.isPart {mantissa : Mantissa} {chars : List Char}
    (h : mantissa.Written chars) : ∀ c ∈ chars, isPart c = true := by
  cases h with
  | intro hdigits hpower =>
      refine List.forall_mem_append.mpr ⟨hdigits.isPart, ?_⟩
      intro c hmem
      rcases hpower.isPart c hmem with rfl | hpart
      · rfl
      · exact hpart

/-!
# Reading a form

What has the form is read as its parts.
-/

theorem cut_after {α : Type} {p : α → Bool} {run tail : List α} (hrun : ∀ a ∈ run, p a = true)
    (htail : ∀ a ∈ tail.head?, p a = false) :
    (run ++ tail).takeWhile p = run ∧ (run ++ tail).dropWhile p = tail := by
  rw [List.takeWhile_append_of_pos hrun, List.dropWhile_append_of_pos hrun]
  cases tail with
  | nil => exact ⟨List.append_nil run, rfl⟩
  | cons a rest =>
      have hstop : ¬p a = true := Bool.eq_false_iff.mp (htail a rfl)
      rw [List.takeWhile_cons_of_neg hstop, List.dropWhile_cons_of_neg hstop]
      exact ⟨List.append_nil run, rfl⟩

theorem Run.cut {digits : List Char} (h : Run digits) :
    digits.takeWhile Char.isDigit = digits ∧ digits.dropWhile Char.isDigit = [] :=
  ⟨List.takeWhile_eq_self_iff.mpr h.all, List.dropWhile_eq_nil_iff.mpr h.all⟩

theorem Mark.takeSign_run {negative : Bool} {mark digits : List Char} (h : Mark negative mark)
    (hdigits : Run digits) : takeSign (mark ++ digits) = (negative, digits) :=
  h.takeSign_append fun c hmem => isSign_of_isDigit (hdigits.head c hmem)

namespace Mantissa

theorem takeExponent_of_tail {e : Option Exponent} {power : List Char} (h : Tail 'E' e power) :
    takeExponent power = (e, []) := by
  cases h with
  | absent => rfl
  | present hmark hdigits =>
      simp only [takeExponent, hmark.takeSign_run hdigits, hdigits.cut.1, hdigits.cut.2]

theorem takeFraction_of_tail {e : Option Exponent} {power : List Char} (h : Tail 'E' e power) :
    takeFraction power = (none, power) := by
  cases h with
  | absent => rfl
  | present hmark hdigits => rfl

theorem takeFraction_point {e : Option Exponent} {fraction power : List Char}
    (hfraction : ∀ c ∈ fraction, c.isDigit = true) (hpower : Tail 'E' e power) :
    takeFraction ('.' :: (fraction ++ power)) = (some fraction, power) := by
  have hcut := cut_after hfraction hpower.head_not_digit
  simp only [takeFraction, hcut.1, hcut.2]

theorem read_of_written {m : Mantissa} {chars : List Char} (h : m.Written chars) :
    read chars = .ok m := by
  cases h with
  | intro hdigits hpower =>
      rename_i digits power
      rcases m with ⟨whole, fraction, exponent⟩
      dsimp only at hdigits hpower
      obtain ⟨rest, hchars, hwhole, hrest, htake⟩ : ∃ rest, digits ++ power = whole ++ rest ∧
          (∀ c ∈ whole, c.isDigit = true) ∧ (∀ c ∈ rest.head?, c.isDigit = false) ∧
          takeFraction rest = (fraction, power) := by
        cases hdigits with
        | whole hwhole =>
            exact ⟨power, rfl, hwhole.all, hpower.head_not_digit, takeFraction_of_tail hpower⟩
        | both hwhole hfraction =>
            refine ⟨_, List.append_assoc .., hwhole.all, ?_, takeFraction_point hfraction hpower⟩
            intro c hmem
            cases hmem
            rfl
        | fraction hfraction =>
            refine ⟨_, rfl, List.forall_mem_nil _, ?_, takeFraction_point hfraction.all hpower⟩
            intro c hmem
            cases hmem
            rfl
      have hcut := cut_after hwhole hrest
      rcases hdigits.head with ⟨c, others, hfirst, _⟩
      have hempty : (whole ++ rest).isEmpty = false := by
        rw [← hchars, hfirst]
        rfl
      rw [hchars]
      simp only [read, hempty, hcut.1, hcut.2, htake, takeExponent_of_tail hpower]
      rfl

theorem complete_of_written {m : Mantissa} {chars : List Char} (h : m.Written chars) :
    m.complete = true := by
  cases h with
  | intro hdigits hpower =>
      rcases m with ⟨whole, fraction, exponent⟩
      have hsome : (whole ++ fraction.getD []).isEmpty = false := by
        rw [List.isEmpty_eq_false_iff]
        cases hdigits with
        | whole hwhole
        | both hwhole hfraction => exact List.append_ne_nil_of_left_ne_nil hwhole.some _
        | fraction hfraction => exact hfraction.some
      have hexponent : (exponent.all fun e => !e.digits.isEmpty) = true := by
        cases hpower with
        | absent => rfl
        | present hmark hrun =>
            simp only [Option.all_some, Bool.not_eq_true', List.isEmpty_eq_false_iff]
            exact hrun.some
      simp only [complete, digits, hsome, hexponent, Bool.not_false, Bool.and_self]

theorem Written.digits {m : Mantissa} {chars : List Char} (h : m.Written chars) :
    (∀ c ∈ m.digits, c.isDigit = true) ∧ m.digits.length ≤ chars.length := by
  cases h with
  | intro hdigits hpower =>
      rename_i digits power
      rcases m with ⟨whole, fraction, exponent⟩
      have hpointed : (∀ c ∈ whole ++ fraction.getD [], c.isDigit = true) ∧
          (whole ++ fraction.getD []).length ≤ digits.length := by
        cases hdigits with
        | whole hwhole =>
            rw [Option.getD_none, List.append_nil]
            exact ⟨hwhole.all, le_rfl⟩
        | both hwhole hfraction =>
            refine ⟨List.forall_mem_append.mpr ⟨hwhole.all, hfraction⟩, ?_⟩
            simp
        | fraction hfraction => exact ⟨hfraction.all, Nat.le_succ _⟩
      refine ⟨hpointed.1, hpointed.2.trans ?_⟩
      rw [List.length_append]
      exact Nat.le_add_right _ _

theorem toDouble?_eq_nearest? {m : Mantissa} {chars : List Char} (h : m.Written chars)
    (hfew : m.wholeLength ≤ keptDigits) : m.toDouble? = m.nearest? := by
  unfold toDouble?
  simp [complete_of_written h, hfew]

/-!
# Forms that are read

What is read has the form.
-/

theorem takeFraction_eq {chars rest : List Char} {fraction : Option (List Char)}
    (h : takeFraction chars = (fraction, rest)) :
    fraction = none ∧ rest = chars ∨
      ∃ digits, fraction = some digits ∧ (∀ c ∈ digits, c.isDigit = true) ∧
        chars = '.' :: (digits ++ rest) := by
  unfold takeFraction at h
  split at h
  · cases h
    exact .inr ⟨_, rfl, List.all_eq_true.mp List.all_takeWhile,
      congrArg _ List.takeWhile_append_dropWhile.symm⟩
  · cases h
    exact .inl ⟨rfl, rfl⟩

theorem takeExponent_eq {chars rest : List Char} {exponent : Option Exponent}
    (h : takeExponent chars = (exponent, rest)) :
    exponent = none ∧ rest = chars ∨
      ∃ negative mark digits, exponent = some ⟨negative, digits⟩ ∧ Mark negative mark ∧
        (∀ c ∈ digits, c.isDigit = true) ∧ chars = 'E' :: (mark ++ (digits ++ rest)) := by
  unfold takeExponent at h
  split at h
  · rename_i chars
    rcases takeSign_marked chars with ⟨mark, hmark, hchars⟩
    cases h
    refine .inr ⟨_, mark, _, rfl, hmark, List.all_eq_true.mp List.all_takeWhile, ?_⟩
    rw [List.takeWhile_append_dropWhile]
    exact congrArg _ hchars
  · cases h
    exact .inl ⟨rfl, rfl⟩

theorem read_eq_ok {chars : List Char} {m : Mantissa} (h : read chars = .ok m) :
    chars ≠ [] ∧ (∀ c ∈ m.whole, c.isDigit = true) ∧ ∃ rest power,
      chars = m.whole ++ rest ∧ takeFraction rest = (m.fraction, power) ∧
        takeExponent power = (m.exponent, []) := by
  unfold read at h
  split at h
  · cases h
  · rename_i hsome
    dsimp only at h
    split at h
    · rename_i hrest
      cases h
      exact ⟨fun hnil => hsome (hnil ▸ rfl), List.all_eq_true.mp List.all_takeWhile, _, _,
        List.takeWhile_append_dropWhile.symm, rfl, Prod.ext rfl hrest⟩
    · cases h

theorem written_of_read {chars : List Char} {m : Mantissa} (h : read chars = .ok m)
    (hcomplete : m.complete = true) : m.Written chars := by
  rcases read_eq_ok h with ⟨_, hwhole, rest, power, hchars, hfraction, hexponent⟩
  rcases m with ⟨whole, fraction, exponent⟩
  simp only [complete, digits, Bool.and_eq_true, Bool.not_eq_true', List.isEmpty_eq_false_iff]
    at hcomplete
  rcases hcomplete with ⟨hsome, hpowered⟩
  have hpower : Tail 'E' exponent power := by
    rcases takeExponent_eq hexponent with
      ⟨rfl, rfl⟩ | ⟨negative, mark, digits, rfl, hmark, hdigits, rfl⟩
    · exact .absent
    · rw [List.append_nil]
      exact .present hmark ⟨by simpa using hpowered, hdigits⟩
  rw [hchars]
  rcases takeFraction_eq hfraction with ⟨rfl, rfl⟩ | ⟨digits, rfl, hdigits, rfl⟩
  · rw [Option.getD_none, List.append_nil] at hsome
    exact .intro (.whole ⟨hsome, hwhole⟩) hpower
  · by_cases hnone : whole = []
    · subst hnone
      show Written _ (('.' :: digits) ++ power)
      exact .intro (.fraction ⟨hsome, hdigits⟩) hpower
    · have hassoc : whole ++ '.' :: (digits ++ power) = (whole ++ '.' :: digits) ++ power :=
        (List.append_assoc whole ('.' :: digits) power).symm
      rw [hassoc]
      exact .intro (.both ⟨hnone, hwhole⟩ hdigits) hpower

theorem complete_of_isInteger {chars : List Char} {m : Mantissa} (h : read chars = .ok m)
    (hinteger : m.isInteger = true) : m.complete = true := by
  rcases read_eq_ok h with ⟨hsome, _, rest, power, hchars, hfraction, hexponent⟩
  rcases m with ⟨whole, fraction, exponent⟩
  simp only [isInteger, Bool.and_eq_true, Option.isNone_iff_eq_none] at hinteger
  rcases hinteger with ⟨rfl, rfl⟩
  rcases takeFraction_eq hfraction with ⟨_, rfl⟩ | ⟨digits, hpoint, _⟩
  · rcases takeExponent_eq hexponent with ⟨_, rfl⟩ | ⟨_, _, _, hletter, _⟩
    · rw [List.append_nil] at hchars
      simp only [complete, digits, Option.getD_none, List.append_nil, Option.all_none,
        Bool.and_true, Bool.not_eq_true', List.isEmpty_eq_false_iff]
      rw [hchars] at hsome
      exact hsome
    · cases hletter
  · cases hpoint

theorem complete_of_toDouble? {m : Mantissa} {d : Double} (h : m.toDouble? = some d) :
    m.complete = true := by
  unfold toDouble? at h
  split at h
  · cases h
  · rename_i hcomplete
    simpa using hcomplete

end Mantissa

/-!
# Scales

A scale is a sign and digits, or its digits are at fault.
-/

/-- The literal is refused for its digits: one is wrong or missing, or they cannot be read. -/
def Error.digitsAtFault : Error → Bool
  | invalidDigit _ | missingDigits _ | unreadable _ => true
  | empty | duplicateSign => false

theorem ofInt_number (e : Exponent) :
    Int64.ofInt e.number =
      if e.negative then -Int64.ofNat (Nat.ofDigitChars 10 e.digits 0)
      else Int64.ofNat (Nat.ofDigitChars 10 e.digits 0) := by
  unfold Exponent.number
  split
  · rw [Int64.ofInt_neg, Int64.ofInt_eq_ofNat]
  · rw [Int64.ofInt_eq_ofNat]

theorem readScale?_of_tail {e : Option Exponent} {chars : List Char} (h : Tail 'B' e chars) :
    readScale? chars = .ok (e.map fun e => Int64.ofInt e.number) := by
  cases h with
  | absent => rfl
  | present hmark hdigits =>
      have hempty := List.isEmpty_eq_false_iff.mpr hdigits.some
      simp only [readScale?, readScale, hmark.takeSign_run hdigits, hempty, hdigits.cut.2,
        Option.map_some, ofInt_number]
      rfl

theorem readScale_cases (chars : List Char) :
    (∃ point negative mark digits, readScale chars = .ok point ∧ Mark negative mark ∧
      Run digits ∧ chars = mark ++ digits) ∨
    ∃ error, readScale chars = .error error ∧ error.digitsAtFault = true := by
  rcases takeSign_marked chars with ⟨mark, hmark, hchars⟩
  unfold readScale
  dsimp only
  split
  · exact .inr ⟨_, rfl, rfl⟩
  · rename_i hsome
    split
    · rename_i hdigits
      have hrun : Run (takeSign chars).2 :=
        ⟨fun hnil => hsome (List.isEmpty_iff.mpr hnil), List.dropWhile_eq_nil_iff.mp hdigits⟩
      exact .inl ⟨_, _, mark, _, rfl, hmark, hrun, hchars⟩
    · exact .inr ⟨_, rfl, rfl⟩

theorem tail_of_readScale? {chars : List Char} (hfirst : ∀ c ∈ chars.head?, c = 'B')
    {point? : Option Int64} (h : readScale? chars = .ok point?) : ∃ e, Tail 'B' e chars := by
  cases chars with
  | nil => exact ⟨none, .absent⟩
  | cons c scale =>
      obtain rfl := hfirst c rfl
      rcases readScale_cases scale with
        ⟨point, negative, mark, digits, _, hmark, hrun, rfl⟩ | ⟨error, hread, _⟩
      · exact ⟨_, .present hmark hrun⟩
      · rw [readScale?, hread] at h
        cases h

theorem readScale?_fault {chars : List Char} {error : Error} (h : readScale? chars = .error error) :
    error.digitsAtFault = true := by
  cases chars with
  | nil => cases h
  | cons c scale =>
      rcases readScale_cases scale with ⟨point, _, _, _, hread, _⟩ | ⟨other, hread, hfault⟩
      · rw [readScale?, hread] at h
        cases h
      · rw [readScale?, hread] at h
        cases h
        exact hfault

/-!
# Whole literals

A literal is cut into a sign, a mantissa and a scale, or it is refused for its sign or
its digits.
-/

structure Cut (text : Text) (negative : Bool) (body : List Char) (point? : Option Int64)
    (m : Mantissa) : Prop where
  split : splitSign text.chars = .ok (negative, body)
  scale : readScale? (body.dropWhile (· != 'B')) = .ok point?
  mantissa : Mantissa.read (body.takeWhile (· != 'B')) = .ok m

theorem plain_of_parts {negative : Bool} {mark chars scale : List Char} {m : Mantissa}
    {e : Option Exponent} (hmark : Mark negative mark) (hmantissa : m.Written chars)
    (hscale : Tail 'B' e scale) : ∀ c ∈ mark ++ (chars ++ scale), Plain c := by
  refine List.forall_mem_append.mpr ⟨hmark.plain, List.forall_mem_append.mpr ⟨?_, ?_⟩⟩
  · exact fun c hmem => (plain_of_isPart (hmantissa.isPart c hmem)).1
  · intro c hmem
    rcases hscale.isPart c hmem with rfl | hpart
    · exact Nat.lt_of_sub_ne_zero (by decide)
    · exact (plain_of_isPart hpart).1

theorem DecimalForm.Written.mantissa {form : DecimalForm} {text : Text} (h : form.Written text) :
    ∃ chars, form.mantissa.Written chars := by
  cases h with
  | intro _ hmantissa _ => exact ⟨_, hmantissa⟩

theorem DecimalForm.Written.cut {form : DecimalForm} {text : Text} (h : form.Written text) :
    ∃ body, Cut text form.negative body form.point? form.mantissa := by
  cases h with
  | intro hmark hmantissa hscale =>
      rename_i mark chars scale
      have hcut : (chars ++ scale).takeWhile (· != 'B') = chars ∧
          (chars ++ scale).dropWhile (· != 'B') = scale := by
        apply cut_after
        · exact fun c hmem => bne_iff_ne.mpr (plain_of_isPart (hmantissa.isPart c hmem)).2
        · intro c hmem
          rw [hscale.head c hmem]
          rfl
      refine ⟨chars ++ scale, ?_, ?_, ?_⟩
      · rw [Text.chars_ofChars (plain_of_parts hmark hmantissa hscale)]
        rcases hmantissa.head with ⟨c, rest, rfl, hsign⟩
        apply splitSign_append hmark (List.cons_ne_nil _ _)
        intro other hmem
        cases hmem
        exact hsign
      · rw [hcut.2]
        exact readScale?_of_tail hscale
      · rw [hcut.1]
        exact Mantissa.read_of_written hmantissa

section Cut

variable {text : Text} {negative : Bool} {body : List Char} {point? : Option Int64} {m : Mantissa}

theorem Cut.written (h : Cut text negative body point? m) (hcomplete : m.complete = true) :
    ∃ scale, DecimalForm.Written ⟨negative, m, scale⟩ text := by
  have hmantissa := Mantissa.written_of_read h.mantissa hcomplete
  rcases splitSign_marked h.split with ⟨_, mark, hmark, hchars⟩
  have hletter : ∀ c ∈ (body.dropWhile (· != 'B')).head?, c = 'B' := by
    intro c hmem
    have hstop := List.head?_dropWhile_not (· != 'B') body
    rw [Option.mem_def.mp hmem] at hstop
    exact bne_eq_false_iff_eq.mp hstop
  rcases tail_of_readScale? hletter h.scale with ⟨scale, hscale⟩
  have hplain := plain_of_parts hmark hmantissa hscale
  rw [List.takeWhile_append_dropWhile, ← hchars] at hplain
  refine ⟨scale, ?_⟩
  rw [Text.eq_ofChars hplain, hchars,
    ← List.takeWhile_append_dropWhile (p := (· != 'B')) (l := body)]
  exact .intro hmark hmantissa hscale

theorem Cut.readDecimal_eq (h : Cut text negative body point? m) :
    readDecimal text = if m.isInteger then .ok (.make negative (integerMagnitude m.whole point?))
      else m.toDouble?.elim (.error (.unreadable (body.takeWhile (· != 'B')))) fun d =>
        .ok (.make negative (doubleMagnitude d point?)) := by
  simp only [readDecimal, h.split, h.scale, h.mantissa, bind, Except.bind, pure, Except.pure]
  split
  · rfl
  · cases m.toDouble? <;> rfl

end Cut

/-!
# Refusals

Only an empty text is an empty literal, and only two signs at the start are a
duplicate.
-/

def SignedTwice (text : Text) : Prop :=
  ∃ first second rest, isSign first = true ∧ isSign second = true ∧
    text = .ofChars [first, second] ++ rest

theorem Mantissa.read_fault {chars : List Char} {error : Error} (h : read chars = .error error) :
    error.digitsAtFault = true := by
  unfold read at h
  split at h
  · cases h
    rfl
  · dsimp only at h
    split at h
    · cases h
    · cases h
      rfl

theorem readDecimal_of_splitSign {text : Text} {error : Error}
    (h : splitSign text.chars = .error error) : readDecimal text = .error error := by
  simp only [readDecimal, h, bind, Except.bind]

theorem cut_or_refused (text : Text) :
    (∃ negative body point? m, Cut text negative body point? m) ∨
      ∃ error, readDecimal text = .error error ∧
        (splitSign text.chars = .error error ∨ error.digitsAtFault = true) := by
  cases hsplit : splitSign text.chars with
  | error error => exact .inr ⟨error, readDecimal_of_splitSign hsplit, .inl rfl⟩
  | ok signed =>
      rcases signed with ⟨negative, body⟩
      cases hscale : readScale? (body.dropWhile (· != 'B')) with
      | error error =>
          refine .inr ⟨error, ?_, .inr (readScale?_fault hscale)⟩
          simp only [readDecimal, hsplit, hscale, bind, Except.bind]
      | ok point? =>
          cases hread : Mantissa.read (body.takeWhile (· != 'B')) with
          | error error =>
              refine .inr ⟨error, ?_, .inr (Mantissa.read_fault hread)⟩
              simp only [readDecimal, hsplit, hscale, hread, bind, Except.bind]
          | ok m => exact .inl ⟨negative, body, point?, m, hsplit, hscale, hread⟩

theorem refused_by {text : Text} {error : Error} (h : readDecimal text = .error error) :
    splitSign text.chars = .error error ∨ error.digitsAtFault = true := by
  rcases cut_or_refused text with ⟨negative, body, point?, m, hcut⟩ | ⟨other, hother, hcause⟩
  · rw [hcut.readDecimal_eq] at h
    right
    split at h
    · cases h
    · cases hdouble : m.toDouble? with
      | none =>
          rw [hdouble] at h
          cases h
          rfl
      | some d =>
          rw [hdouble] at h
          cases h
  · rw [hother] at h
    cases h
    exact hcause

theorem signedTwice_iff {text : Text} :
    SignedTwice text ↔ ∃ first second rest, isSign first = true ∧ isSign second = true ∧
      text.chars = first :: second :: rest := by
  have hplain : ∀ {c : Char}, isSign c = true → Plain c := fun hsign =>
    (plain_of_isPart (by simp [isPart, hsign])).1
  have hglyph : ∀ {glyph : Glyph}, isSign glyph.toChar = true →
      glyph.toText = .ofChar glyph.toChar := by
    intro glyph hsign
    cases glyph with
    | char c => rfl
    | stray byte =>
        have hreplacement : isSign Glyph.replacement = true := hsign
        exact absurd hreplacement (by decide)
  constructor
  · rintro ⟨first, second, rest, hfirst, hsecond, rfl⟩
    refine ⟨first, second, rest.chars, hfirst, hsecond, ?_⟩
    have hsigns : ∀ c ∈ [first, second], Plain c :=
      List.forall_mem_cons.mpr ⟨hplain hfirst, List.forall_mem_singleton.mpr (hplain hsecond)⟩
    rw [Text.chars, Text.glyphs_ofChars_append hsigns]
    rfl
  · rintro ⟨first, second, rest, hfirst, hsecond, hchars⟩
    obtain ⟨one, others, hglyphs, rfl, hothers⟩ := List.map_eq_cons_iff.mp hchars
    obtain ⟨two, remaining, rfl, rfl, _⟩ := List.map_eq_cons_iff.mp hothers
    refine ⟨_, _, Text.ofGlyphs remaining, hfirst, hsecond, ?_⟩
    have htext := Text.ofGlyphs_glyphs text
    rw [hglyphs] at htext
    rw [← htext]
    simp only [Text.ofGlyphs, Text.ofChars, List.flatMap_cons, hglyph hfirst, hglyph hsecond,
      List.flatMap_nil, List.append_nil, List.append_assoc]

theorem chars_eq_nil_iff {text : Text} : text.chars = [] ↔ text = [] := by
  constructor
  · intro hchars
    have hglyphs : text.glyphs = [] := List.map_eq_nil_iff.mp hchars
    rw [← Text.ofGlyphs_glyphs text, hglyphs]
    rfl
  · rintro rfl
    rfl

theorem takeSign_cons {c : Char} (h : isSign c = true) (rest : List Char) :
    takeSign (c :: rest) = (c == '-', rest) := by
  simp only [isSign, Bool.or_eq_true, beq_iff_eq] at h
  rcases h with rfl | rfl
  · rfl
  · rfl

theorem splitSign_faults (chars : List Char) :
    (splitSign chars = .error .empty ↔ chars = []) ∧
      (splitSign chars = .error .duplicateSign ↔ ∃ first second rest, isSign first = true ∧
        isSign second = true ∧ chars = first :: second :: rest) := by
  cases chars with
  | nil => simp [splitSign]
  | cons c rest =>
      by_cases hsign : isSign c = true
      · cases rest with
        | nil => simp [splitSign, takeSign_cons hsign]
        | cons second others =>
            by_cases hsecond : isSign second = true
            · simp [splitSign, takeSign_cons hsign, hsign, hsecond]
            · simp [splitSign, takeSign_cons hsign, hsecond]
      · have hsplit : splitSign ([] ++ c :: rest) = .ok (false, c :: rest) := by
          apply splitSign_append .absent (List.cons_ne_nil _ _)
          intro other hmem
          cases hmem
          exact Bool.eq_false_iff.mpr hsign
        rw [List.nil_append] at hsplit
        simp [hsplit, hsign]

theorem readDecimal_sign_faults (text : Text) :
    (readDecimal text = .error .empty ↔ text = []) ∧
      (readDecimal text = .error .duplicateSign ↔ SignedTwice text) := by
  have hcause : ∀ error : Error, error.digitsAtFault = false →
      (readDecimal text = .error error ↔ splitSign text.chars = .error error) := by
    intro error hother
    refine ⟨fun h => (refused_by h).resolve_right ?_, readDecimal_of_splitSign⟩
    rw [hother]
    exact Bool.false_ne_true
  rw [hcause _ rfl, hcause _ rfl, (splitSign_faults _).1, (splitSign_faults _).2,
    chars_eq_nil_iff, signedTwice_iff]
  exact ⟨Iff.rfl, Iff.rfl⟩

theorem readDecimal_eq_ok_iff (text : Text) :
    (∃ w, readDecimal text = .ok w) ↔ ∃ form : DecimalForm, form.Written text ∧
      (form.mantissa.isInteger = false → form.mantissa.toDouble?.isSome = true) := by
  constructor
  · rintro ⟨w, hread⟩
    rcases cut_or_refused text with ⟨negative, body, point?, m, hcut⟩ | ⟨error, herror, _⟩
    · rw [hcut.readDecimal_eq] at hread
      split at hread
      · rename_i hinteger
        rcases hcut.written (Mantissa.complete_of_isInteger hcut.mantissa hinteger) with
          ⟨scale, hwritten⟩
        refine ⟨_, hwritten, fun hother => ?_⟩
        rw [hinteger] at hother
        cases hother
      · cases hdouble : m.toDouble? with
        | none =>
            rw [hdouble] at hread
            cases hread
        | some d =>
            rcases hcut.written (Mantissa.complete_of_toDouble? hdouble) with ⟨scale, hwritten⟩
            exact ⟨_, hwritten, fun _ => by rw [hdouble]; rfl⟩
    · rw [herror] at hread
      cases hread
  · rintro ⟨form, hwritten, hdouble⟩
    rcases hwritten.cut with ⟨body, hcut⟩
    rw [hcut.readDecimal_eq]
    split
    · exact ⟨_, rfl⟩
    · rename_i hother
      obtain ⟨d, hd⟩ := Option.isSome_iff_exists.mp (hdouble (Bool.eq_false_iff.mpr hother))
      rw [hd]
      exact ⟨_, rfl⟩

end Literal
end Ibm704
