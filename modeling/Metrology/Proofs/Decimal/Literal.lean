import Metrology.Expr.Token
import Metrology.Proofs.Decimal.Written

/-!
# Number literals

What counts as a number literal is said by a grammar that knows nothing of scanning:
digits with at most one point among them and at least one digit, and behind them
possibly a power of ten, which is the letter `e`, possibly a sign, and digits. In front of
the number of a quantity a sign may stand.

Whether a text begins with a literal is found out by cutting its mantissa off: as many digits
as there are, with the first point among them. Nothing longer can be the mantissa of a
literal, so what is asked about literals is answered by the mantissa and by what stands behind
it. A formula takes the longest literal there is.

## Main definitions

* `Numeral.IsLiteral`: Characters that are a number literal.
* `Numeral.IsSigned`: Characters that are a number literal behind a sign, or without one.
* `Numeral.BeginsLiteral`: Texts that begin with a literal, told by two characters.
* `Numeral.IsLongest`: The longest beginning of a text that has a form.
* `Numeral.Cut`, `Numeral.SignCut`: The mantissa, or the sign, at the start of a text, and what
  stands behind it.

## Theorems

* `Numeral.isLongest_exponentLength`: The longest power of ten is taken.
* `Numeral.unsigned?_isSome_iff`: The literals are the numerals without a sign.
* `Numeral.isLongest_literalLength`: A formula takes the longest literal.
* `Numeral.beginsLiteral_of_isLiteral`: Where no number begins, there is no literal.
* `Numeral.mem_isSigned`, `Numeral.read?_of_isSigned`: What numbers are made of, and that they
  are read.
-/

namespace Metrology.Numeral

/-- A sign, or nothing. -/
def IsSign (cs : List Char) : Prop := cs = [] ∨ cs = ['+'] ∨ cs = ['-']

/-- Digits with at most one point among them. -/
structure IsPointed (cs : List Char) : Prop where
  digit_or_point : ∀ c ∈ cs, c.isDigit = true ∨ c = '.'
  count_le : cs.count '.' ≤ 1

/-- Digits with at most one point among them, and at least one digit. -/
structure IsMantissa (cs : List Char) : Prop extends IsPointed cs where
  some_digit : ∃ c ∈ cs, c.isDigit = true

/-- The letter of a power of ten, possibly a sign, and digits. -/
def IsPower (cs : List Char) : Prop :=
  ∃ mark sign digits, (mark = 'e' ∨ mark = 'E') ∧ IsSign sign ∧ digits ≠ [] ∧
    (∀ c ∈ digits, c.isDigit = true) ∧ cs = mark :: (sign ++ digits)

/-- A mantissa, and possibly a power of ten behind it. -/
def IsLiteral (cs : List Char) : Prop :=
  ∃ mantissa power, IsMantissa mantissa ∧ (power = [] ∨ IsPower power) ∧ cs = mantissa ++ power

/-- A literal with possibly a sign in front of it. -/
def IsSigned (cs : List Char) : Prop :=
  ∃ sign literal, IsSign sign ∧ IsLiteral literal ∧ cs = sign ++ literal

/-- A text begins with a digit, or with a point and a digit. -/
def BeginsLiteral (cs : List Char) : Prop :=
  ∃ c rest, cs = c :: rest ∧
    (c.isDigit = true ∨ c = '.' ∧ ∃ d, rest.head? = some d ∧ d.isDigit = true)

/-- A length is the one of the longest beginning of a text that has a form, and zero if no
    beginning has it. -/
structure IsLongest (form : List Char → Prop) (cs : List Char) (length : ℕ) : Prop where
  inside : length ≤ cs.length
  attained : length ≠ 0 → form (cs.take length)
  bounded : ∀ start, start <+: cs → form start → start.length ≤ length

theorem isDigit_of_mem_takeWhile (cs : List Char) :
    ∀ c ∈ cs.takeWhile Char.isDigit, c.isDigit = true := fun _ hc => List.mem_takeWhile_imp hc

section Mantissa

/-- Digits with a point among them are digits, the point and digits. -/
theorem IsPointed.parts (mantissa : List Char) (h : IsPointed mantissa) :
    (∀ c ∈ mantissa, c.isDigit = true) ∨ ∃ whole fraction,
      (∀ c ∈ whole, c.isDigit = true) ∧ (∀ c ∈ fraction, c.isDigit = true) ∧
        mantissa = whole ++ '.' :: fraction := by
  by_cases hpoint : '.' ∈ mantissa
  · rcases List.append_of_mem hpoint with ⟨whole, fraction, rfl⟩
    have hcount := h.count_le
    rw [List.count_append, List.count_cons_self] at hcount
    have hwhole : '.' ∉ whole := List.count_eq_zero.mp (by omega)
    have hfraction : '.' ∉ fraction := List.count_eq_zero.mp (by omega)
    refine Or.inr ⟨whole, fraction, fun c hc => ?_, fun c hc => ?_, rfl⟩
    · exact (h.digit_or_point c (List.mem_append_left _ hc)).resolve_right
        fun heq => hwhole (heq ▸ hc)
    · exact (h.digit_or_point c (List.mem_append_right _ (List.mem_cons_of_mem _ hc))).resolve_right
        fun heq => hfraction (heq ▸ hc)
  · exact Or.inl fun c hc => (h.digit_or_point c hc).resolve_right fun heq => hpoint (heq ▸ hc)

theorem isPointed_digits (digits : List Char) (h : ∀ c ∈ digits, c.isDigit = true) :
    IsPointed digits := by
  refine ⟨fun c hc => Or.inl (h c hc), ?_⟩
  have hpoint : '.' ∉ digits := fun hc => Bool.false_ne_true (h '.' hc)
  rw [List.count_eq_zero.mpr hpoint]
  exact Nat.zero_le 1

theorem isPointed_fraction (whole fraction : List Char)
    (hwhole : ∀ c ∈ whole, c.isDigit = true) (hfraction : ∀ c ∈ fraction, c.isDigit = true) :
    IsPointed (whole ++ '.' :: fraction) := by
  have hpoint : '.' ∉ whole := fun hc => Bool.false_ne_true (hwhole '.' hc)
  have hpoint' : '.' ∉ fraction := fun hc => Bool.false_ne_true (hfraction '.' hc)
  refine ⟨fun c hc => ?_, ?_⟩
  · rcases List.mem_append.mp hc with hc | hc
    · exact Or.inl (hwhole c hc)
    · exact (List.mem_cons.mp hc).symm.imp_left (hfraction c)
  · rw [List.count_append, List.count_cons_self, List.count_eq_zero.mpr hpoint,
      List.count_eq_zero.mpr hpoint']

/-- The mantissa at the start of a text and what stands behind it: no digit, and no point
    unless there is one in the mantissa. -/
structure Cut (mantissa tail : List Char) : Prop where
  pointed : IsPointed mantissa
  not_isDigit : ∀ c, tail.head? = some c → c.isDigit = false
  point_mem : tail.head? = some '.' → '.' ∈ mantissa

/-- Every text begins with a mantissa, which may be empty. -/
theorem exists_cut (cs : List Char) :
    ∃ mantissa tail, Cut mantissa tail ∧ cs = mantissa ++ tail := by
  by_cases hpoint : (cs.dropWhile Char.isDigit).head? = some '.'
  · rcases List.head?_eq_some_iff.mp hpoint with ⟨rest, hrest⟩
    refine ⟨cs.takeWhile Char.isDigit ++ '.' :: rest.takeWhile Char.isDigit,
      rest.dropWhile Char.isDigit, ⟨?_, Text.head_dropWhile _ rest, fun _ => ?_⟩, ?_⟩
    · exact isPointed_fraction _ _ (isDigit_of_mem_takeWhile cs) (isDigit_of_mem_takeWhile rest)
    · exact List.mem_append_right _ List.mem_cons_self
    · rw [List.append_assoc, List.cons_append, List.takeWhile_append_dropWhile, ← hrest,
        List.takeWhile_append_dropWhile]
  · exact ⟨cs.takeWhile Char.isDigit, cs.dropWhile Char.isDigit,
      ⟨isPointed_digits _ (isDigit_of_mem_takeWhile cs), Text.head_dropWhile _ cs,
        fun h => absurd h hpoint⟩,
      List.takeWhile_append_dropWhile.symm⟩

end Mantissa

section Sign

/-- The sign at the start of a text, if there is one, and what stands behind it. -/
structure SignCut (sign behind : List Char) : Prop where
  isSign : IsSign sign
  no_sign : sign = [] → behind.head? ≠ some '+' ∧ behind.head? ≠ some '-'

theorem exists_signCut (cs : List Char) :
    ∃ sign behind, SignCut sign behind ∧ cs = sign ++ behind := by
  by_cases hplus : cs.head? = some '+'
  · rcases List.head?_eq_some_iff.mp hplus with ⟨behind, rfl⟩
    exact ⟨['+'], behind, ⟨Or.inr (Or.inl rfl), fun h => by cases h⟩, rfl⟩
  · by_cases hminus : cs.head? = some '-'
    · rcases List.head?_eq_some_iff.mp hminus with ⟨behind, rfl⟩
      exact ⟨['-'], behind, ⟨Or.inr (Or.inr rfl), fun h => by cases h⟩, rfl⟩
    · exact ⟨[], cs, ⟨Or.inl rfl, fun _ => ⟨hplus, hminus⟩⟩, rfl⟩

/-- There is one way to cut a sign off. -/
theorem signCut_unique (sign behind sign' behind' : List Char) (h : SignCut sign behind)
    (h' : SignCut sign' behind') (heq : sign ++ behind = sign' ++ behind') :
    sign = sign' ∧ behind = behind' := by
  rcases h with ⟨rfl | rfl | rfl, hnone⟩ <;> rcases h' with ⟨rfl | rfl | rfl, hnone'⟩ <;>
    grind

/-- A digit or a point is no sign. -/
theorem signCut_cons (sign : List Char) (c : Char) (rest : List Char) (hsign : IsSign sign)
    (hc : c.isDigit = true ∨ c = '.') : SignCut sign (c :: rest) := by
  have hother := ne_of_isDigit_or_point c
  exact ⟨hsign, fun _ => ⟨fun h => hother '+' hc (by decide) (by decide) (Option.some.inj h),
    fun h => hother '-' hc (by decide) (by decide) (Option.some.inj h)⟩⟩

theorem signCut_digits (sign digits rest : List Char) (hsign : IsSign sign) (hdigits : digits ≠ [])
    (hall : ∀ c ∈ digits, c.isDigit = true) : SignCut sign (digits ++ rest) := by
  rcases List.exists_cons_of_ne_nil hdigits with ⟨c, others, rfl⟩
  exact signCut_cons sign c (others ++ rest) hsign (Or.inl (hall c List.mem_cons_self))

end Sign

section Power

variable (mark : Char) (hmark : mark = 'e' ∨ mark = 'E')

include hmark

/-- A power of ten is taken if there are digits behind its sign. -/
theorem exponentLength_cut (sign behind : List Char) (hcut : SignCut sign behind) :
    Token.exponentLength (mark :: (sign ++ behind)) =
      if behind.takeWhile Char.isDigit = [] then 0
      else 1 + sign.length + (behind.takeWhile Char.isDigit).length := by
  rw [Token.exponentLength, if_pos hmark]
  simp only [← List.length_eq_zero_iff]
  rcases hcut with ⟨rfl | rfl | rfl, hnone⟩
  · rcases hnone rfl with ⟨hplus, hminus⟩
    simp [hplus, hminus]
  · simp
  · simp

theorem isPower_cut (sign behind : List Char) (hsign : IsSign sign)
    (hdigits : behind.takeWhile Char.isDigit ≠ []) :
    IsPower (mark :: (sign ++ behind.takeWhile Char.isDigit)) :=
  ⟨mark, sign, _, hmark, hsign, hdigits, isDigit_of_mem_takeWhile behind, rfl⟩

end Power

/-- The longest power of ten is taken. -/
theorem isLongest_exponentLength (cs : List Char) :
    IsLongest IsPower cs (Token.exponentLength cs) := by
  rcases cs with _ | ⟨mark, rest⟩
  · refine ⟨Nat.le_refl 0, fun h => absurd rfl h, fun start hstart _ => ?_⟩
    rw [List.prefix_nil.mp hstart]
    exact Nat.le_refl 0
  by_cases hmark : mark = 'e' ∨ mark = 'E'
  · rcases exists_signCut rest with ⟨sign, behind, hcut, rfl⟩
    have hlength := exponentLength_cut mark hmark sign behind hcut
    refine ⟨?_, fun hsome => ?_, ?_⟩
    · rw [hlength]
      split
      · exact Nat.zero_le _
      · have hle := (List.takeWhile_prefix (p := Char.isDigit) (l := behind)).length_le
        simp only [List.length_cons, List.length_append]
        omega
    · by_cases hdigits : behind.takeWhile Char.isDigit = []
      · rw [hlength, if_pos hdigits] at hsome
        exact absurd rfl hsome
      · have hdigits' : sign ++ behind.takeWhile Char.isDigit <+: sign ++ behind :=
          (List.prefix_append_right_inj _).mpr (List.takeWhile_prefix _)
        have hprefix : mark :: (sign ++ behind.takeWhile Char.isDigit) <+:
            mark :: (sign ++ behind) := (List.prefix_cons_inj _).mpr hdigits'
        have htaken : Token.exponentLength (mark :: (sign ++ behind)) =
            (mark :: (sign ++ behind.takeWhile Char.isDigit)).length := by
          rw [hlength, if_neg hdigits, List.length_cons, List.length_append]
          omega
        rw [htaken, ← List.prefix_iff_eq_take.mp hprefix]
        exact isPower_cut mark hmark sign behind hcut.isSign hdigits
    · -- Any power of ten at the start of the text is cut in the same way.
      rintro start ⟨rest, hstart⟩ ⟨mark', sign', digits, hmark', hsign', hdigits, hall, rfl⟩
      rw [← hstart, List.cons_append, List.append_assoc, exponentLength_cut mark' hmark' sign' _
        (signCut_digits sign' digits rest hsign' hdigits hall), List.takeWhile_append_of_pos hall]
      rw [if_neg]
      · simp only [List.length_cons, List.length_append]
        omega
      · simp [hdigits]
  · have hnone : Token.exponentLength (mark :: rest) = 0 := by
      rw [Token.exponentLength, if_neg hmark]
    refine ⟨?_, fun hsome => absurd hnone hsome, ?_⟩
    · rw [hnone]
      exact Nat.zero_le _
    · rintro start ⟨tail, hstart⟩ ⟨mark', sign, digits, hmark', -, -, -, rfl⟩
      rw [List.cons_append, List.cons.injEq] at hstart
      exact absurd (hstart.1 ▸ hmark') hmark

/-- The letter of a power of ten is neither a digit nor a point. -/
theorem head_of_isPower (power : List Char) (h : IsPower power) :
    ∃ mark rest, power = mark :: rest ∧ mark.isDigit = false ∧ mark ≠ '.' := by
  rcases h with ⟨mark, sign, digits, hmark, -, -, -, rfl⟩
  refine ⟨mark, sign ++ digits, rfl, ?_⟩
  rcases hmark with rfl | rfl <;> decide

section Exponent

theorem natural?_isSome_iff (digits : List Char) :
    (exponent?.natural? digits).isSome = true ↔
      digits ≠ [] ∧ ∀ c ∈ digits, c.isDigit = true := by
  rw [exponent?.natural?]
  split
  · next h => exact ⟨fun _ => ⟨h.1, List.all_eq_true.mp h.2⟩, fun _ => rfl⟩
  · next h =>
    constructor
    · intro hnone
      cases hnone
    · exact fun hdigits => absurd ⟨hdigits.1, List.all_eq_true.mpr hdigits.2⟩ h

/-- The powers of ten are what a numeral may have behind its mantissa. -/
theorem exponent?_isSome_iff (cs : List Char) :
    (exponent? cs).isSome = true ↔ cs = [] ∨ IsPower cs := by
  rcases cs with _ | ⟨mark, rest⟩
  · exact ⟨fun _ => Or.inl rfl, fun _ => rfl⟩
  by_cases hmark : mark = 'e' ∨ mark = 'E'
  · rcases exists_signCut rest with ⟨sign, behind, hcut, rfl⟩
    have hread : (exponent? (mark :: (sign ++ behind))).isSome =
        (exponent?.natural? behind).isSome := by
      rcases hcut with ⟨rfl | rfl | rfl, hnone⟩
      · rcases hnone rfl with ⟨hplus, hminus⟩
        rw [List.nil_append, exponent?, if_pos hmark]
        · cases exponent?.natural? behind <;> rfl
        · rintro digits rfl
          exact hminus rfl
        · rintro digits rfl
          exact hplus rfl
      · rw [List.singleton_append, exponent?, if_pos hmark]
        cases exponent?.natural? behind <;> rfl
      · rw [List.singleton_append, exponent?, if_pos hmark]
        cases exponent?.natural? behind <;> rfl
    rw [hread, natural?_isSome_iff]
    refine ⟨fun h => Or.inr ⟨mark, sign, behind, hmark, hcut.isSign, h.1, h.2, rfl⟩, ?_⟩
    rintro (h | ⟨mark', sign', digits, -, hsign', hdigits, hall, h⟩)
    · cases h
    · rw [List.cons.injEq] at h
      have hsame := signCut_unique _ _ _ _ hcut
        (List.append_nil digits ▸ signCut_digits sign' digits [] hsign' hdigits hall) h.2
      rw [hsame.2]
      exact ⟨hdigits, hall⟩
  · have hnone : exponent? (mark :: rest) = none := if_neg hmark
    rw [hnone]
    refine ⟨fun h => Bool.false_ne_true.elim h, ?_⟩
    rintro (h | ⟨mark', sign, digits, hmark', -, -, -, h⟩)
    · cases h
    · cases h
      exact absurd hmark' hmark

end Exponent

/-- The point in a mantissa ends the digits in front of it. -/
theorem not_isDigit_point (rest : List Char) (c : Char) (hc : ('.' :: rest).head? = some c) :
    c.isDigit = false := by
  rw [← Option.some.inj hc]
  decide

namespace Cut

variable {mantissa tail : List Char} (hcut : Cut mantissa tail)

include hcut

/-- A formula takes the mantissa and a power of ten behind it. -/
theorem literalLength_eq :
    Token.literalLength (mantissa ++ tail) = mantissa.length + Token.exponentLength tail := by
  rcases hcut.pointed.parts with hdigits | ⟨whole, fraction, hwhole, hfraction, rfl⟩
  · have htake := Text.takeWhile_run _ _ _ hdigits hcut.not_isDigit
    have hpoint : tail.head? ≠ some '.' := fun h =>
      Bool.false_ne_true (hdigits '.' (hcut.point_mem h))
    rw [Token.literalLength]
    simp only [htake, List.drop_left, if_neg hpoint, List.drop_zero, Nat.add_zero]
  · have hpoint := not_isDigit_point (fraction ++ tail)
    have htake := Text.takeWhile_run _ _ _ hwhole hpoint
    have htakeFraction := Text.takeWhile_run _ _ _ hfraction hcut.not_isDigit
    rw [List.append_assoc, List.cons_append, Token.literalLength]
    simp only [htake, List.drop_left, List.head?_cons, if_true, List.drop_succ_cons,
      List.drop_zero, htakeFraction, Nat.add_comm 1, List.length_append, List.length_cons]

/-- A numeral is read from the digits in front of the point and behind it, which are not
    both missing where the mantissa has a digit. -/
theorem unsigned?_eq : ∃ whole fraction,
    (whole = [] ∧ fraction = [] ↔ ¬ ∃ c ∈ mantissa, c.isDigit = true) ∧
      unsigned? (mantissa ++ tail) = if whole = [] ∧ fraction = [] then none
        else (exponent? tail).map (Decimal.ofDigits whole fraction) := by
  rcases hcut.pointed.parts with hdigits | ⟨whole, fraction, hwhole, hfraction, rfl⟩
  · have htake := Text.takeWhile_run _ _ _ hdigits hcut.not_isDigit
    have hdrop := Text.dropWhile_run _ _ _ hdigits hcut.not_isDigit
    have hpoint : tail.head? ≠ some '.' := fun h =>
      Bool.false_ne_true (hdigits '.' (hcut.point_mem h))
    refine ⟨mantissa, [], ?_, ?_⟩
    · rw [and_iff_left rfl]
      refine ⟨fun h hdigit => ?_, fun h => ?_⟩
      · rw [h] at hdigit
        rcases hdigit with ⟨c, hc, -⟩
        cases hc
      · exact List.eq_nil_iff_forall_not_mem.mpr fun c hc => h ⟨c, hc, hdigits c hc⟩
    · rw [unsigned?, htake, hdrop]
      split
      next read rest heq =>
        split at heq
        · exact absurd rfl hpoint
        · cases heq
          rfl
  · have hpoint := not_isDigit_point (fraction ++ tail)
    have htake := Text.takeWhile_run _ _ _ hwhole hpoint
    have hdrop := Text.dropWhile_run _ _ _ hwhole hpoint
    have htakeFraction := Text.takeWhile_run _ _ _ hfraction hcut.not_isDigit
    have hdropFraction := Text.dropWhile_run _ _ _ hfraction hcut.not_isDigit
    refine ⟨whole, fraction, ⟨?_, fun h => ⟨?_, ?_⟩⟩, ?_⟩
    · rintro ⟨rfl, rfl⟩ ⟨c, hc, hdigit⟩
      rw [List.nil_append, List.mem_singleton] at hc
      subst hc
      cases hdigit
    · exact List.eq_nil_iff_forall_not_mem.mpr fun c hc =>
        h ⟨c, List.mem_append_left _ hc, hwhole c hc⟩
    · exact List.eq_nil_iff_forall_not_mem.mpr fun c hc =>
        h ⟨c, List.mem_append_right _ (List.mem_cons_of_mem _ hc), hfraction c hc⟩
    · rw [List.append_assoc, List.cons_append, unsigned?, htake, hdrop]
      simp only [htakeFraction, hdropFraction]

/-- A numeral is read if its mantissa has a digit and a power of ten, or nothing, follows. -/
theorem unsigned?_isSome : (unsigned? (mantissa ++ tail)).isSome = true ↔
    (∃ c ∈ mantissa, c.isDigit = true) ∧ (exponent? tail).isSome = true := by
  rcases hcut.unsigned?_eq with ⟨whole, fraction, hempty, hread⟩
  rw [hread]
  split
  · next h =>
    exact ⟨fun hnone => Bool.false_ne_true.elim hnone, fun hsome => absurd hsome.1 (hempty.mp h)⟩
  · next h =>
    rw [Option.isSome_map, and_iff_right (not_not.mp (mt hempty.mpr h))]

/-- What could be a mantissa at the start of the text is part of the mantissa there. -/
theorem prefix_mantissa (start : List Char) (hstart : start <+: mantissa ++ tail)
    (hpointed : IsPointed start) : start <+: mantissa := by
  rcases List.prefix_or_prefix_of_prefix hstart (List.prefix_append mantissa tail) with
    h | ⟨rest, rfl⟩
  · exact h
  rw [List.prefix_append_right_inj] at hstart
  rcases rest with _ | ⟨c, others⟩
  · rw [List.append_nil]
  -- The character behind the mantissa would have to be a second point.
  exfalso
  rcases hstart with ⟨behind, rfl⟩
  have hc := hcut.not_isDigit c rfl
  rcases hpointed.digit_or_point c (List.mem_append_right _ List.mem_cons_self) with hdigit | rfl
  · exact Bool.false_ne_true (hc.symm.trans hdigit)
  · have hmem := List.count_pos_iff.mpr (hcut.point_mem rfl)
    have hcount := hpointed.count_le
    rw [List.count_append, List.count_cons_self] at hcount
    omega

end Cut

/-- A mantissa ends where a power of ten, or nothing, follows. -/
theorem cut_of_isLiteral (mantissa power : List Char) (hmantissa : IsMantissa mantissa)
    (hpower : power = [] ∨ IsPower power) : Cut mantissa power := by
  rcases hpower with rfl | hpower
  · refine ⟨hmantissa.toIsPointed, ?_, ?_⟩
    · intro c hc
      cases hc
    · intro hc
      cases hc
  · rcases head_of_isPower power hpower with ⟨mark, rest, rfl, hdigit, hpoint⟩
    refine ⟨hmantissa.toIsPointed, ?_, fun hc => absurd (Option.some.inj hc) hpoint⟩
    intro c hc
    rw [← Option.some.inj hc]
    exact hdigit

/-- The literals are the numerals without a sign. -/
theorem unsigned?_isSome_iff (cs : List Char) :
    (unsigned? cs).isSome = true ↔ IsLiteral cs := by
  constructor
  · intro h
    rcases exists_cut cs with ⟨mantissa, tail, hcut, rfl⟩
    rcases (hcut.unsigned?_isSome).mp h with ⟨hdigit, hexponent⟩
    exact ⟨mantissa, tail, ⟨hcut.pointed, hdigit⟩, (exponent?_isSome_iff tail).mp hexponent, rfl⟩
  · rintro ⟨mantissa, power, hmantissa, hpower, rfl⟩
    have hcut := cut_of_isLiteral mantissa power hmantissa hpower
    exact (hcut.unsigned?_isSome).mpr
      ⟨hmantissa.some_digit, (exponent?_isSome_iff power).mpr hpower⟩

theorem isLiteral_of_unsigned? (cs : List Char) (value : Decimal) (h : unsigned? cs = some value) :
    IsLiteral cs := by
  rw [← unsigned?_isSome_iff, h]
  rfl

namespace Cut

variable {mantissa tail : List Char} (hcut : Cut mantissa tail)

include hcut

/-- A beginning of the text is a literal only if the mantissa has a digit, and is no longer
    than what a formula takes. -/
theorem bounded (start : List Char) (hstart : start <+: mantissa ++ tail)
    (hliteral : IsLiteral start) : (∃ c ∈ mantissa, c.isDigit = true) ∧
      start.length ≤ Token.literalLength (mantissa ++ tail) := by
  rcases hliteral with ⟨digits, power, hdigits, hpower, rfl⟩
  have hprefix := hcut.prefix_mantissa digits ((List.prefix_append digits power).trans hstart)
     hdigits.toIsPointed
  rcases hdigits.some_digit with ⟨c, hc, hdigit⟩
  refine ⟨⟨c, hprefix.subset hc, hdigit⟩, ?_⟩
  rw [hcut.literalLength_eq, List.length_append]
  rcases hpower with rfl | hpower
  · exact Nat.le_add_right_of_le hprefix.length_le
  · -- The letter of the power of ten stands right behind the mantissa.
    have hsame : digits = mantissa := by
      rcases hprefix with ⟨rest, rfl⟩
      rcases rest with _ | ⟨c', others⟩
      · rw [List.append_nil]
      rcases head_of_isPower power hpower with ⟨mark, behind, rfl, hmark, hpoint⟩
      rw [List.append_assoc, List.prefix_append_right_inj, List.cons_append,
        List.cons_prefix_cons] at hstart
      rcases hcut.pointed.digit_or_point c' (List.mem_append_right _ List.mem_cons_self) with h | h
      · rw [hstart.1, h] at hmark
        cases hmark
      · exact absurd (hstart.1.trans h) hpoint
    rw [hsame, List.prefix_append_right_inj] at hstart
    rw [hsame]
    exact Nat.add_le_add_left ((isLongest_exponentLength tail).bounded power hstart hpower) _

/-- Where the mantissa has a digit, what a formula takes is a literal. -/
theorem isLiteral (hdigit : ∃ c ∈ mantissa, c.isDigit = true) :
    IsLiteral ((mantissa ++ tail).take (Token.literalLength (mantissa ++ tail))) := by
  have hpower := isLongest_exponentLength tail
  rw [hcut.literalLength_eq, List.take_length_add_append]
  refine ⟨mantissa, _, ⟨hcut.pointed, hdigit⟩, ?_, rfl⟩
  by_cases hzero : Token.exponentLength tail = 0
  · exact Or.inl (by rw [hzero, List.take_zero])
  · exact Or.inr (hpower.attained hzero)

theorem literalLength_le : Token.literalLength (mantissa ++ tail) ≤ (mantissa ++ tail).length := by
  rw [hcut.literalLength_eq, List.length_append]
  exact Nat.add_le_add_left (isLongest_exponentLength tail).inside _

/-- The first two characters tell whether the mantissa has a digit. -/
theorem beginsLiteral_iff :
    BeginsLiteral (mantissa ++ tail) ↔ ∃ c ∈ mantissa, c.isDigit = true := by
  constructor
  · rintro ⟨c, rest, heq, hc⟩
    rcases mantissa with _ | ⟨c', others⟩
    · rw [List.nil_append] at heq
      subst heq
      rcases hc with hc | ⟨rfl, -⟩
      · exact absurd ((hcut.not_isDigit c rfl).symm.trans hc) Bool.false_ne_true
      · exact absurd (hcut.point_mem rfl) List.not_mem_nil
    · rw [List.cons_append, List.cons.injEq] at heq
      rcases heq with ⟨rfl, rfl⟩
      rcases hc with hc | ⟨rfl, d, hd, hdigit⟩
      · exact ⟨c', List.mem_cons_self, hc⟩
      · rcases others with _ | ⟨d', others⟩
        · exact absurd ((hcut.not_isDigit d hd).symm.trans hdigit) Bool.false_ne_true
        · rw [Option.some.inj hd]
          exact ⟨d, List.mem_cons_of_mem _ List.mem_cons_self, hdigit⟩
  · rintro ⟨d, hd, hdigit⟩
    rcases mantissa with _ | ⟨c, others⟩
    · exact absurd hd List.not_mem_nil
    refine ⟨c, others ++ tail, rfl, ?_⟩
    rcases hcut.pointed.digit_or_point c List.mem_cons_self with hc | rfl
    · exact Or.inl hc
    · -- The point is the only one, so the character behind it is a digit.
      have hmem : d ∈ others := by
        rcases List.mem_cons.mp hd with rfl | hmem
        · cases hdigit
        · exact hmem
      rcases List.exists_cons_of_ne_nil (List.ne_nil_of_mem hmem) with ⟨next, behind, rfl⟩
      refine Or.inr ⟨rfl, next, rfl, ?_⟩
      refine (hcut.pointed.digit_or_point next
        (List.mem_cons_of_mem _ List.mem_cons_self)).resolve_right ?_
      rintro rfl
      have hcount := hcut.pointed.count_le
      rw [List.count_cons_self, List.count_cons_self] at hcount
      omega

end Cut

/-- Where a number begins, a formula takes the longest literal. -/
theorem isLongest_literalLength (cs : List Char) (h : BeginsLiteral cs) :
    IsLongest IsLiteral cs (Token.literalLength cs) := by
  rcases exists_cut cs with ⟨mantissa, tail, hcut, rfl⟩
  have hdigit := hcut.beginsLiteral_iff.mp h
  exact ⟨hcut.literalLength_le, fun _ => hcut.isLiteral hdigit,
    fun start hstart hliteral => (hcut.bounded start hstart hliteral).2⟩

theorem isLiteral_literalLength (cs : List Char) (h : BeginsLiteral cs) :
    IsLiteral (cs.take (Token.literalLength cs)) := by
  rcases exists_cut cs with ⟨mantissa, tail, hcut, rfl⟩
  exact hcut.isLiteral (hcut.beginsLiteral_iff.mp h)

/-- Where no number begins, there is no literal. -/
theorem beginsLiteral_of_isLiteral (cs start : List Char) (hstart : start <+: cs)
    (hliteral : IsLiteral start) : BeginsLiteral cs := by
  rcases exists_cut cs with ⟨mantissa, tail, hcut, rfl⟩
  exact hcut.beginsLiteral_iff.mpr (hcut.bounded start hstart hliteral).1

/-- A literal begins with a digit or a point. -/
theorem head_of_isLiteral (cs : List Char) (h : IsLiteral cs) :
    ∃ c rest, cs = c :: rest ∧ (c.isDigit = true ∨ c = '.') := by
  rcases h with ⟨mantissa, power, hmantissa, -, rfl⟩
  rcases hmantissa.some_digit with ⟨d, hd, -⟩
  rcases List.exists_cons_of_ne_nil (List.ne_nil_of_mem hd) with ⟨c, rest, rfl⟩
  exact ⟨c, rest ++ power, rfl, hmantissa.digit_or_point c List.mem_cons_self⟩

/-- What a number is made of. -/
theorem mem_isSigned (cs : List Char) (h : IsSigned cs) (c : Char) (hc : c ∈ cs) :
    c.isDigit = true ∨ c ∈ ['.', 'e', 'E', '+', '-'] := by
  have hsign : ∀ sign, IsSign sign → c ∈ sign → c ∈ ['.', 'e', 'E', '+', '-'] := by
    rintro sign (rfl | rfl | rfl) hc
    · exact absurd hc List.not_mem_nil
    · rw [List.mem_singleton.mp hc]
      decide
    · rw [List.mem_singleton.mp hc]
      decide
  rcases h with ⟨sign, literal, hsign', ⟨mantissa, power, hmantissa, hpower, rfl⟩, rfl⟩
  rcases List.mem_append.mp hc with hc | hc
  · exact Or.inr (hsign sign hsign' hc)
  rcases List.mem_append.mp hc with hc | hc
  · refine (hmantissa.digit_or_point c hc).imp_right ?_
    rintro rfl
    exact List.mem_cons_self
  rcases hpower with rfl | ⟨mark, sign'', digits, hmark, hsign'', -, hdigits, rfl⟩
  · exact absurd hc List.not_mem_nil
  rcases List.mem_cons.mp hc with rfl | hc
  · rcases hmark with rfl | rfl <;> decide
  rcases List.mem_append.mp hc with hc | hc
  · exact Or.inr (hsign sign'' hsign'' hc)
  · exact Or.inl (hdigits c hc)

/-- A literal behind a sign, or without one, is read as a number. -/
theorem read?_of_isSigned (cs : List Char) (h : IsSigned cs) :
    ∃ negative magnitude, read? (String.ofList cs) = some (.finite negative magnitude) := by
  rcases h with ⟨sign, literal, hsign, hliteral, rfl⟩
  rcases Option.isSome_iff_exists.mp ((unsigned?_isSome_iff literal).mpr hliteral) with ⟨d, hd⟩
  rcases head_of_isLiteral literal hliteral with ⟨c, rest, rfl, hc⟩
  have hmagnitude : ∀ negative, magnitude? negative (c :: rest) = some (.finite negative d) := by
    intro negative
    rw [magnitude?_digits _ _ _ hc, hd, Option.map_some]
  have hother := ne_of_isDigit_or_point c
  rw [read?, String.toList_ofList]
  rcases hsign with rfl | rfl | rfl
  · refine ⟨false, d, ?_⟩
    rw [List.nil_append]
    split
    · next heq => exact absurd (List.cons.inj heq).1 (hother '-' hc (by decide) (by decide))
    · next heq => exact absurd (List.cons.inj heq).1 (hother '+' hc (by decide) (by decide))
    · exact hmagnitude false
  · exact ⟨false, d, hmagnitude false⟩
  · exact ⟨true, d, hmagnitude true⟩

end Metrology.Numeral
