import Metrology.Proofs.Decimal.Digits
import Metrology.Report.Notation

/-!
# Reading concise texts

A mean with its uncertainty is written as digits with a point, a whole number in
parentheses, and perhaps a power of ten. Whoever reads that takes the number in
parentheses to count units of the last digit in front of it, so what matters is
where the point stands.

The parts of a text are found by their marks: a point, two parentheses and a letter,
none of which is a digit or a sign.

## Main definitions

* `Notation.Reading`: The parts of a concise text.
* `Notation.read`: A text taken apart.
* `Notation.IsMantissa`: Digits with a point among them.

## Theorems

* `Notation.pointText_mantissa`, `Notation.toFixed_mantissa`: A number with decimals is
  digits with a point.
* `Notation.trimFraction_mantissa`: Trimming takes zeros from the fraction.
* `Notation.read_plain`, `Notation.read_scaled`: What is read in a concise text.
-/

namespace Metrology.Notation

open Decimal (digitsValue signedValue)

/-- The parts of a concise text: the digits in front of the parentheses and their sign,
    how many of them stand behind the point, the number in parentheses, and the power of
    ten. -/
structure Reading where
  negative : Bool
  coefficient : Nat
  decimals : Nat
  uncertain : Int
  exponent : Int
  deriving DecidableEq, Repr

/-- What stands in front of a mark. -/
def before (mark : Char) (cs : List Char) : List Char := cs.takeWhile (· ≠ mark)

/-- What stands behind a mark. -/
def behind (mark : Char) (cs : List Char) : List Char := (cs.dropWhile (· ≠ mark)).drop 1

/-- A text taken apart. -/
def read (text : String) : Reading :=
  let mantissa := before '(' text.toList
  { negative := mantissa.head? = some '-'
    coefficient := digitsValue (mantissa.filter Char.isDigit)
    decimals := (behind '.' mantissa).length
    uncertain := signedValue (before ')' (behind '(' text.toList))
    exponent := signedValue (behind 'e' (behind ')' text.toList)) }

section Marks

theorem before_append (mark : Char) (cs rest : List Char) (h : mark ∉ cs) :
    before mark (cs ++ mark :: rest) = cs := by
  have hcs : ∀ c ∈ cs, decide (c ≠ mark) = true :=
    fun c hc => decide_eq_true (fun heq => h (heq ▸ hc))
  rw [before, List.takeWhile_append_of_pos hcs, List.takeWhile_cons_of_neg (by simp),
    List.append_nil]

/-- Everything stands in front of a mark that is not there. -/
theorem before_of_not_mem (mark : Char) (cs : List Char) (h : mark ∉ cs) : before mark cs = cs :=
  List.takeWhile_eq_self_iff.mpr fun _ hc => decide_eq_true fun heq => h (heq ▸ hc)

theorem behind_append (mark : Char) (cs rest : List Char) (h : mark ∉ cs) :
    behind mark (cs ++ mark :: rest) = rest := by
  have hcs : ∀ c ∈ cs, decide (c ≠ mark) = true :=
    fun c hc => decide_eq_true (fun heq => h (heq ▸ hc))
  rw [behind, List.dropWhile_append_of_pos hcs, List.dropWhile_cons_of_neg (by simp)]
  rfl

/-- Nothing stands behind a mark that is not there. -/
theorem behind_of_not_mem (mark : Char) (cs : List Char) (h : mark ∉ cs) : behind mark cs = [] := by
  have hcs : ∀ c ∈ cs, decide (c ≠ mark) = true :=
    fun c hc => decide_eq_true (fun heq => h (heq ▸ hc))
  rw [behind, List.dropWhile_eq_nil_iff.mpr hcs, List.drop_nil]

end Marks

section Mantissas

/-- Digits with a point among them, if there are any behind it. -/
def pointed (whole fraction : List Char) : List Char :=
  whole ++ if fraction = [] then [] else '.' :: fraction

/-- Digits with a sign and a point. -/
structure IsMantissa (text : String) (negative : Bool) (whole fraction : List Char) : Prop where
  toList_eq : text.toList = (signText negative).toList ++ pointed whole fraction
  digits : ∀ c ∈ whole ++ fraction, c.isDigit = true

variable {text : String} {negative : Bool} {whole fraction : List Char}

theorem toList_signText (negative : Bool) :
    (signText negative).toList = if negative then ['-'] else [] := by
  cases negative <;> rfl

theorem IsMantissa.whole_digits (h : IsMantissa text negative whole fraction) :
    ∀ c ∈ whole, c.isDigit = true :=
  fun c hc => h.digits c (List.mem_append_left _ hc)

theorem IsMantissa.fraction_digits (h : IsMantissa text negative whole fraction) :
    ∀ c ∈ fraction, c.isDigit = true :=
  fun c hc => h.digits c (List.mem_append_right _ hc)

/-- What is no digit and no sign does not stand in front of the point. -/
theorem IsMantissa.not_mem_front (h : IsMantissa text negative whole fraction) (mark : Char)
    (hdigit : mark.isDigit = false) (hsign : mark ≠ '-') :
    mark ∉ (signText negative).toList ++ whole := by
  intro hmem
  rcases List.mem_append.mp hmem with hmem | hmem
  · rw [toList_signText] at hmem
    split at hmem
    · exact hsign (List.mem_singleton.mp hmem)
    · cases hmem
  · rw [h.whole_digits mark hmem] at hdigit
    cases hdigit

/-- What is no digit, sign or point does not stand among the digits. -/
theorem IsMantissa.not_mem (h : IsMantissa text negative whole fraction) (mark : Char)
    (hdigit : mark.isDigit = false) (hsign : mark ≠ '-') (hpoint : mark ≠ '.') :
    mark ∉ text.toList := by
  intro hmem
  rw [h.toList_eq, pointed, ← List.append_assoc, List.mem_append] at hmem
  rcases hmem with hmem | hmem
  · exact h.not_mem_front mark hdigit hsign hmem
  · split at hmem
    · cases hmem
    · rcases List.mem_cons.mp hmem with hmem | hmem
      · exact hpoint hmem
      · rw [h.fraction_digits mark hmem] at hdigit
        cases hdigit

theorem IsMantissa.negative_eq (h : IsMantissa text negative whole fraction) :
    decide (text.toList.head? = some '-') = negative := by
  rw [h.toList_eq, toList_signText]
  cases negative with
  | true => rfl
  | false =>
      refine decide_eq_false (fun hhead => ?_)
      have hmem : '-' ∈ pointed whole fraction := List.mem_of_head? hhead
      rcases List.mem_append.mp hmem with hmem | hmem
      · cases h.whole_digits '-' hmem
      · split at hmem
        · cases hmem
        · rcases List.mem_cons.mp hmem with hmem | hmem
          · cases hmem
          · cases h.fraction_digits '-' hmem

theorem IsMantissa.filter_eq (h : IsMantissa text negative whole fraction) :
    text.toList.filter Char.isDigit = whole ++ fraction := by
  have hsign : (signText negative).toList.filter Char.isDigit = [] := by
    cases negative <;> rfl
  have hpoint : (if fraction = [] then [] else '.' :: fraction).filter Char.isDigit = fraction := by
    split
    · next hempty => rw [hempty, List.filter_nil]
    · rw [List.filter_cons_of_neg (by decide), List.filter_eq_self.mpr h.fraction_digits]
  rw [h.toList_eq, pointed, List.filter_append, List.filter_append, hsign, hpoint, List.nil_append,
    List.filter_eq_self.mpr h.whole_digits]

theorem IsMantissa.behind_point (h : IsMantissa text negative whole fraction) :
    behind '.' text.toList = fraction := by
  have hfront := h.not_mem_front '.' (by decide) (by decide)
  rw [h.toList_eq, pointed, ← List.append_assoc]
  split
  · next hempty => rw [hempty, List.append_nil, behind_of_not_mem _ _ hfront]
  · exact behind_append _ _ _ hfront

/-- A whole number with a point among its digits, with a count of them behind it. -/
theorem pointText_mantissa (decimals : Nat) (negative : Bool) (n : Nat) :
    ∃ whole fraction, IsMantissa (signText negative ++ pointText (Nat.toDigits 10 n) decimals)
        negative whole fraction ∧ fraction.length = decimals ∧
      digitsValue (whole ++ fraction) = n := by
  let digits := Nat.toDigits 10 n
  let padded := List.replicate (decimals + 1 - digits.length) '0' ++ digits
  have hlength : padded.length = decimals + 1 - digits.length + digits.length := by
    rw [List.length_append, List.length_replicate]
  have hpadded : ∀ c ∈ padded, c.isDigit = true := by
    intro c hc
    rcases List.mem_append.mp hc with hc | hc
    · rw [(List.mem_replicate.mp hc).2]
      decide
    · exact Decimal.isDigit_of_mem_toDigits _ c hc
  have hfraction : (padded.drop (padded.length - decimals)).length = decimals := by
    rw [List.length_drop]
    omega
  refine ⟨padded.take (padded.length - decimals), padded.drop (padded.length - decimals), ⟨?_, ?_⟩,
    hfraction, ?_⟩
  · -- The point is left out where no digit stands behind it.
    have hempty : padded.drop (padded.length - decimals) = [] ↔ decimals = 0 := by
      rw [← List.length_eq_zero_iff, hfraction]
    rw [String.toList_append, pointText, String.toList_ofList, pointed]
    simp only [hempty]
    rfl
  · rwa [List.take_append_drop]
  · rw [List.take_append_drop, Decimal.digitsValue_zeros_append, Decimal.digitsValue_toDigits]

/-- A number with decimals is digits with a point, with that many digits behind it. -/
theorem toFixed_mantissa (decimals : Nat) (negative : Bool) (num den : Nat) :
    ∃ whole fraction, IsMantissa (toFixed decimals (.finite negative num den)) negative whole
        fraction ∧ fraction.length = decimals ∧
      digitsValue (whole ++ fraction) = Decimal.roundAt num den (-(decimals : Int)) :=
  pointText_mantissa decimals negative _

/-- Zeros behind a point are taken away up to the point. -/
theorem rdropWhile_zeros (front fraction : List Char) :
    (front ++ '.' :: fraction).rdropWhile (· = '0') =
      front ++ '.' :: fraction.rdropWhile (· = '0') := by
  induction fraction using List.reverseRecOn with
  | nil => rw [List.rdropWhile_concat_neg _ _ _ (by decide), List.rdropWhile_nil]
  | append_singleton fraction c ih =>
      rw [← List.cons_append, ← List.append_assoc, List.rdropWhile_concat, List.rdropWhile_concat,
        ih]
      split
      · rfl
      · rw [List.append_assoc, List.cons_append]

/-- The point is taken away if nothing is left behind it. -/
theorem rdropWhile_point (front fraction : List Char) (hfront : '.' ∉ front)
    (hfraction : '.' ∉ fraction) :
    (front ++ '.' :: fraction).rdropWhile (· = '.') = pointed front fraction := by
  have hkeeps : ∀ cs : List Char, '.' ∉ cs → cs.rdropWhile (· = '.') = cs := by
    intro cs hcs
    refine List.rdropWhile_eq_self_iff.mpr (fun hne hlast => hcs ?_)
    rw [← of_decide_eq_true hlast]
    exact List.getLast_mem hne
  rw [pointed]
  split
  · next hempty =>
    rw [hempty, List.rdropWhile_concat_pos _ _ _ (by decide), hkeeps front hfront, List.append_nil]
  · next hne =>
    refine List.rdropWhile_eq_self_iff.mpr (fun _ hlast => hfraction ?_)
    rw [List.getLast_append_of_ne_nil _ (List.cons_ne_nil _ _), List.getLast_cons hne] at hlast
    rw [← of_decide_eq_true hlast]
    exact List.getLast_mem hne

/-- Trimming takes the zeros at the end of the fraction away. -/
theorem trimFraction_mantissa (h : IsMantissa text negative whole fraction) :
    IsMantissa (trimFraction text) negative whole (fraction.rdropWhile (· = '0')) := by
  have hfront := h.not_mem_front '.' (by decide) (by decide)
  have hsubset := (List.rdropWhile_prefix (fun c => decide (c = '0')) fraction).subset
  refine ⟨?_, fun c hc => ?_⟩
  · have htext := h.toList_eq
    rw [pointed, ← List.append_assoc] at htext
    unfold trimFraction
    split
    · next hpoint =>
      have hpoint := List.contains_iff_mem.mp hpoint
      have hne : fraction ≠ [] := by
        intro hempty
        rw [htext, if_pos hempty, List.append_nil] at hpoint
        exact hfront hpoint
      have htrimmed : ((text.toList.reverse.dropWhile (· = '0')).dropWhile (· = '.')).reverse =
          (text.toList.rdropWhile (· = '0')).rdropWhile (· = '.') := by
        rw [List.rdropWhile, List.rdropWhile, List.reverse_reverse]
      rw [if_neg hne] at htext
      rw [String.toList_ofList, htrimmed, htext, rdropWhile_zeros, rdropWhile_point _ _ hfront
        (fun hmem => by cases h.fraction_digits '.' (hsubset hmem)), pointed, pointed,
        List.append_assoc]
    · next hpoint =>
      have hempty : fraction = [] := by
        by_contra hne
        refine hpoint (List.contains_iff_mem.mpr ?_)
        rw [htext, if_neg hne]
        exact List.mem_append_right _ List.mem_cons_self
      rw [htext, hempty, List.rdropWhile_nil, pointed, if_pos rfl, ← List.append_assoc]
  · rcases List.mem_append.mp hc with hc | hc
    · exact h.whole_digits c hc
    · exact h.fraction_digits c (hsubset hc)

end Mantissas

section Texts

variable {text : String} {negative : Bool} {whole fraction : List Char}

/-- What is read in digits, a number in parentheses, and what follows. -/
theorem read_append (h : IsMantissa text negative whole fraction) (uncertain : Int)
    (rest : String) :
    read (text ++ ("(" ++ toString uncertain ++ ")") ++ rest) =
      ⟨negative, digitsValue (whole ++ fraction), fraction.length, uncertain,
        signedValue (behind 'e' rest.toList)⟩ := by
  have hopening := h.not_mem '(' (by decide) (by decide) (by decide)
  have hclosing := h.not_mem ')' (by decide) (by decide) (by decide)
  have hnumber : ')' ∉ (toString uncertain).toList :=
    Decimal.not_mem_toString uncertain ')' (by decide) (by decide)
  have hchars : (text ++ ("(" ++ toString uncertain ++ ")") ++ rest).toList =
      text.toList ++ '(' :: ((toString uncertain).toList ++ ')' :: rest.toList) := by
    simp [String.toList_append]
  have hbehind : behind ')' (text ++ ("(" ++ toString uncertain ++ ")") ++ rest).toList =
      rest.toList := by
    rw [hchars, ← List.cons_append, ← List.append_assoc]
    refine behind_append ')' _ _ (fun hmem => ?_)
    rcases List.mem_append.mp hmem with hmem | hmem
    · exact hclosing hmem
    · rcases List.mem_cons.mp hmem with hmem | hmem
      · cases hmem
      · exact hnumber hmem
  have hmantissa : before '(' (text ++ ("(" ++ toString uncertain ++ ")") ++ rest).toList =
      text.toList := by
    rw [hchars, before_append '(' _ _ hopening]
  have huncertain : before ')' (behind '(' (text ++ ("(" ++ toString uncertain ++ ")") ++
      rest).toList) = (toString uncertain).toList := by
    rw [hchars, behind_append '(' _ _ hopening, before_append ')' _ _ hnumber]
  simp only [read, hmantissa, huncertain, hbehind, h.negative_eq, h.filter_eq, h.behind_point,
    Decimal.signedValue_toString]

/-- What is read in digits with a number in parentheses. -/
theorem read_plain (h : IsMantissa text negative whole fraction) (uncertain : Int) :
    read (text ++ ("(" ++ toString uncertain ++ ")")) =
      ⟨negative, digitsValue (whole ++ fraction), fraction.length, uncertain, 0⟩ := by
  have hread := read_append h uncertain ""
  rwa [String.append_empty] at hread

/-- What is read if there is a power of ten as well. -/
theorem read_scaled (h : IsMantissa text negative whole fraction) (uncertain exponent : Int) :
    read (text ++ ("(" ++ toString uncertain ++ ")") ++ "e" ++ toString exponent) =
      ⟨negative, digitsValue (whole ++ fraction), fraction.length, uncertain, exponent⟩ := by
  have hexponent : behind 'e' ("e" ++ toString exponent).toList = (toString exponent).toList := by
    rw [String.toList_append]
    exact behind_append 'e' [] _ List.not_mem_nil
  rw [String.append_assoc, read_append h, hexponent, Decimal.signedValue_toString]

end Texts

end Metrology.Notation
