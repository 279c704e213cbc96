import Metrology.Proofs.Decimal.Written
import Metrology.Proofs.Expr.Canonical
import Metrology.Proofs.Expr.Phrase
import Metrology.Proofs.Text.Bytes

/-!
# How a text is cut

The scan goes from the left and takes as much for a number or a name as it can. A
numeral or a name that is followed by neither of its own kind is therefore cut off as it
stands, and what stands behind it is cut as if it stood alone. Where a text begins makes
no difference to its tokens.

Flattening looks for an underscore in front of a parenthesis that opens. A piece of text
without such a parenthesis is left as it is, unless it ends in an underscore and the
parenthesis comes next.

## Main definitions

* `Lexeme.CutInto`: The tokens of a text.

## Theorems

* `Lexeme.CutInto.blank`, `Lexeme.CutInto.sign`, `Lexeme.CutInto.word`,
  `Lexeme.CutInto.numeral`: What is cut off at the start of a text.
* `Subscript.flattenChars_run`: What flattening leaves.
-/

namespace Metrology

/-- Two tables without a common range have no common character. -/
theorem Text.inRanges_eq_false (ranges others : List CharRange) (c : Char)
    (h : (ranges.all fun range => others.all fun other =>
      range.2 < other.1 || other.2 < range.1) = true)
    (hc : inRanges ranges c = true) : inRanges others c = false := by
  rw [inRanges, List.any_eq_true] at hc
  rcases hc with ⟨range, hrange, hinside⟩
  rw [inRanges, List.any_eq_false]
  intro other hother
  have hapart := List.all_eq_true.mp (List.all_eq_true.mp h range hrange) other hother
  simp only [Bool.and_eq_true, Bool.or_eq_true, decide_eq_true_eq] at hinside hapart ⊢
  omega

namespace Token

/-- The characters of names make no token on their own. -/
theorem ofSign?_eq_none (c : Char) (h : continuesWord c = true) : ofSign? c = none := by
  have hsigns : ∀ sign ∈ besideWords, c ≠ sign := by
    rintro sign hsign rfl
    rw [not_continuesWord c hsign] at h
    cases h
  simp only [besideWords, List.mem_cons, List.not_mem_nil, or_false, forall_eq_or_imp,
    forall_eq] at hsigns
  simp [ofSign?, hsigns]

theorem continuesWord_of_isDigit (c : Char) (h : c.isDigit = true) : continuesWord c = true := by
  rw [continuesWord, Text.isAlphanumeric, Text.isNumeric_of_isDigit c h, Bool.or_true, Bool.true_or]

section Word

variable (c : Char) (h : startsWord c = true)

include h

/-- No letter is a blank. -/
theorem not_isBlank_of_startsWord : Text.isBlank c = false := by
  rw [startsWord, Bool.or_eq_true, decide_eq_true_eq] at h
  rcases h with hletter | rfl
  · exact Text.inRanges_eq_false Text.letterRanges Text.blankRanges c (by decide +kernel) hletter
  · decide

/-- No number begins with a letter. -/
theorem not_startsNumber_of_startsWord : startsNumber c = false := by
  rw [startsNumber, Bool.or_eq_false_iff, decide_eq_false_iff_not]
  constructor
  · rw [← Bool.not_eq_true]
    intro hdigit
    exact Bool.false_ne_true ((startsWord_of_isDigit c hdigit).symm.trans h)
  · rintro rfl
    rw [not_startsWord '.' (by decide)] at h
    cases h

end Word

/-- No digit is a blank. -/
theorem not_isBlank_of_isDigit (c : Char) (h : c.isDigit = true) : Text.isBlank c = false := by
  rw [Char.isDigit, Bool.and_eq_true, decide_eq_true_eq, decide_eq_true_eq] at h
  refine Text.inRanges_eq_false [(48, 57)] Text.blankRanges c (by decide) ?_
  exact Text.inRanges_of_mem List.mem_cons_self h.1 h.2

/-- Without its letter there is no power of ten. -/
theorem exponentLength_eq_zero (rest : List Char)
    (h : ∀ c, rest.head? = some c → c ≠ 'e' ∧ c ≠ 'E') : exponentLength rest = 0 := by
  rcases rest with _ | ⟨c, others⟩
  · rfl
  · rcases h c rfl with ⟨hlower, hupper⟩
    rw [exponentLength, if_neg (not_or.mpr ⟨hlower, hupper⟩)]

/-- A power of ten is taken to its last digit. -/
theorem exponentLength_toString (n : ℤ) (rest : List Char)
    (hrest : ∀ c, rest.head? = some c → c.isDigit = false) :
    exponentLength ('e' :: (toString n).toList ++ rest) = 1 + (toString n).toList.length := by
  have hdigits : ∀ k : ℕ, (Nat.toDigits 10 k ++ rest).takeWhile Char.isDigit = Nat.toDigits 10 k :=
    fun k => Text.takeWhile_run _ _ _ (Decimal.isDigit_of_mem_toDigits k) hrest
  have hsome : ∀ k : ℕ, (Nat.toDigits 10 k).length ≠ 0 := fun k =>
    (List.length_pos_iff.mpr Nat.toDigits_ne_nil).ne'
  rcases Decimal.toList_toString_cases n with ⟨k, ⟨-, htext⟩ | ⟨-, htext⟩⟩
  · -- No digit is a sign.
    have hsign : ¬ ((Nat.toDigits 10 k ++ rest).head? = some '+' ∨
        (Nat.toDigits 10 k ++ rest).head? = some '-') := by
      rcases List.exists_cons_of_ne_nil (Nat.toDigits_ne_nil : Nat.toDigits 10 k ≠ []) with
        ⟨c, others, hcons⟩
      have hdigit := Decimal.isDigit_of_mem_toDigits k c (hcons ▸ List.mem_cons_self)
      rw [hcons, List.cons_append, List.head?_cons]
      rintro (hc | hc)
      · rw [Option.some.inj hc] at hdigit
        cases hdigit
      · rw [Option.some.inj hc] at hdigit
        cases hdigit
    rw [htext, List.cons_append, exponentLength, if_pos (Or.inl rfl)]
    simp only [if_neg hsign, List.drop_zero, hdigits, if_neg (hsome k), Nat.add_zero]
  · rw [htext, List.cons_append, List.cons_append, exponentLength, if_pos (Or.inl rfl)]
    simp only [List.head?_cons, or_true, if_true, List.drop_succ_cons, List.drop_zero, hdigits,
      if_neg (hsome k), List.length_cons]
    omega

section Numeral

variable (shape : Numeral.Shape) (rest : List Char)
  (hrest : ∀ c, rest.head? = some c → c.isDigit = false ∧ c ≠ '.' ∧ c ≠ 'e' ∧ c ≠ 'E')

include hrest

theorem exponentLength_mark : exponentLength (shape.mark ++ rest) = shape.mark.length := by
  rw [Numeral.Shape.mark]
  split
  · rw [exponentLength_toString _ _ fun c hc => (hrest c hc).1, List.length_cons, Nat.add_comm]
  · exact exponentLength_eq_zero _ fun c hc => (hrest c hc).2.2

/-- The mark of the power of ten, or what follows it, ends the digits in front. -/
theorem head_mark_append (c : Char) (hc : (shape.mark ++ rest).head? = some c) :
    c.isDigit = false ∧ c ≠ '.' := by
  rw [Numeral.Shape.mark] at hc
  split at hc
  · rw [← Option.some.inj hc]
    decide
  · exact ⟨(hrest c hc).1, (hrest c hc).2.1⟩

/-- A numeral is taken to its end where neither a digit, a point nor a power of ten
    follows it. -/
theorem literalLength_chars : literalLength (shape.chars ++ rest) = shape.chars.length := by
  have hmark := exponentLength_mark shape rest hrest
  have hhead := head_mark_append shape rest hrest
  by_cases hfraction : shape.fraction = []
  · have hchars : shape.chars = shape.whole ++ shape.mark := by
      rw [Numeral.Shape.chars, if_pos hfraction, List.append_nil]
    have htake := Text.takeWhile_run _ _ _ shape.isDigit_whole fun c hc => (hhead c hc).1
    have hpoint : (shape.mark ++ rest).head? ≠ some '.' := fun h => (hhead '.' h).2 rfl
    rw [hchars, List.append_assoc, literalLength]
    simp only [htake, List.drop_left, if_neg hpoint, List.drop_zero, hmark, List.length_append]
    rfl
  · have hchars : shape.chars = shape.whole ++ '.' :: (shape.fraction ++ shape.mark) := by
      rw [Numeral.Shape.chars, if_neg hfraction, List.append_assoc, List.cons_append]
    have hpoint : ∀ c, ('.' :: (shape.fraction ++ (shape.mark ++ rest))).head? = some c →
        c.isDigit = false := by
      intro c hc
      rw [← Option.some.inj hc]
      decide
    have htake := Text.takeWhile_run _ _ _ shape.isDigit_whole hpoint
    have htakeFraction :=
      Text.takeWhile_run _ _ _ shape.isDigit_fraction fun c hc => (hhead c hc).1
    rw [hchars, List.append_assoc, List.cons_append, List.append_assoc, literalLength]
    simp only [htake, List.drop_left, List.head?_cons, if_true, List.drop_succ_cons,
      List.drop_zero, htakeFraction, Nat.add_comm 1, hmark, List.length_append, List.length_cons]
    omega

end Numeral

end Token

namespace Lexeme

open Grammar (tokens)

/-- The tokens of a text, wherever it stands. -/
def CutInto (cs : List Char) (ts : List Token) : Prop :=
  ∀ offset, ∃ lexemes, scan offset 0 cs = .ok lexemes ∧ tokens lexemes = ts

/-- Characters of a lexeme that has been cut already are stepped over. -/
theorem scan_skip (cs rest : List Char) (offset : ℕ) :
    scan offset cs.length (cs ++ rest) = scan (offset + byteLength cs) 0 rest := by
  induction cs generalizing offset with
  | nil => rfl
  | cons c others ih =>
      rw [List.length_cons, List.cons_append, scan, ih, byteLength_cons, Nat.add_assoc]

namespace CutInto

theorem nil : CutInto [] [] := fun _ => ⟨[], rfl, rfl⟩

variable (rest : List Char) (us : List Token) (hrest : CutInto rest us)

include hrest

/-- A blank is dropped. -/
theorem blank : CutInto (' ' :: rest) us := by
  intro offset
  rcases hrest (offset + ' '.utf8Size) with ⟨lexemes, hscan, htokens⟩
  refine ⟨lexemes, ?_, htokens⟩
  rw [scan, if_pos (by decide)]
  exact hscan

/-- A sign or a parenthesis is cut off. -/
theorem sign (c : Char) (token : Token) (hblank : Text.isBlank c = false)
    (hsign : Token.ofSign? c = some token) : CutInto (c :: rest) (token :: us) := by
  intro offset
  rcases hrest (offset + c.utf8Size) with ⟨lexemes, hscan, htokens⟩
  refine ⟨⟨token, offset, [c]⟩ :: lexemes, ?_, by rw [← htokens]; rfl⟩
  rw [scan, hblank, if_neg Bool.false_ne_true, hsign]
  simp only
  rw [hscan]
  rfl

/-- What stands behind the first character of a lexeme is stepped over. -/
theorem behind (others : List Char) (token : Token) (offset offset' : Nat) (source : List Char) :
    ∃ lexemes, (do
      let lexemes ← scan offset others.length (others ++ rest)
      return (⟨token, offset', source⟩ : Lexeme) :: lexemes) = .ok lexemes ∧
        tokens lexemes = token :: us := by
  rcases hrest (offset + byteLength others) with ⟨lexemes, hscan, htokens⟩
  refine ⟨⟨token, offset', source⟩ :: lexemes, ?_, by rw [← htokens]; rfl⟩
  rw [scan_skip, hscan]
  rfl

/-- A name is cut off where none of its characters follows. -/
theorem word (name : String) (hname : Token.IsWord name)
    (hends : ∀ c, rest.head? = some c → Token.continuesWord c = false) :
    CutInto (name.toList ++ rest) (.word name :: us) := by
  rcases hname with ⟨c, others, hchars, hstarts, hothers⟩
  intro offset
  have hsource : c :: (others ++ rest).takeWhile Token.continuesWord = name.toList := by
    rw [Text.takeWhile_run _ _ _ hothers hends, hchars]
  have hlength : name.toList.length - 1 = others.length := by
    rw [hchars, List.length_cons, Nat.add_sub_cancel]
  rw [hchars, List.cons_append, scan, Token.not_isBlank_of_startsWord c hstarts,
    if_neg Bool.false_ne_true,
    Token.ofSign?_eq_none c (Token.continuesWord_of_startsWord c hstarts)]
  simp only
  rw [Token.not_startsNumber_of_startsWord c hstarts, if_neg Bool.false_ne_true, if_pos hstarts,
    hsource, hlength, String.ofList_toList]
  exact behind rest us hrest others _ _ _ _

/-- A numeral is cut off where none of its characters follows. -/
theorem numeral (shape : Numeral.Shape)
    (hends : ∀ c, rest.head? = some c → c.isDigit = false ∧ c ≠ '.' ∧ c ≠ 'e' ∧ c ≠ 'E') :
    CutInto (shape.chars ++ rest) (.number shape.denotes :: us) := by
  rcases shape.head_chars with ⟨c, others, hchars, hdigit⟩
  intro offset
  have hsource : (c :: (others ++ rest)).take (Token.literalLength (c :: (others ++ rest))) =
      shape.chars := by
    rw [← List.cons_append, ← hchars, Token.literalLength_chars shape rest hends, List.take_left]
  have hlength : shape.chars.length - 1 = others.length := by
    rw [hchars, List.length_cons, Nat.add_sub_cancel]
  rw [hchars, List.cons_append, scan, Token.not_isBlank_of_isDigit c hdigit,
    if_neg Bool.false_ne_true, Token.ofSign?_eq_none c (Token.continuesWord_of_isDigit c hdigit)]
  simp only
  rw [Token.startsNumber, hdigit, Bool.true_or, if_pos rfl, hsource, shape.unsigned?_chars,
    hlength]
  exact behind rest us hrest others _ _ _ _

end CutInto

end Lexeme

namespace Subscript

theorem flattenChars_cons (c : Char) (rest : List Char)
    (h : c = '_' → rest.head? ≠ some '(') :
    flattenChars false (c :: rest) = c :: flattenChars false rest := by
  rw [flattenChars]
  · rw [if_neg fun hclosing => Bool.false_ne_true hclosing.1]
  · rintro opened rfl rfl
    exact h rfl rfl

/-- A piece of text without an opening parenthesis is left as it is, unless its last
    character marks what opens behind it as a subscript. -/
theorem flattenChars_run (cs rest : List Char) (hopening : '(' ∉ cs)
    (hseam : cs.getLast? = some '_' → rest.head? ≠ some '(') :
    flattenChars false (cs ++ rest) = cs ++ flattenChars false rest := by
  induction cs with
  | nil => rfl
  | cons c others ih =>
      rw [List.mem_cons, not_or] at hopening
      rw [List.cons_append, flattenChars_cons, ih hopening.2, List.cons_append]
      · intro hlast
        refine hseam ?_
        rw [List.getLast?_cons, hlast]
        rfl
      · -- What comes next is another character of the piece, or what stands behind it.
        rintro rfl
        rcases others with _ | ⟨d, others⟩
        · exact hseam rfl
        · intro hhead
          rw [List.mem_cons, not_or] at hopening
          exact hopening.2.1 (Option.some.inj hhead).symm

end Subscript

end Metrology
