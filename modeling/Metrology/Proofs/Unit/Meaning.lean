import Metrology.Proofs.Expr.Cut
import Metrology.Proofs.Unit.Occurrences
import Metrology.Proofs.Unit.Scale
import Metrology.Proofs.Unit.Scan

/-!
# What the text of a unit says

The scan merges the factors that a text is read as, one after the other, and it accepts a text
if all that stands around them is gaps, without a slash behind the last one. A slash waits for
the next factor, which is why two of them in one gap are refused, and a digit one is passed
over only after a look at what comes next.

A power is turned as a word of 32 bits, and the least word has no opposite, so that the run stops.
But with the opposite nothing could be merged, and no unit is lost: what the text says is the
product of its factors with their powers as integers.

## Theorems

* `UnitReader.scan_gap_eq_ok_iff`, `UnitReader.scan_symbol_eq_ok_iff`: What the scan does with a
  gap and with a symbol.
* `UnitReader.scan_of_reads`, `UnitReader.reads_of_scan`: The scan merges the factors of a text.
* `CompoundUnit.read_eq_ok_iff`: Which texts are accepted as which unit.
* `CompoundUnit.read_meaning`: The unit that a text is read as.
-/

namespace Metrology

namespace UnitReader

open CompoundUnit (Tidy Known inWord)
open Decimal (digitsValue)
open Numeral (IsSign SignCut)
open Text (isBlank)

section Characters

/-- A symbol begins with what it goes on with. -/
theorem startsSymbol_eq (c : Char) : startsSymbol c = continuesSymbol c := by
  rw [startsSymbol, continuesSymbol]
  by_cases hohm : c = 'Ω'
  · subst hohm
    decide +kernel
  · rw [decide_eq_false hohm, Bool.or_false]

/-- No character of a symbol is one that the reader treats otherwise. -/
theorem of_continuesSymbol (c : Char) (h : continuesSymbol c = true) :
    startsSymbol c = true ∧ isBlank c = false ∧ c ≠ '*' ∧ c ≠ '·' ∧ c ≠ '/' ∧ c ≠ '1' := by
  have hother : ∀ d : Char, continuesSymbol d = false → c ≠ d := by
    rintro d hd rfl
    exact Bool.false_ne_true (hd.symm.trans h)
  refine ⟨startsSymbol_eq c ▸ h, ?_, hother '*' (by decide +kernel), hother '·' (by decide +kernel),
    hother '/' (by decide +kernel), hother '1' (by decide +kernel)⟩
  rw [continuesSymbol, Bool.or_eq_true, decide_eq_true_eq] at h
  rcases h with hletter | rfl
  · exact Token.not_isBlank_of_startsWord c (by rw [Token.startsWord, hletter, Bool.true_or])
  · decide

end Characters

section Gaps

/-- What the reader looks for behind a digit one. -/
theorem find?_eq_slash_iff (gap behind : List Char)
    (hbehind : ∀ c, behind.head? = some c → continuesSymbol c = true) :
    (gap ++ behind).find? (fun c => !isBlank c) = some '/' ↔
      ∃ blanks rest, (∀ b ∈ blanks, isBlank b = true) ∧ gap = blanks ++ '/' :: rest := by
  constructor
  · intro h
    rw [List.find?_append, Option.or_eq_some_iff] at h
    rcases h with h | ⟨-, h⟩
    · rcases List.find?_eq_some_iff_append.mp h with ⟨-, blanks, rest, hgap, hblanks⟩
      exact ⟨blanks, rest, fun b hb => by simpa using hblanks b hb, hgap⟩
    · -- A character of a symbol is neither a blank nor a slash.
      exfalso
      rcases behind with _ | ⟨c, others⟩
      · cases h
      · rcases of_continuesSymbol c (hbehind c rfl) with ⟨-, hblank, -, -, hslash, -⟩
        rw [List.find?_cons_of_pos (by simp [hblank])] at h
        exact hslash (Option.some.inj h)
  · rintro ⟨blanks, rest, hblanks, rfl⟩
    have hnone : blanks.find? (fun c => !isBlank c) = none :=
      List.find?_eq_none.mpr fun b hb => by simp [hblanks b hb]
    rw [List.append_assoc, List.find?_append, hnone, Option.none_or, List.cons_append,
      List.find?_cons_of_pos (by decide)]

variable {α : Type} [Scalar α] (source : String)

/-- The reader accepts what stands in front of a symbol, or of the end, if it is a gap. Behind it
    a slash waits if there is one in the gap. -/
theorem scan_gap_eq_ok_iff (gap behind : List Char) (hgap : ∀ c ∈ gap, continuesSymbol c = false)
    (hbehind : ∀ c, behind.head? = some c → continuesSymbol c = true) (divide : Bool)
    (unit result : CompoundUnit α) :
    scan source 0 divide unit (gap ++ behind) = .ok result ↔
      IsGap gap ∧ (divide = true → '/' ∉ gap) ∧
        scan source 0 (divide || decide ('/' ∈ gap)) unit behind = .ok result := by
  induction gap generalizing divide with
  | nil =>
      rw [List.nil_append]
      simp [isGap_nil]
  | cons c rest ih =>
      have hrest := ih fun d hd => hgap d (List.mem_cons_of_mem _ hd)
      have hstarts : startsSymbol c = false := by
        rw [startsSymbol_eq]
        exact hgap c List.mem_cons_self
      -- What is passed over without being a slash changes nothing for those behind it.
      have hpassed : Separates c rest → c ≠ '/' →
          (scan source 0 divide unit (rest ++ behind) = .ok result ↔
            (Separates c rest ∧ (c = '/' → '/' ∉ rest) ∧ IsGap rest) ∧
              (divide = true → '/' ∉ c :: rest) ∧
                scan source 0 (divide || decide ('/' ∈ c :: rest)) unit behind = .ok result) := by
        intro hseparates hslash
        have hmem : '/' ∈ c :: rest ↔ '/' ∈ rest := by
          rw [List.mem_cons, or_iff_right (Ne.symm hslash)]
        rw [hrest, and_iff_right hseparates, and_iff_right fun h => absurd h hslash]
        simp only [hmem]
      have hcode : isBlank '/' = false := by decide
      rw [List.cons_append, scan, isGap_cons_iff]
      by_cases hsign : (isBlank c || c = '*' || c = '·') = true
      · rw [if_pos hsign]
        simp only [Bool.or_eq_true, decide_eq_true_eq] at hsign
        refine hpassed ?_ ?_
        · rcases hsign with (h | h) | h
          · exact Or.inl h
          · exact Or.inr (Or.inl h)
          · exact Or.inr (Or.inr (Or.inl h))
        · rintro rfl
          rcases hsign with (h | h) | h
          · exact Bool.false_ne_true (hcode.symm.trans h)
          · cases h
          · cases h
      rw [if_neg hsign]
      simp only [Bool.or_eq_true, decide_eq_true_eq, not_or] at hsign
      rcases hsign with ⟨⟨hblank, hstar⟩, hdot⟩
      by_cases hslash : c = '/'
      · subst hslash
        have hseparates : Separates '/' rest := Or.inr (Or.inr (Or.inr (Or.inl rfl)))
        rw [if_pos rfl]
        cases divide with
        | true => simp
        | false => simp [hrest, hseparates, and_assoc, and_left_comm]
      rw [if_neg hslash]
      by_cases hone : c = '1' ∧ (rest ++ behind).find? (fun c => !isBlank c) = some '/'
      · rw [if_pos hone]
        refine hpassed (Or.inr (Or.inr (Or.inr (Or.inr ⟨hone.1, ?_⟩)))) hslash
        exact (find?_eq_slash_iff rest behind hbehind).mp hone.2
      · rw [if_neg hone, hstarts, if_neg Bool.false_ne_true]
        rw [find?_eq_slash_iff rest behind hbehind] at hone
        constructor
        · intro h
          cases h
        · rintro ⟨⟨h | h | h | h | h, -, -⟩, -⟩
          · exact absurd h hblank
          · exact absurd h hstar
          · exact absurd h hdot
          · exact absurd h hslash
          · exact absurd h hone

end Gaps

section Symbols

section Signs

variable (sign behind : List Char) (hcut : SignCut sign behind)

include hcut

theorem head?_eq_minus_iff : (sign ++ behind).head? = some '-' ↔ sign = ['-'] := by
  rcases hcut with ⟨rfl | rfl | rfl, hnone⟩
  · simp [(hnone rfl).2]
  · simp
  · simp

theorem head?_eq_plus_iff : (sign ++ behind).head? = some '+' ↔ sign = ['+'] := by
  rcases hcut with ⟨rfl | rfl | rfl, hnone⟩
  · simp [(hnone rfl).1]
  · simp
  · simp

/-- The number of a power is that of its digits, negative behind a minus sign. -/
theorem exponentValue_cut : exponentValue ('^' :: (sign ++ behind)) =
    if sign = ['-'] then -(digitsValue behind : ℤ) else digitsValue behind := by
  rcases hcut with ⟨rfl | rfl | rfl, hnone⟩
  · rcases hnone rfl with ⟨hplus, hminus⟩
    rw [List.nil_append, exponentValue]
    · rfl
    · rintro digits rfl
      exact hminus rfl
    · rintro digits rfl
      exact hplus rfl
  · rfl
  · rfl

/-- Behind a caret a sign is read, if there is one, and the digits behind it. -/
theorem writtenPower?_cut : writtenPower? ('^' :: (sign ++ behind)) =
    if behind.takeWhile Char.isDigit = [] then none
    else if inWord (exponentValue ('^' :: (sign ++ behind.takeWhile Char.isDigit))) = true then
      some (exponentValue ('^' :: (sign ++ behind.takeWhile Char.isDigit)),
        1 + sign.length + (behind.takeWhile Char.isDigit).length)
    else none := by
  have hlength : (if sign = ['-'] ∨ sign = ['+'] then 1 else 0) = sign.length := by
    rcases hcut.isSign with rfl | rfl | rfl <;> rfl
  rw [writtenPower?]
  simp only [head?_eq_minus_iff sign behind hcut, head?_eq_plus_iff sign behind hcut, hlength,
    List.drop_left]
  by_cases hdigits : behind.takeWhile Char.isDigit = []
  · simp [hdigits]
  · have hvalue := exponentValue_cut sign (behind.takeWhile Char.isDigit) (by
      simpa using Numeral.signCut_digits sign _ [] hcut.isSign hdigits
        (Numeral.isDigit_of_mem_takeWhile behind))
    rw [hvalue, if_neg hdigits]
    generalize (if sign = ['-'] then -(digitsValue (behind.takeWhile Char.isDigit) : ℤ)
      else digitsValue (behind.takeWhile Char.isDigit)) = value
    cases inWord value <;> simp [hdigits]

end Signs

/-- A power is read if it is a number of 32 bits. -/
theorem writtenPower?_of_isExponent (exponent behind : List Char) (h : IsExponent exponent behind) :
    writtenPower? (exponent ++ behind) =
      if inWord (exponentValue exponent) = true then
        some (exponentValue exponent, exponent.length)
      else none := by
  rcases h with ⟨rfl, hcaret⟩ | ⟨sign, digits, hsign, hdigits, hall, rfl, hends⟩
  · have hother : ∀ rest, [] ++ behind ≠ '^' :: rest := by
      rintro rest rfl
      exact hcaret rfl
    rw [writtenPower?_other _ hother]
    rfl
  · have hcut := Numeral.signCut_digits sign digits behind hsign hdigits hall
    rw [List.cons_append, List.append_assoc, writtenPower?_cut sign _ hcut,
      Text.takeWhile_run _ _ _ hall hends, if_neg hdigits, List.length_cons, List.length_append]
    congr 3
    omega

/-- What is read as a power is a caret with digits behind it, or nothing. -/
theorem exists_isExponent (cs : List Char) (power : ℤ × ℕ) (h : writtenPower? cs = some power) :
    ∃ exponent behind, cs = exponent ++ behind ∧ IsExponent exponent behind := by
  by_cases hcaret : cs.head? = some '^'
  · rcases List.head?_eq_some_iff.mp hcaret with ⟨rest, rfl⟩
    rcases Numeral.exists_signCut rest with ⟨sign, behind, hcut, rfl⟩
    rw [writtenPower?_cut sign behind hcut] at h
    split at h
    · cases h
    next hdigits =>
      refine ⟨'^' :: (sign ++ behind.takeWhile Char.isDigit), behind.dropWhile Char.isDigit, ?_,
        Or.inr ⟨sign, _, hcut.isSign, hdigits, Numeral.isDigit_of_mem_takeWhile behind, rfl,
          Text.head_dropWhile _ behind⟩⟩
      rw [List.cons_append, List.append_assoc, List.takeWhile_append_dropWhile]
  · exact ⟨[], cs, rfl, Or.inl ⟨rfl, hcaret⟩⟩

variable {α : Type} [Scalar α] (source : String)

/-- Where the scan goes on behind characters that it steps over. -/
theorem scan_drop (skip : ℕ) (divide : Bool) (unit : CompoundUnit α) (cs : List Char) :
    scan source skip divide unit cs = scan source 0 divide unit (cs.drop skip) := by
  induction cs generalizing skip with
  | nil => cases skip <;> rfl
  | cons c rest ih =>
      cases skip with
      | zero => rfl
      | succ skip => exact ih skip

/-- A symbol is merged with its power, if it is known and the power can be read. -/
theorem scan_symbol_eq_ok_iff (symbol behind : List Char) (hsome : symbol ≠ [])
    (hsymbol : ∀ c ∈ symbol, continuesSymbol c = true)
    (hends : ∀ c, behind.head? = some c → continuesSymbol c = false) (divide : Bool)
    (unit result : CompoundUnit α) :
    scan source 0 divide unit (symbol ++ behind) = .ok result ↔
      ∃ meaning written length next, Catalog.lookup (String.ofList symbol) = some meaning ∧
        writtenPower? behind = some (written, length) ∧
        (effectivePower divide written >>= fun power =>
          unit.push ⟨String.ofList symbol, meaning.1, meaning.2, power⟩) = .ok next ∧
        scan source 0 false next (behind.drop length) = .ok result := by
  rcases List.exists_cons_of_ne_nil hsome with ⟨c, tail, rfl⟩
  have htail : (tail ++ behind).takeWhile continuesSymbol = tail :=
    Text.takeWhile_run _ _ _ (fun d hd => hsymbol d (List.mem_cons_of_mem _ hd)) hends
  rcases of_continuesSymbol c (hsymbol c List.mem_cons_self) with
    ⟨hstarts, hblank, hstar, hdot, hslash, hone⟩
  rw [List.cons_append, scan]
  simp only [hblank, hstar, hdot, hslash, hone, hstarts, htail, List.drop_left, decide_false,
    Bool.or_self, Bool.false_eq_true, false_and, if_false, if_true]
  rcases hlookup : Catalog.lookup (α := α) (String.ofList (c :: tail)) with _ | meaning
  · simp
  rcases hwritten : writtenPower? behind with _ | ⟨written, length⟩
  · simp
  simp only [Outcome.bind_eq_ok, scan_drop source (tail.length + length),
    List.drop_length_add_append, Option.some.injEq, Prod.mk.injEq]
  constructor
  · rintro ⟨power, hpower, next, hpush, hrest⟩
    exact ⟨meaning, written, length, next, rfl, ⟨rfl, rfl⟩, ⟨power, hpower, hpush⟩, hrest⟩
  · rintro ⟨_, _, _, next, rfl, ⟨rfl, rfl⟩, ⟨power, hpower, hpush⟩, hrest⟩
    exact ⟨power, hpower, next, hpush, hrest⟩

/-- Turning a power changes its sign, except for the least word, whose opposite cannot be
    merged either. -/
theorem push_effectivePower_iff (unit next : CompoundUnit α) (htidy : Tidy unit.factors)
    (symbol : String) (dimension : Dimension) (scale : α) (divide : Bool) (written : ℤ) :
    (effectivePower divide written >>= fun power =>
        unit.push ⟨symbol, dimension, scale, power⟩) = .ok next ↔
      unit.push ⟨symbol, dimension, scale, if divide then -written else written⟩ = .ok next := by
  cases divide with
  | false => rfl
  | true =>
      unfold effectivePower turned
      by_cases hword : inWord (-written) = true
      · rw [if_pos hword]
        rfl
      · rw [if_neg hword, if_pos rfl, if_pos rfl]
        constructor
        · intro h
          cases h
        · intro h
          have hsmall := CompoundUnit.push_small unit next _ htidy h
          rw [CompoundUnit.inWord_iff] at hword
          simp only at hsmall
          omega

end Symbols

section Texts

variable {α : Type} [Scalar α] (source : String)

/-- What the factors of a text are and what may stand around them. -/
structure Accepted (occurrences : List Occurrence) (last : List Char)
    (factors : List (UnitFactor α)) : Prop where
  gaps : ∀ o ∈ occurrences, IsGap o.gap
  last_gap : IsGap last
  last_slash : '/' ∉ last
  known : occurrences.mapM Occurrence.factor? = some factors

theorem accepted_cons_iff (o : Occurrence) (occurrences : List Occurrence) (last : List Char)
    (factors : List (UnitFactor α)) : Accepted (o :: occurrences) last factors ↔
      ∃ factor rest, factors = factor :: rest ∧ IsGap o.gap ∧ o.factor? = some factor ∧
        Accepted occurrences last rest := by
  constructor
  · rintro ⟨hgaps, hlast, hslash, hknown⟩
    rw [List.mapM_cons] at hknown
    simp only [Option.bind_eq_bind, Option.bind_eq_some_iff, Option.pure_def,
      Option.some.injEq] at hknown
    rcases hknown with ⟨factor, hfactor, rest, hrest, rfl⟩
    exact ⟨factor, rest, rfl, hgaps o List.mem_cons_self, hfactor,
      fun o' ho' => hgaps o' (List.mem_cons_of_mem _ ho'), hlast, hslash, hrest⟩
  · rintro ⟨factor, rest, rfl, hgap, hfactor, hgaps, hlast, hslash, hrest⟩
    refine ⟨List.forall_mem_cons.mpr ⟨hgap, hgaps⟩, hlast, hslash, ?_⟩
    rw [List.mapM_cons, hfactor, hrest]
    rfl

theorem known_of_factor? (o : Occurrence) (factor : UnitFactor α) (h : o.factor? = some factor) :
    Known factor := by
  rw [Occurrence.factor?, Option.map_eq_some_iff] at h
  rcases h with ⟨meaning, hmeaning, rfl⟩
  exact hmeaning

/-- All factors of an accepted text have the meaning that the catalog gives them. -/
theorem Accepted.knowns (occurrences : List Occurrence) (last : List Char)
    (factors : List (UnitFactor α)) (h : Accepted occurrences last factors) :
    ∀ factor ∈ factors, Known factor := by
  induction occurrences generalizing factors with
  | nil =>
      rw [← Option.some.inj h.known]
      exact fun factor hfactor => absurd hfactor List.not_mem_nil
  | cons o rest ih =>
      rcases (accepted_cons_iff o rest last factors).mp h with
        ⟨factor, others, rfl, -, hfactor, hrest⟩
      exact List.forall_mem_cons.mpr ⟨known_of_factor? o factor hfactor, ih others hrest⟩

/-- Where nothing but a gap is left, it must have no slash. -/
theorem scan_last_eq_ok_iff (gap : List Char) (hgap : ∀ c ∈ gap, continuesSymbol c = false)
    (unit result : CompoundUnit α) :
    scan source 0 false unit gap = .ok result ↔ IsGap gap ∧ '/' ∉ gap ∧ unit = result := by
  have hscan := scan_gap_eq_ok_iff source gap [] hgap (fun c hc => by cases hc) false unit result
  rw [List.append_nil] at hscan
  rw [hscan, scan]
  by_cases hslash : '/' ∈ gap <;> simp [hslash]

/-- What the reader does with one factor of a text. -/
theorem scan_occurrence_eq_ok_iff (o : Occurrence) (behind : List Char)
    (ho : IsOccurrence o behind) (unit result : CompoundUnit α) (htidy : Tidy unit.factors) :
    scan source 0 false unit (o.gap ++ (o.symbol ++ (o.exponent ++ behind))) = .ok result ↔
      ∃ factor next, IsGap o.gap ∧ o.factor? = some factor ∧ unit.push factor = .ok next ∧
        scan source 0 false next behind = .ok result := by
  rw [scan_gap_eq_ok_iff source o.gap _ ho.gap (ho.head_symbol o behind _),
    scan_symbol_eq_ok_iff source o.symbol _ ho.symbol_ne_nil ho.symbol ho.symbol_ends,
    writtenPower?_of_isExponent o.exponent behind ho.exponent]
  constructor
  · rintro ⟨hgap, -, meaning, written, length, next, hmeaning, hwritten, hpush, hrest⟩
    split at hwritten
    · next hword =>
      rw [Option.some.injEq, Prod.mk.injEq] at hwritten
      rcases hwritten with ⟨rfl, rfl⟩
      rw [push_effectivePower_iff unit next htidy] at hpush
      rw [List.drop_left] at hrest
      refine ⟨⟨String.ofList o.symbol, meaning.1, meaning.2, o.power⟩, next, hgap, ?_, ?_, hrest⟩
      · rw [Occurrence.factor?, hmeaning, Option.map_some]
      · simpa [Occurrence.power] using hpush
    · cases hwritten
  · rintro ⟨factor, next, hgap, hfactor, hpush, hrest⟩
    rw [Occurrence.factor?, Option.map_eq_some_iff] at hfactor
    rcases hfactor with ⟨meaning, hmeaning, rfl⟩
    -- A power that can be merged is small, so the reader has not refused it as a word.
    have hsmall := CompoundUnit.push_small unit next _ htidy hpush
    have hword : inWord (exponentValue o.exponent) = true := by
      rw [CompoundUnit.inWord_iff]
      simp only [Occurrence.power] at hsmall
      split at hsmall <;> omega
    refine ⟨hgap, fun h => absurd h Bool.false_ne_true, meaning, _, _, next, hmeaning,
      if_pos hword, ?_, ?_⟩
    · rw [push_effectivePower_iff unit next htidy]
      simpa [Occurrence.power] using hpush
    · rw [List.drop_left]
      exact hrest

/-- The reader merges the factors that a text is read as. -/
theorem scan_of_reads (cs : List Char) (occurrences : List Occurrence) (last : List Char)
    (hreads : Reads cs occurrences last) (factors : List (UnitFactor α))
    (haccepted : Accepted occurrences last factors) (unit result : CompoundUnit α)
    (htidy : Tidy unit.factors) (hpush : unit.pushAll factors = .ok result) :
    scan source 0 false unit cs = .ok result := by
  induction hreads generalizing factors unit with
  | last gap hgap =>
      rw [scan_last_eq_ok_iff source gap hgap]
      refine ⟨haccepted.last_gap, haccepted.last_slash, ?_⟩
      rw [← Option.some.inj haccepted.known] at hpush
      exact Except.ok.inj hpush
  | cons o behind occurrences last ho _ ih =>
      rcases (accepted_cons_iff o occurrences last factors).mp haccepted with
        ⟨factor, rest, rfl, hgap, hfactor, hrest⟩
      rw [CompoundUnit.pushAll, List.foldlM_cons, Outcome.bind_eq_ok] at hpush
      rcases hpush with ⟨next, hnext, hpush⟩
      have htidy' := CompoundUnit.push_tidy unit next factor htidy
        (known_of_factor? o factor hfactor) hnext
      exact (scan_occurrence_eq_ok_iff source o behind ho unit result htidy).mpr
        ⟨factor, next, hgap, hfactor, hnext, ih rest hrest next htidy' hpush⟩

/-- What the reader accepts is read as factors, and these are merged. -/
theorem reads_of_scan (cs : List Char) (unit result : CompoundUnit α) (htidy : Tidy unit.factors)
    (h : scan source 0 false unit cs = .ok result) : ∃ occurrences last factors,
      Reads cs occurrences last ∧ Accepted occurrences last factors ∧
        unit.pushAll factors = .ok result := by
  -- The scan steps over a whole factor at once, so the induction is on the length of the text.
  induction hn : cs.length using Nat.strong_induction_on generalizing cs unit with
  | _ n ih =>
    have hgap : ∀ c ∈ cs.takeWhile fun c => !continuesSymbol c, continuesSymbol c = false := by
      intro c hc
      simpa using List.mem_takeWhile_imp hc
    have hbehind : ∀ c, (cs.dropWhile fun c => !continuesSymbol c).head? = some c →
        continuesSymbol c = true := by
      intro c hc
      simpa using Text.head_dropWhile _ cs c hc
    have hcs : cs.takeWhile (fun c => !continuesSymbol c) ++
        cs.dropWhile (fun c => !continuesSymbol c) = cs := List.takeWhile_append_dropWhile
    generalize cs.takeWhile (fun c => !continuesSymbol c) = gap at hgap hcs
    generalize cs.dropWhile (fun c => !continuesSymbol c) = behind at hbehind hcs
    subst hcs
    rcases hcons : behind with _ | ⟨c, others⟩
    · subst hcons
      rw [List.append_nil] at h ⊢
      rcases (scan_last_eq_ok_iff source gap hgap unit result).mp h with ⟨hlast, hslash, rfl⟩
      exact ⟨[], gap, [], .last gap hgap,
        ⟨fun _ ho => absurd ho List.not_mem_nil, hlast, hslash, rfl⟩, rfl⟩
    · -- The first symbol is followed by its power, and behind that the text is shorter.
      have hsome : behind.takeWhile continuesSymbol ≠ [] := by
        rw [hcons, List.takeWhile_cons_of_pos (hbehind c (by rw [hcons]; rfl))]
        exact List.cons_ne_nil _ _
      rw [← hcons] at *
      clear hcons
      have hsymbol : ∀ c ∈ behind.takeWhile continuesSymbol, continuesSymbol c = true := fun c hc =>
        List.mem_takeWhile_imp hc
      have hends := Text.head_dropWhile continuesSymbol behind
      have hsplit : behind.takeWhile continuesSymbol ++ behind.dropWhile continuesSymbol = behind :=
        List.takeWhile_append_dropWhile
      generalize behind.takeWhile continuesSymbol = symbol at hsome hsymbol hsplit
      generalize behind.dropWhile continuesSymbol = rest at hends hsplit
      subst hsplit
      have hscan := ((scan_gap_eq_ok_iff source gap _ hgap hbehind false unit result).mp h).2.2
      rcases (scan_symbol_eq_ok_iff source symbol rest hsome hsymbol hends _ unit result).mp hscan
        with ⟨-, written, length, -, -, hwritten, -, -⟩
      rcases exists_isExponent rest _ hwritten with ⟨exponent, behind, rfl, hexponent⟩
      have ho : IsOccurrence ⟨gap, symbol, exponent⟩ behind :=
        ⟨hgap, hsome, hsymbol, hends, hexponent⟩
      rcases (scan_occurrence_eq_ok_iff source _ behind ho unit result htidy).mp h with
        ⟨factor, next, hgood, hfactor, hpush, hrest⟩
      have hnext := CompoundUnit.push_tidy unit next factor htidy
        (known_of_factor? _ factor hfactor) hpush
      have hshorter : behind.length < n := by
        have := List.length_pos_iff.mpr hsome
        simp only [List.length_append] at hn
        omega
      rcases ih behind.length hshorter behind next hnext hrest rfl with
        ⟨occurrences, last, factors, hreads, haccepted, hpushAll⟩
      refine ⟨_, last, factor :: factors, .cons _ behind occurrences last ho hreads,
        (accepted_cons_iff _ occurrences last _).mpr ⟨factor, factors, rfl, hgood, hfactor,
          haccepted⟩, ?_⟩
      rw [CompoundUnit.pushAll, List.foldlM_cons, hpush]
      exact hpushAll

end Texts

end UnitReader

namespace CompoundUnit

open UnitReader

variable {α : Type} [Scalar α]

/-- A text is accepted if it is read as known factors with gaps around them that can be merged,
    and what they make has a dimension. -/
theorem read_eq_ok_iff (source : String) (unit : CompoundUnit α) :
    CompoundUnit.read source = .ok unit ↔ ∃ occurrences last factors,
      Reads source.toList occurrences last ∧ Accepted occurrences last factors ∧
        none.pushAll factors = .ok unit ∧ ∃ d, unit.dimension = .ok d := by
  rw [CompoundUnit.read, Outcome.bind_eq_ok]
  constructor
  · rintro ⟨product, hscan, hcheck⟩
    rcases (check_eq_ok product unit).mp hcheck with ⟨rfl, hdimension⟩
    rcases reads_of_scan source _ none unit tidy_nil hscan with
      ⟨occurrences, last, factors, hreads, haccepted, hpush⟩
    exact ⟨occurrences, last, factors, hreads, haccepted, hpush, hdimension⟩
  · rintro ⟨occurrences, last, factors, hreads, haccepted, hpush, hdimension⟩
    exact ⟨unit, scan_of_reads source _ occurrences last hreads factors haccepted none unit tidy_nil
      hpush, (check_eq_ok unit unit).mpr ⟨rfl, hdimension⟩⟩

/-- A text that is accepted is read in one way, as factors with gaps around them. The unit has
    one factor for each symbol whose powers do not add up to zero, with their sum as its power,
    and its dimension and its scale are the products of those of all factors. -/
theorem read_meaning [ReadScalar α] (source : String) (unit : CompoundUnit α)
    (h : CompoundUnit.read source = .ok unit) :
    ∃ (occurrences : List Occurrence) (last : List Char) (factors : List (UnitFactor α)),
      Reads source.toList occurrences last ∧
        (∀ occurrences' last', Reads source.toList occurrences' last' →
          occurrences' = occurrences ∧ last' = last) ∧
        (∀ o ∈ occurrences, IsGap o.gap) ∧ IsGap last ∧ '/' ∉ last ∧
        occurrences.mapM Occurrence.factor? = some factors ∧
        (unit.factors.map (·.symbol)).Nodup ∧ (∀ factor ∈ unit.factors, Known factor) ∧
        (∀ symbol power, (∃ factor ∈ unit.factors, factor.symbol = symbol ∧ factor.power = power) ↔
          power ≠ 0 ∧ powerOf symbol factors = power) ∧
        unit.dimension = .ok (exactDimension factors) ∧
        unit.exactScale = (factors.map factorScale).prod := by
  rcases (read_eq_ok_iff source unit).mp h with
    ⟨occurrences, last, factors, hreads, haccepted, hpush, d, hd⟩
  have hknown := haccepted.knowns occurrences last factors
  have htidy := pushAll_tidy none unit factors tidy_nil hknown hpush
  have hpower : ∀ symbol, powerOf symbol unit.factors = powerOf symbol factors := by
    intro symbol
    rw [pushAll_powerOf symbol factors none unit hpush]
    exact zero_add _
  refine ⟨occurrences, last, factors, hreads, hreads.unique _ _ _, haccepted.gaps,
    haccepted.last_gap, haccepted.last_slash, haccepted.known, htidy.distinct, htidy.known, ?_, ?_,
    ?_⟩
  · intro symbol power
    rw [← hpower]
    constructor
    · rintro ⟨factor, hmem, rfl, rfl⟩
      exact ⟨htidy.nonzero factor hmem, powerOf_of_mem _ htidy.distinct factor hmem⟩
    · rintro ⟨hnonzero, rfl⟩
      rcases exists_of_powerOf_ne_zero symbol unit.factors hnonzero with ⟨factor, hmem, rfl⟩
      exact ⟨factor, hmem, rfl, (powerOf_of_mem _ htidy.distinct factor hmem).symm⟩
  · have hexact := ((pushAll_exact factors hknown none tidy_nil).value_of_ok _ _ hpush).2
    rw [hd, eq_exactDimension unit d hd, hexact]
    exact congrArg _ (zero_add _)
  · have hnone : (none : CompoundUnit α).exactScale = 1 := exactScale_eq_prod _
    rw [pushAll_exactScale factors hknown none unit tidy_nil hpush, hnone, one_mul]

/-- What is left of `1 / s^2 * kg·m / s`: the seconds of both slashes have met. -/
def forceRate : CompoundUnit Float :=
  ⟨[⟨"s", { time := 1 }, Arithmetic.one, -3⟩,
    ⟨"kg", { mass := 1 }, Arithmetic.ofDecimal ⟨1, -3⟩ * Arithmetic.ofDecimal ⟨1, 3⟩, 1⟩,
    ⟨"m", { length := 1 }, Arithmetic.one, 1⟩]⟩

/-- The two slashes of `1 / s^2 * kg·m / s` turn the two powers of the second. -/
theorem read_meaning_forceRate : CompoundUnit.read "1 / s^2 * kg·m / s" = .ok forceRate ∧
    ∃ (occurrences : List Occurrence) (last : List Char) (factors : List (UnitFactor Float)),
      Reads "1 / s^2 * kg·m / s".toList occurrences last ∧
        occurrences.mapM Occurrence.factor? = some factors ∧ powerOf "s" factors = -3 ∧
        forceRate.exactScale = (factors.map factorScale).prod := by
  have hread : CompoundUnit.read "1 / s^2 * kg·m / s" = .ok forceRate :=
    Outcome.eq_ok_of_toOption _ _ (by decide +kernel)
  rcases read_meaning _ forceRate hread with
    ⟨occurrences, last, factors, hreads, -, -, -, -, hfactors, -, -, hpowers, -, hscale⟩
  have hpower := (hpowers "s" (-3)).mp ⟨_, List.mem_cons_self, rfl, rfl⟩
  exact ⟨hread, occurrences, last, factors, hreads, hfactors, hpower.2, hscale⟩

end CompoundUnit

end Metrology
