import Metrology.Proofs.Decimal.Literal
import Metrology.Unit.Reader

/-!
# Factors in the text of a unit

How the text of a unit is read without looking at how it is scanned. A factor occurs where a run
of letters and degree signs stands, as long as it goes, and behind it possibly a caret and a
number. Between two factors there may be blanks, signs of multiplication and one slash, and in
front of the slash digits one, which are numerators. A factor with a slash in front of it has
its power turned.

The letters decide where a factor begins and ends, so a text is read in one way only.

## Main definitions

* `UnitReader.Occurrence`: A factor as it occurs in a text.
* `UnitReader.Reads`: The factors of a text and what stands behind the last one.
* `UnitReader.IsGap`: What may stand between two factors.
* `UnitReader.Occurrence.power`, `UnitReader.Occurrence.factor?`: What a factor means.

## Theorems

* `UnitReader.isGap_cons_iff`: A gap from its first character on.
* `UnitReader.IsOccurrence.unique`, `UnitReader.Reads.unique`: A text is read in one way.
-/

namespace Metrology.UnitReader

open Decimal (digitsValue)
open Numeral (IsSign)
open Text (isBlank)

/-- A factor as it occurs in a text: what stands between it and the factor before it, its symbol,
    and its power with the caret. -/
@[ext]
structure Occurrence where
  gap : List Char
  symbol : List Char
  exponent : List Char
  deriving DecidableEq, Repr

/-- The number that a caret and digits with a sign stand for. Without them it is one. -/
def exponentValue : List Char → ℤ
  | [] => 1
  | _ :: '-' :: digits => -digitsValue digits
  | _ :: '+' :: digits => digitsValue digits
  | _ :: digits => digitsValue digits

/-- A caret and digits, possibly with a sign, as many as there are. Nothing is one only where no
    caret stands. -/
def IsExponent (exponent behind : List Char) : Prop :=
  exponent = [] ∧ behind.head? ≠ some '^' ∨
    ∃ sign digits, IsSign sign ∧ digits ≠ [] ∧ (∀ c ∈ digits, c.isDigit = true) ∧
      exponent = '^' :: (sign ++ digits) ∧ ∀ c, behind.head? = some c → c.isDigit = false

/-- A factor that occurs next in a text: the first run of letters and degree signs, as long as it
    goes, with its power. -/
structure IsOccurrence (o : Occurrence) (behind : List Char) : Prop where
  gap : ∀ c ∈ o.gap, continuesSymbol c = false
  symbol_ne_nil : o.symbol ≠ []
  symbol : ∀ c ∈ o.symbol, continuesSymbol c = true
  symbol_ends : ∀ c, (o.exponent ++ behind).head? = some c → continuesSymbol c = false
  exponent : IsExponent o.exponent behind

/-- A text is read as its factors and what stands behind the last one. -/
inductive Reads : List Char → List Occurrence → List Char → Prop
  | last (gap : List Char) (hgap : ∀ c ∈ gap, continuesSymbol c = false) : Reads gap [] gap
  | cons (o : Occurrence) (behind : List Char) (occurrences : List Occurrence) (last : List Char)
      (ho : IsOccurrence o behind) (hbehind : Reads behind occurrences last) :
      Reads (o.gap ++ (o.symbol ++ (o.exponent ++ behind))) (o :: occurrences) last

/-- What a character between two factors may be: a blank, a sign of multiplication, a slash, or a
    digit one with a slash next to it. -/
def Separates (c : Char) (behind : List Char) : Prop :=
  isBlank c = true ∨ c = '*' ∨ c = '·' ∨ c = '/' ∨
    c = '1' ∧ ∃ blanks rest, (∀ b ∈ blanks, isBlank b = true) ∧ behind = blanks ++ '/' :: rest

/-- What may stand between two factors. -/
structure IsGap (gap : List Char) : Prop where
  one_slash : gap.count '/' ≤ 1
  separates : ∀ before c behind, gap = before ++ c :: behind → Separates c behind

namespace Occurrence

/-- The power of a factor: the written one, turned where a slash stands in front of it. -/
def power (o : Occurrence) : ℤ :=
  if '/' ∈ o.gap then -exponentValue o.exponent else exponentValue o.exponent

/-- The factor that a symbol with its power means. -/
def factor? {α : Type} [Scalar α] (o : Occurrence) : Option (UnitFactor α) :=
  (Catalog.lookup (String.ofList o.symbol)).map fun meaning =>
    ⟨String.ofList o.symbol, meaning.1, meaning.2, o.power⟩

end Occurrence

section Gaps

theorem isGap_nil : IsGap [] :=
  ⟨Nat.zero_le _, fun before c behind h => absurd h.symm (by simp)⟩

theorem isGap_cons_iff (c : Char) (rest : List Char) :
    IsGap (c :: rest) ↔ Separates c rest ∧ (c = '/' → '/' ∉ rest) ∧ IsGap rest := by
  constructor
  · intro h
    have hcount := h.one_slash
    rw [List.count_cons] at hcount
    refine ⟨h.separates [] c rest rfl, ?_, ⟨by omega, ?_⟩⟩
    · rintro rfl hmem
      have := List.count_pos_iff.mpr hmem
      rw [beq_self_eq_true, if_pos rfl] at hcount
      omega
    · rintro before d behind rfl
      exact h.separates (c :: before) d behind rfl
  · rintro ⟨hc, hslash, h⟩
    refine ⟨?_, fun before d behind heq => ?_⟩
    · rw [List.count_cons]
      have hcount := h.one_slash
      split
      · next hsame =>
        rw [List.count_eq_zero.mpr (hslash (beq_iff_eq.mp hsame))]
      · exact hcount
    · rcases before with _ | ⟨first, before⟩
      · cases heq
        exact hc
      · rw [List.cons_append, List.cons.injEq] at heq
        exact h.separates before d behind heq.2

end Gaps

section Unique

/-- A power ends in one place. -/
theorem IsExponent.unique (exponent behind exponent' behind' : List Char)
    (h : IsExponent exponent behind) (h' : IsExponent exponent' behind')
    (heq : exponent ++ behind = exponent' ++ behind') :
    exponent = exponent' ∧ behind = behind' := by
  rcases h with ⟨rfl, hcaret⟩ | ⟨sign, digits, hsign, hdigits, hall, rfl, hends⟩
  · rcases h' with ⟨rfl, -⟩ | ⟨sign', digits', -, -, -, rfl, -⟩
    · exact ⟨rfl, heq⟩
    · rw [List.nil_append] at heq
      exact absurd (by rw [heq]; rfl) hcaret
  · rcases h' with ⟨rfl, hcaret⟩ | ⟨sign', digits', hsign', hdigits', hall', rfl, hends'⟩
    · rw [List.nil_append] at heq
      exact absurd (by rw [← heq]; rfl) hcaret
    · rw [List.cons_append, List.cons_append, List.cons.injEq, List.append_assoc,
        List.append_assoc] at heq
      rcases Numeral.signCut_unique _ _ _ _
        (Numeral.signCut_digits sign digits behind hsign hdigits hall)
        (Numeral.signCut_digits sign' digits' behind' hsign' hdigits' hall') heq.2 with ⟨rfl, hrest⟩
      rcases Text.eq_of_runs _ _ _ hall hends _ _ hall' hends' hrest with ⟨rfl, rfl⟩
      exact ⟨rfl, rfl⟩

/-- The characters of a gap, told apart from those of a symbol. -/
theorem not_continuesSymbol (gap : List Char) (hgap : ∀ c ∈ gap, continuesSymbol c = false) :
    ∀ c ∈ gap, (!continuesSymbol c) = true := fun c hc => by rw [hgap c hc]; rfl

namespace IsOccurrence

variable (o : Occurrence) (behind : List Char) (h : IsOccurrence o behind)

include h

theorem head_symbol (rest : List Char) (c : Char) (hc : (o.symbol ++ rest).head? = some c) :
    continuesSymbol c = true := by
  rcases List.exists_cons_of_ne_nil h.symbol_ne_nil with ⟨first, others, hcons⟩
  rw [hcons] at hc
  rw [← Option.some.inj hc]
  exact h.symbol first (hcons ▸ List.mem_cons_self)

/-- One factor occurs next in a text. -/
theorem unique (o' : Occurrence) (behind' : List Char) (h' : IsOccurrence o' behind')
    (heq : o.gap ++ (o.symbol ++ (o.exponent ++ behind)) =
      o'.gap ++ (o'.symbol ++ (o'.exponent ++ behind'))) : o = o' ∧ behind = behind' := by
  -- The gap, the symbol and the power are cut off one after the other, each where it ends.
  have hfirst := h.head_symbol o behind (o.exponent ++ behind)
  have hfirst' := h'.head_symbol o' behind' (o'.exponent ++ behind')
  rcases Text.eq_of_runs (fun c => !continuesSymbol c) _ _ (not_continuesSymbol _ h.gap)
    (fun c hc => by rw [hfirst c hc]; rfl) _ _ (not_continuesSymbol _ h'.gap)
    (fun c hc => by rw [hfirst' c hc]; rfl) heq with ⟨hgap, hbehind⟩
  rcases Text.eq_of_runs _ _ _ h.symbol h.symbol_ends _ _ h'.symbol h'.symbol_ends hbehind with
    ⟨hsymbol, hrest⟩
  rcases IsExponent.unique _ _ _ _ h.exponent h'.exponent hrest with ⟨hexponent, rfl⟩
  exact ⟨Occurrence.ext hgap hsymbol hexponent, rfl⟩

end IsOccurrence

theorem reads_cases (cs : List Char) (occurrences : List Occurrence) (last : List Char)
    (h : Reads cs occurrences last) :
    (occurrences = [] ∧ last = cs ∧ ∀ c ∈ cs, continuesSymbol c = false) ∨
      ∃ o behind rest, occurrences = o :: rest ∧ IsOccurrence o behind ∧ Reads behind rest last ∧
        cs = o.gap ++ (o.symbol ++ (o.exponent ++ behind)) := by
  cases h with
  | last _ hgap => exact Or.inl ⟨rfl, rfl, hgap⟩
  | cons o behind rest _ ho hbehind => exact Or.inr ⟨o, behind, rest, rfl, ho, hbehind, rfl⟩

/-- A text without symbols has no factor. -/
theorem no_symbol (o : Occurrence) (behind : List Char) (h : IsOccurrence o behind) :
    ¬ ∀ c ∈ o.gap ++ (o.symbol ++ (o.exponent ++ behind)), continuesSymbol c = false := by
  intro hnone
  rcases List.exists_cons_of_ne_nil h.symbol_ne_nil with ⟨c, others, hcons⟩
  have hc : c ∈ o.symbol := hcons ▸ List.mem_cons_self
  have hnot := hnone c (List.mem_append_right _ (List.mem_append_left _ hc))
  exact Bool.false_ne_true (hnot.symm.trans (h.symbol c hc))

/-- A text is read in one way. -/
theorem Reads.unique (cs : List Char) (occurrences : List Occurrence) (last : List Char)
    (h : Reads cs occurrences last) (occurrences' : List Occurrence) (last' : List Char)
    (h' : Reads cs occurrences' last') : occurrences' = occurrences ∧ last' = last := by
  induction h generalizing occurrences' with
  | last gap hgap =>
      rcases reads_cases _ _ _ h' with ⟨rfl, rfl, -⟩ | ⟨o, behind, rest, -, ho, -, rfl⟩
      · exact ⟨rfl, rfl⟩
      · exact absurd hgap (no_symbol o behind ho)
  | cons o behind rest last ho _ ih =>
      rcases reads_cases _ _ _ h' with ⟨-, -, hnone⟩ | ⟨o', behind', rest', rfl, ho', hrest', heq⟩
      · exact absurd hnone (no_symbol o behind ho)
      · rcases ho.unique o behind o' behind' ho' heq with ⟨rfl, rfl⟩
        rcases ih rest' hrest' with ⟨rfl, rfl⟩
        exact ⟨rfl, rfl⟩

end Unique

end Metrology.UnitReader
