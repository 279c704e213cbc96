import Mathlib.Data.List.Perm.Basic
import Metrology.Proofs.Unit.Derived
import Metrology.Proofs.Unit.Scan

/-!
# Reading the text of a unit

What the reader makes of the text that a unit is written as. A slash divides by
the one symbol behind it, yet the text of a unit has at most one slash, in front
of all factors with negative powers. So only the first of them is read as a
divisor, and the others come back with their powers turned: `m / s kg` is
written for `m s^-1 kg^-1` and read as `m s^-1 kg`.

Two more things can go wrong. The reader checks the dimension after all factors
are merged, in the order in which they are written, and this order differs from
the one the unit was made in: `m^100 cm^-100 km^100` has a dimension, but
`m^100 km^100 / cm^100` leaves eight bits on the way. And a coherent SI unit may
have the power -128, which the reader refuses.

`read_text_eq_ok` says exactly what comes back, and `reads_back_iff` that a unit
comes back as itself exactly when none of the three applies.

## Main definitions

* `CompoundUnit.numerators`, `CompoundUnit.denominators`: The two halves of a
  written unit.
* `CompoundUnit.asRead`: The factors that the reader finds.
* `CompoundUnit.SameFactors`: Having the same symbols with the same powers.
* `CompoundUnit.ReadsBack`: The condition on units.

## Theorems

* `CompoundUnit.scan_text`: The reader merges the factors of `asRead`.
* `CompoundUnit.read_text_eq_ok`: What the text of a unit is read as.
* `CompoundUnit.sameFactors_asRead_iff`: When the factors are those of the unit.
* `CompoundUnit.reads_back_iff`: When a unit comes back as itself.
* `CompoundUnit.perm_of_sameFactors`, `CompoundUnit.scale_of_perm`: What equal
  factors have in common.
-/

namespace Metrology

/-- The factor with its power turned. -/
def UnitFactor.inverse {α : Type} (factor : UnitFactor α) : UnitFactor α :=
  { factor with power := -factor.power }

@[simp, grind =]
theorem UnitFactor.power_inverse {α : Type} (factor : UnitFactor α) :
    factor.inverse.power = -factor.power := rfl

namespace CompoundUnit

variable {α : Type}

/-- The factors written in front of the slash. -/
def numerators (unit : CompoundUnit α) : List (UnitFactor α) :=
  unit.factors.filter fun factor => 0 < factor.power

/-- The factors written behind the slash. -/
def denominators (unit : CompoundUnit α) : List (UnitFactor α) :=
  unit.factors.filter fun factor => factor.power < 0

/-- The factors that the reader finds in the text of a unit: behind the slash,
    only the first is divided by. -/
def asRead (unit : CompoundUnit α) : List (UnitFactor α) :=
  if unit.numerators = [] then unit.denominators
  else unit.numerators ++ (unit.denominators.take 1 ++
    (unit.denominators.drop 1).map UnitFactor.inverse)

/-- The symbols of a unit with their powers. -/
def powers (unit : CompoundUnit α) : List (String × Int) :=
  unit.factors.map fun factor => (factor.symbol, factor.power)

/-- Having the same symbols with the same powers. -/
def SameFactors (unit other : CompoundUnit α) : Prop :=
  ∀ power, power ∈ unit.powers ↔ power ∈ other.powers

/-- The units whose text is read as the unit itself. -/
structure ReadsBack (unit : CompoundUnit α) : Prop where
  /-- At most one factor stands behind a slash. -/
  oneDivisor : unit.numerators = [] ∨ unit.denominators.length ≤ 1
  /-- No power is beyond what the reader takes. -/
  readable : ∀ factor ∈ unit.factors, factor.power ≠ -128
  /-- The dimension stays in range in the order in which factors are written. -/
  measurable : ∃ d, (CompoundUnit.mk (unit.numerators ++ unit.denominators)).dimension = .ok d

section Halves

theorem mem_numerators (unit : CompoundUnit α) (factor : UnitFactor α) :
    factor ∈ unit.numerators ↔ factor ∈ unit.factors ∧ 0 < factor.power := by
  rw [numerators, List.mem_filter, decide_eq_true_eq]

theorem mem_denominators (unit : CompoundUnit α) (factor : UnitFactor α) :
    factor ∈ unit.denominators ↔ factor ∈ unit.factors ∧ factor.power < 0 := by
  rw [denominators, List.mem_filter, decide_eq_true_eq]

/-- The two halves hold every factor of a unit without zero powers. -/
theorem halves_perm (unit : CompoundUnit α) (hnonzero : ∀ factor ∈ unit.factors, factor.power ≠ 0) :
    (unit.numerators ++ unit.denominators).Perm unit.factors := by
  have hdenominators : unit.denominators =
      unit.factors.filter fun factor => !decide (0 < factor.power) := by
    rw [denominators]
    refine List.filter_congr (fun factor hmem => ?_)
    have := hnonzero factor hmem
    rw [← decide_not, decide_eq_decide]
    omega
  rw [numerators, hdenominators]
  exact List.filter_append_perm _ _

theorem denominators_of_numerators_nil (unit : CompoundUnit α)
    (hnonzero : ∀ factor ∈ unit.factors, factor.power ≠ 0) (h : unit.numerators = []) :
    unit.denominators = unit.factors := by
  rw [denominators, List.filter_eq_self]
  intro factor hmem
  have hnot := List.filter_eq_nil_iff.mp h factor hmem
  have := hnonzero factor hmem
  rw [decide_eq_true_eq] at hnot ⊢
  omega

/-- Turning powers keeps the symbols. -/
theorem map_symbol_asRead (unit : CompoundUnit α)
    (hnonzero : ∀ factor ∈ unit.factors, factor.power ≠ 0) :
    (unit.asRead.map (·.symbol)).Perm (unit.factors.map (·.symbol)) := by
  have hhalves := (halves_perm unit hnonzero).map (·.symbol)
  rw [asRead]
  split
  · next h => rw [denominators_of_numerators_nil unit hnonzero h]
  · have hturned : ((unit.denominators.drop 1).map UnitFactor.inverse).map (·.symbol) =
        (unit.denominators.drop 1).map (·.symbol) := by
      rw [List.map_map]
      rfl
    rw [List.map_append, List.map_append, hturned, ← List.map_append, List.take_append_drop,
      ← List.map_append]
    exact hhalves

/-- Every factor that the reader finds is one of the unit, perhaps turned. -/
theorem mem_asRead (unit : CompoundUnit α) (factor : UnitFactor α) (h : factor ∈ unit.asRead) :
    ∃ original ∈ unit.factors, factor = original ∨ factor = original.inverse := by
  rw [asRead] at h
  split at h
  · exact ⟨factor, ((mem_denominators _ _).mp h).1, Or.inl rfl⟩
  · rcases List.mem_append.mp h with h | h
    · exact ⟨factor, ((mem_numerators _ _).mp h).1, Or.inl rfl⟩
    · rcases List.mem_append.mp h with h | h
      · exact ⟨factor, ((mem_denominators _ _).mp (List.mem_of_mem_take h)).1, Or.inl rfl⟩
      · rcases List.mem_map.mp h with ⟨original, hmem, rfl⟩
        exact ⟨original, ((mem_denominators _ _).mp (List.mem_of_mem_drop hmem)).1, Or.inr rfl⟩

/-- Every factor of a unit is found by the reader, perhaps turned. -/
theorem exists_asRead (unit : CompoundUnit α) (factor : UnitFactor α)
    (hmem : factor ∈ unit.factors) (hnonzero : factor.power ≠ 0) :
    ∃ found ∈ unit.asRead, found = factor ∨ found = factor.inverse := by
  by_cases hpower : 0 < factor.power
  · have hnumerator := (mem_numerators unit factor).mpr ⟨hmem, hpower⟩
    rw [asRead, if_neg (List.ne_nil_of_mem hnumerator)]
    exact ⟨factor, List.mem_append_left _ hnumerator, Or.inl rfl⟩
  · have hdenominator := (mem_denominators unit factor).mpr ⟨hmem, by omega⟩
    rw [asRead]
    split
    · exact ⟨factor, hdenominator, Or.inl rfl⟩
    · rw [← List.take_append_drop 1 unit.denominators] at hdenominator
      rcases List.mem_append.mp hdenominator with h | h
      · exact ⟨factor, List.mem_append_right _ (List.mem_append_left _ h), Or.inl rfl⟩
      · exact ⟨factor.inverse, List.mem_append_right _ (List.mem_append_right _
          (List.mem_map.mpr ⟨factor, h, rfl⟩)), Or.inr rfl⟩

/-- With at most one factor behind the slash, the reader finds the numerators and
    then the denominators. -/
theorem asRead_eq (unit : CompoundUnit α)
    (hone : unit.numerators = [] ∨ unit.denominators.length ≤ 1) :
    unit.asRead = unit.numerators ++ unit.denominators := by
  rw [asRead]
  split
  · next h => rw [h, List.nil_append]
  · next h =>
    have hlength := hone.resolve_left h
    rw [List.take_of_length_le hlength, List.drop_eq_nil_of_le hlength, List.map_nil,
      List.append_nil]

theorem asRead_perm (unit : CompoundUnit α) (hnonzero : ∀ factor ∈ unit.factors, factor.power ≠ 0)
    (hone : unit.numerators = [] ∨ unit.denominators.length ≤ 1) :
    unit.asRead.Perm unit.factors := by
  rw [asRead_eq unit hone]
  exact halves_perm unit hnonzero

end Halves

section Reading

/-- The text of a unit is a product, or two with a slash between them. -/
theorem text_eq (unit : CompoundUnit α) :
    unit.text =
      if unit.numerators = [] then productText unit.denominators
      else productText unit.numerators ++
        if unit.denominators = [] then ""
        else " / " ++ productText (unit.denominators.map UnitFactor.inverse) := by
  simp only [text, productText, List.map_map, List.isEmpty_iff]
  rfl

variable [Scalar α]

/-- Behind the slash, the first factor is divided by and the others are merged as
    they are written. -/
theorem scan_divisors (source : String) (unit : CompoundUnit α) (first : UnitFactor α)
    (rest : List (UnitFactor α)) (hknown : ∀ factor ∈ first :: rest, Known factor)
    (hbounded : ∀ factor ∈ first :: rest, -128 ≤ factor.power ∧ factor.power ≤ 128) :
    UnitReader.scan source 0 true unit
        (productText ((first :: rest).map UnitFactor.inverse)).toList =
      unit.pushAll (first :: rest.map UnitFactor.inverse) := by
  have hturned : ∀ factor ∈ first :: rest,
      -128 ≤ factor.inverse.power ∧ factor.inverse.power ≤ 128 := by
    intro factor hmem
    have := hbounded factor hmem
    rw [UnitFactor.power_inverse]
    omega
  have hfirst := hturned first List.mem_cons_self
  -- Dividing by the inverse is multiplying by the factor itself.
  have hinverse : ({ first.inverse with
      power := UnitReader.effective true first.inverse.power } : UnitFactor α) = first := by
    rw [UnitReader.effective, if_pos rfl, UnitFactor.inverse, Int.neg_neg]
  have hscan := UnitReader.scan_factor source true unit first.inverse
  rw [hinverse] at hscan
  rw [pushAll, List.foldlM_cons, List.map_cons]
  cases rest with
  | nil =>
      rw [List.map_nil, toList_productText_singleton,
        ← List.append_nil (factorText first.inverse.symbol first.inverse.power).toList,
        hscan [] (hknown first List.mem_cons_self) hfirst.1 hfirst.2 UnitReader.closes_nil]
      rfl
  | cons next rest =>
      rw [List.map_cons, toList_productText_cons, hscan _ (hknown first List.mem_cons_self)
        hfirst.1 hfirst.2 (UnitReader.closes_blank _)]
      congr 1
      funext merged
      have hproduct := UnitReader.scan_product source ((next :: rest).map UnitFactor.inverse)
        (by simp) ?_ ?_ [] UnitReader.closes_nil merged
      · rw [UnitReader.scan_blank, ← List.map_cons, ← List.append_nil (productText _).toList,
          hproduct]
        exact bind_pure _
      · intro f hf
        rcases List.mem_map.mp hf with ⟨original, hmem, rfl⟩
        exact hknown original (List.mem_cons_of_mem _ hmem)
      · intro f hf
        rcases List.mem_map.mp hf with ⟨original, hmem, rfl⟩
        exact hturned original (List.mem_cons_of_mem _ hmem)

/-- The reader merges the factors of `asRead`. -/
theorem scan_text (unit : CompoundUnit α) (htidy : Tidy unit.factors) (source : String) :
    UnitReader.scan source 0 false none unit.text.toList = none.pushAll unit.asRead := by
  have hbounded : ∀ factor ∈ unit.factors, -128 ≤ factor.power ∧ factor.power ≤ 128 := by
    intro factor hmem
    have := htidy.bounded factor hmem
    omega
  -- Either half is a product of known factors.
  have hproduct : ∀ factors : List (UnitFactor α), (∀ f ∈ factors, f ∈ unit.factors) →
      ∀ rest, UnitReader.Closes rest → factors ≠ [] →
        UnitReader.scan source 0 false none ((productText factors).toList ++ rest) =
          none.pushAll factors >>= fun next => UnitReader.scan source 0 false next rest := by
    intro factors hsub rest hrest hne
    exact UnitReader.scan_product source factors hne (fun f hf => htidy.known f (hsub f hf))
      (fun f hf => hbounded f (hsub f hf)) rest hrest none
  have habove : ∀ f ∈ unit.numerators, f ∈ unit.factors :=
    fun f hf => ((mem_numerators _ _).mp hf).1
  have hbelow : ∀ f ∈ unit.denominators, f ∈ unit.factors :=
    fun f hf => ((mem_denominators _ _).mp hf).1
  rw [text_eq, asRead]
  split
  · -- Only denominators: they are written as they are, with their negative powers.
    next h =>
    by_cases hempty : unit.denominators = []
    · rw [hempty]
      rfl
    · rw [← List.append_nil (productText unit.denominators).toList,
        hproduct _ hbelow [] UnitReader.closes_nil hempty]
      exact bind_pure _
  · next h =>
    cases hden : unit.denominators with
    | nil =>
        rw [if_pos rfl, String.append_empty, ← List.append_nil (productText _).toList,
          hproduct _ habove [] UnitReader.closes_nil h, List.take_nil, List.drop_nil, List.map_nil,
          List.append_nil, List.append_nil]
        exact bind_pure _
    | cons first rest =>
        -- The slash waits for the first divisor; the blanks around it are passed over.
        rw [if_neg (by simp), String.toList_append, String.toList_append,
          show " / ".toList = [' ', '/', ' '] by decide, List.cons_append, List.cons_append,
          List.cons_append, List.nil_append,
          hproduct _ habove _ (UnitReader.closes_blank _) h, pushAll_append]
        congr 1
        funext next
        rw [UnitReader.scan_blank, UnitReader.scan, if_neg (by decide), if_pos rfl,
          if_neg Bool.false_ne_true, UnitReader.scan_blank]
        exact scan_divisors source next first rest
          (fun f hf => htidy.known f (hbelow f (hden ▸ hf)))
          (fun f hf => hbounded f (hbelow f (hden ▸ hf)))

/-- The reader takes the powers of a text unless one of them is -128: turning a
    power keeps it in range. -/
theorem inRange_asRead_iff (unit : CompoundUnit α) (htidy : Tidy unit.factors) :
    (∀ factor ∈ unit.asRead, inRange factor.power = true) ↔
      ∀ factor ∈ unit.factors, factor.power ≠ -128 := by
  constructor
  · intro h factor hmem
    rcases exists_asRead unit factor hmem (htidy.nonzero factor hmem) with ⟨g, hg, rfl | rfl⟩
    · have := h _ hg
      grind
    · have := h _ hg
      grind
  · intro h factor hmem
    rcases mem_asRead unit factor hmem with ⟨original, horiginal, rfl | rfl⟩
    · have := htidy.bounded factor horiginal
      grind
    · have := htidy.bounded original horiginal
      grind

/-- What the text of a unit is read as. -/
theorem read_text_eq_ok (unit result : CompoundUnit α) (htidy : Tidy unit.factors) :
    read unit.text = .ok result ↔
      (∀ factor ∈ unit.factors, factor.power ≠ -128) ∧ result = ⟨unit.asRead⟩ ∧
        ∃ d, result.dimension = .ok d := by
  have hnodup : (((none : CompoundUnit α).factors ++ unit.asRead).map (·.symbol)).Nodup :=
    (map_symbol_asRead unit htidy.nonzero).nodup_iff.mpr htidy.distinct
  have hnonzero : ∀ factor ∈ (none : CompoundUnit α).factors ++ unit.asRead, factor.power ≠ 0 := by
    intro factor hmem
    rcases mem_asRead unit factor hmem with ⟨original, horiginal, rfl | rfl⟩
    · exact htidy.nonzero factor horiginal
    · have := htidy.nonzero original horiginal
      rw [UnitFactor.power_inverse]
      omega
  -- Symbols are distinct, so merging can fail for nothing but a power.
  have hpush : ∀ product, none.pushAll unit.asRead = .ok product ↔
      (∀ factor ∈ unit.factors, factor.power ≠ -128) ∧ product = ⟨unit.asRead⟩ := by
    intro product
    rw [pushAll_distinct unit.asRead none product hnodup hnonzero,
      inRange_asRead_iff unit htidy]
    rfl
  rw [CompoundUnit.read, scan_text unit htidy, Outcome.bind_eq_ok]
  constructor
  · rintro ⟨product, hproduct, hcheck⟩
    rw [hpush] at hproduct
    rw [check_eq_ok] at hcheck
    rcases hcheck with ⟨rfl, hd⟩
    exact ⟨hproduct.1, hproduct.2, hd⟩
  · rintro ⟨hreadable, rfl, hd⟩
    exact ⟨_, (hpush _).mpr ⟨hreadable, rfl⟩, (check_eq_ok _ _).mpr ⟨rfl, hd⟩⟩

/-- The reader finds the factors of a unit exactly when at most one of them stands
    behind a slash: a second one would come back turned. -/
theorem sameFactors_asRead_iff (unit : CompoundUnit α) (htidy : Tidy unit.factors) :
    SameFactors ⟨unit.asRead⟩ unit ↔ unit.numerators = [] ∨ unit.denominators.length ≤ 1 := by
  constructor
  · intro hsame
    by_contra hnot
    rw [not_or] at hnot
    rcases hden : unit.denominators with _ | ⟨first, _ | ⟨second, rest⟩⟩
    · exact hnot.2 (by rw [hden]; simp)
    · exact hnot.2 (by rw [hden]; simp)
    · -- The second divisor comes back with its power turned.
      have hfound : second.inverse ∈ unit.asRead := by
        rw [asRead, if_neg hnot.1, hden]
        simp
      have hpower := (hsame (second.symbol, -second.power)).mp
        (List.mem_map.mpr ⟨second.inverse, hfound, rfl⟩)
      rcases List.mem_map.mp hpower with ⟨other, hother, heq⟩
      rw [Prod.mk.injEq] at heq
      have hsecond : second ∈ unit.denominators := by rw [hden]; simp
      rw [mem_denominators] at hsecond
      -- Its symbol stands in the unit once, with the power that is not turned.
      have hsymbol : other = second :=
        List.inj_on_of_nodup_map htidy.distinct hother hsecond.1 heq.1
      have := hsecond.2
      rw [hsymbol] at heq
      omega
  · intro hone power
    have hperm := asRead_perm unit htidy.nonzero hone
    exact (hperm.map _).mem_iff

/-- A unit comes back as itself exactly when it reads back. -/
theorem reads_back_iff (unit : CompoundUnit α) (htidy : Tidy unit.factors) :
    (∃ found, read unit.text = .ok found ∧ SameFactors found unit) ↔ unit.ReadsBack := by
  constructor
  · rintro ⟨found, hread, hsame⟩
    rw [read_text_eq_ok unit found htidy] at hread
    rcases hread with ⟨hreadable, rfl, hmeasurable⟩
    have hone := (sameFactors_asRead_iff unit htidy).mp hsame
    rw [asRead_eq unit hone] at hmeasurable
    exact ⟨hone, hreadable, hmeasurable⟩
  · intro h
    have hmeasurable := h.measurable
    rw [← asRead_eq unit h.oneDivisor] at hmeasurable
    exact ⟨⟨unit.asRead⟩, (read_text_eq_ok unit _ htidy).mpr ⟨h.readable, rfl, hmeasurable⟩,
      (sameFactors_asRead_iff unit htidy).mpr h.oneDivisor⟩

/-- Symbols mean what the catalog says, so equal factors are the same factors in
    another order. -/
theorem perm_of_sameFactors (unit found : CompoundUnit α) (htidy : Tidy unit.factors)
    (hread : read unit.text = .ok found) (hsame : SameFactors found unit) :
    found.factors.Perm unit.factors := by
  rw [read_text_eq_ok unit found htidy] at hread
  rcases hread with ⟨-, rfl, -⟩
  exact asRead_perm unit htidy.nonzero ((sameFactors_asRead_iff unit htidy).mp hsame)

/-- The same factors have the same scale, as far as the order of multiplication
    does not matter. -/
theorem scale_of_perm (unit found : CompoundUnit α)
    (hright : ∀ a b c : α, a * b * c = a * c * b)
    (hperm : found.factors.Perm unit.factors) : found.scale = unit.scale := by
  have : RightCommutative fun (product : α) (factor : UnitFactor α) =>
      product * Arithmetic.powInt factor.scale factor.power :=
    ⟨fun product first second => hright _ _ _⟩
  exact hperm.foldl_eq Arithmetic.one

end Reading

end CompoundUnit

end Metrology
