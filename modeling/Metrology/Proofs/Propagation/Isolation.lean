import Metrology.Proofs.Propagation.Correspondence
import Metrology.Proofs.Propagation.Units

/-!
# Uncertainty of one type

A variance of one type tells nothing of what belongs to the other. The limits of the
instruments take no part in a variance of type A, and the samples take part in one of type
B by their means only, at which the derivatives are taken. So two lists that differ in
nothing but what is left out have the same variances: missing ones, failures, and the
derivatives left in the store included.

The lists are compared entry by entry, and a symbol is then looked up at the same place in
both. Therefore nothing has to be distinct here, neither identifiers nor symbols.

## Main definitions

* `DirectMeasurement.SameSamples`, `DirectMeasurement.SameLimits`: What a variance of
  either type is read off.
* `Measurement.Alike`: Measurements that differ in fields of direct ones only.

## Theorems

* `Graph.corresponds_of_alike`: Lists that are alike correspond.
* `Propagator.combinedVariance_alike`: They have the same variances if their direct
  measurements have.
* `Propagator.types_isolated`: Each type of variance depends on its own fields.
-/

namespace Metrology

variable {σ α : Type}

namespace DirectMeasurement

/-- Two direct measurements with the same samples. Their limits may differ, and so may the
    texts of the samples and what was subtracted from them. -/
structure SameSamples (d d' : DirectMeasurement α) : Prop where
  id : d'.id = d.id
  name : d'.name = d.name
  unit : d'.unit = d.unit
  values : d'.values = d.values

variable [Scalar α]

/-- Two direct measurements with the same limits, and with the same mean of samples that
    may differ. -/
structure SameLimits (d d' : DirectMeasurement α) : Prop where
  id : d'.id = d.id
  name : d'.name = d.name
  unit : d'.unit = d.unit
  typeB : d'.typeB = d.typeB
  meanValue : d'.meanValue = d.meanValue

end DirectMeasurement

/-- Two measurements that are both direct ones and related, or one and the same composite
    one. -/
inductive Measurement.Alike (rel : DirectMeasurement α → DirectMeasurement α → Prop) :
    Measurement α → Measurement α → Prop where
  | direct (d d' : DirectMeasurement α) (h : rel d d') : Alike rel (.direct d) (.direct d')
  | composite (m : CompositeMeasurement) : Alike rel (.composite m) (.composite m)

namespace Graph

variable (rel : DirectMeasurement α → DirectMeasurement α → Prop)

/-- A symbol is found at the same place of two lists that are alike. -/
theorem find?_alike (ms ms' : List (Measurement α)) (hms : List.Forall₂ (Measurement.Alike rel) ms ms')
    (wanted : Measurement α → Bool)
    (hwanted : ∀ m m', Measurement.Alike rel m m' → wanted m' = wanted m) :
    Option.Rel (Measurement.Alike rel) (ms.find? wanted) (ms'.find? wanted) := by
  induction hms with
  | nil => exact .none
  | @cons m m' _ _ hm _ ih =>
      rw [List.find?_cons, List.find?_cons, hwanted m m' hm]
      cases wanted m with
      | true => exact .some hm
      | false => exact ih

/-- Lists that are alike correspond, if related direct measurements are found under the
    same identifiers and symbols. -/
theorem corresponds_of_alike (hid : ∀ d d', rel d d' → d'.id = d.id)
    (hname : ∀ d d', rel d d' → d'.name = d.name) (constants : Bindings α)
    (ms ms' : List (Measurement α)) (hms : List.Forall₂ (Measurement.Alike rel) ms ms') :
    Corresponds ⟨ms, constants⟩ ⟨ms', constants⟩ (Measurement.Alike rel) := by
  have hids : ∀ m m', Measurement.Alike rel m m' → m'.id = m.id := by
    rintro _ _ (⟨d, d', h⟩ | _)
    · exact hid d d' h
    · rfl
  have hsymbols : ∀ m m', Measurement.Alike rel m m' → m'.symbol? = m.symbol? := by
    rintro _ _ (⟨d, d', h⟩ | _)
    · exact congrArg Name.symbol? (hname d d' h)
    · rfl
  refine ⟨rfl, hids, hsymbols, ?_, ?_, fun m _ symbol _ _ _ => ?_⟩
  · rintro d _ ⟨-, d', -⟩
    exact ⟨d', rfl⟩
  · rintro m _ ⟨⟩
    rfl
  · -- What a lookup asks for, identifiers and symbols, is the same for both.
    refine find?_alike rel ms ms' hms _ fun other other' hother => ?_
    rw [hids other other' hother, hsymbols other other' hother]

/-- Lists that are alike have the same composite measurements. -/
theorem compositeIds_alike (ms ms' : List (Measurement α))
    (hms : List.Forall₂ (Measurement.Alike rel) ms ms') : compositeIds ms' = compositeIds ms := by
  refine congrArg List.eraseDups ?_
  induction hms with
  | nil => rfl
  | cons hm _ ih =>
      cases hm with
      | direct d d' _ => exact ih
      | composite m => exact congrArg (m.id :: ·) ih

end Graph

namespace Evaluation

variable [Scalar α]

/-- The mean of a direct measurement is read off its unit and the mean of its samples. -/
theorem directMean_congr (d d' : DirectMeasurement α) (hunit : d'.unit = d.unit)
    (hmean : d'.meanValue = d.meanValue) : directMean d' = directMean d := by
  rw [directMean, directMean, hmean, directUnit, directUnit, hunit]

/-- The variance of a direct measurement is read off its unit and what the chosen types
    contribute. -/
theorem directVariance_congr (d d' : DirectMeasurement α) (types : UncertaintyTypes)
    (hunit : d'.unit = d.unit)
    (hcontributions : directContributions d' types = directContributions d types) :
    directVariance d' types = directVariance d types := by
  rw [directVariance, directVariance, hcontributions, directUnit, directUnit, hunit]

/-- Without type B, only the samples contribute. -/
theorem directContributions_typeA (d d' : DirectMeasurement α) (typeA : Bool)
    (hvalues : d'.values = d.values) :
    directContributions d' ⟨typeA, false⟩ = directContributions d ⟨typeA, false⟩ := by
  have hvariance : d'.typeAVariance = d.typeAVariance := by
    rw [DirectMeasurement.typeAVariance, DirectMeasurement.typeAVariance, hvalues]
  simp only [directContributions, hvariance, Bool.false_eq_true, if_false]

/-- Without type A, only the limits contribute, which are read in the measurement's unit. -/
theorem directContributions_typeB (d d' : DirectMeasurement α) (typeB : Bool)
    (hunit : d'.unit = d.unit) (htypeB : d'.typeB = d.typeB) :
    directContributions d' ⟨false, typeB⟩ = directContributions d ⟨false, typeB⟩ := by
  have hvariance : d'.typeBVariance = d.typeBVariance := by
    rw [DirectMeasurement.typeBVariance, DirectMeasurement.typeBVariance, hunit, htypeB]
  simp only [directContributions, hvariance, Bool.false_eq_true, if_false]

end Evaluation

namespace Propagator

variable [Scalar α] [DerivativeStore σ α]

/-- Lists that are alike have the same variances, if related direct measurements have the
    same means and variances. -/
theorem combinedVariance_alike (rel : DirectMeasurement α → DirectMeasurement α → Prop)
    (types : UncertaintyTypes) (hid : ∀ d d', rel d d' → d'.id = d.id)
    (hname : ∀ d d', rel d d' → d'.name = d.name)
    (hmean : ∀ d d', rel d d' → Evaluation.directMean d' = Evaluation.directMean d)
    (hvariance : ∀ d d', rel d d' →
      Evaluation.directVariance d' types = Evaluation.directVariance d types)
    (p : Propagator σ α) (all others : List (Measurement α))
    (h : List.Forall₂ (Measurement.Alike rel) all others) (m m' : Measurement α)
    (hm : Measurement.Alike rel m m') :
    (Propagator.combinedVariance m all types).run p =
      (Propagator.combinedVariance m' others types).run p := by
  have hcorresponds := Graph.corresponds_of_alike rel hid hname p.constants all others h
  have hdirect : ∀ d d', Measurement.Alike rel (.direct d) (.direct d') → rel d d' := by
    intro d d' hd
    cases hd with
    | direct _ _ h => exact h
  have hsame := hcorresponds.combinedVariance_eq (σ := σ) types
    (fun d d' hd => hmean d d' (hdirect d d' hd))
    (fun d d' hd => hvariance d d' (hdirect d d' hd))
    (Graph.depth ⟨all, p.constants⟩ m) m m' hm
  have hdepth : Graph.depth ⟨others, p.constants⟩ m' = Graph.depth ⟨all, p.constants⟩ m :=
    congrArg List.length (Graph.compositeIds_alike rel _ _ (.cons hm h))
  rw [Propagator.combinedVariance, Propagator.combinedVariance, run_ask, run_ask, hdepth, hsame]

/-- Each type of variance depends on its own fields. The variances without type B are the
    same over two lists whose direct measurements have the same samples, and those without
    type A over two lists whose direct measurements have the same limits and means. -/
theorem types_isolated (p : Propagator σ α) (all others : List (Measurement α)) (k : Nat)
    (m m' : Measurement α) (hm : all[k]? = some m) (hm' : others[k]? = some m') :
    (List.Forall₂ (Measurement.Alike DirectMeasurement.SameSamples) all others → ∀ typeA,
      (Propagator.combinedVariance m all ⟨typeA, false⟩).run p =
        (Propagator.combinedVariance m' others ⟨typeA, false⟩).run p) ∧
    (List.Forall₂ (Measurement.Alike DirectMeasurement.SameLimits) all others → ∀ typeB,
      (Propagator.combinedVariance m all ⟨false, typeB⟩).run p =
        (Propagator.combinedVariance m' others ⟨false, typeB⟩).run p) := by
  -- Lists that are alike are so at every position.
  have hplace : ∀ rel : DirectMeasurement α → DirectMeasurement α → Prop,
      List.Forall₂ (Measurement.Alike rel) all others → Measurement.Alike rel m m' := by
    intro rel h
    rcases List.getElem?_eq_some_iff.mp hm with ⟨hk, rfl⟩
    rcases List.getElem?_eq_some_iff.mp hm' with ⟨hk', rfl⟩
    exact h.get hk hk'
  constructor
  · intro h typeA
    refine combinedVariance_alike _ _ (fun _ _ hd => hd.id) (fun _ _ hd => hd.name)
      (fun d d' hd => ?_) (fun d d' hd => ?_) p all others h m m' (hplace _ h)
    · refine Evaluation.directMean_congr d d' hd.unit ?_
      rw [DirectMeasurement.meanValue, DirectMeasurement.meanValue, hd.values]
    · exact Evaluation.directVariance_congr d d' _ hd.unit
        (Evaluation.directContributions_typeA d d' typeA hd.values)
  · intro h typeB
    refine combinedVariance_alike _ _ (fun _ _ hd => hd.id) (fun _ _ hd => hd.name)
      (fun d d' hd => ?_) (fun d d' hd => ?_) p all others h m m' (hplace _ h)
    · exact Evaluation.directMean_congr d d' hd.unit hd.meanValue
    · exact Evaluation.directVariance_congr d d' _ hd.unit
        (Evaluation.directContributions_typeB d d' typeB hd.unit hd.typeB)

section Doubles

/-- A length with two samples and a limit. -/
def aRod : DirectMeasurement Float :=
  { DirectMeasurement.withTypeB ⟨1⟩ "a" "cm" ["0.3"] with
    values := [1, 2], minDigits := 2, inputs := ["1.0", "2.0"] }

/-- The square of the length. -/
def aSquare : CompositeMeasurement := ⟨⟨2⟩, ⟨"s"⟩, ⟨"a * a"⟩⟩

/-- The length with another limit. -/
def aRodByLimit : DirectMeasurement Float :=
  { aRod with typeB := [⟨"5", .uniform⟩, .blank], inputs := ["1", "2"], minDigits := 1 }

/-- The length with other samples, which have the same mean. -/
def aRodBySamples : DirectMeasurement Float :=
  { aRod with
    values := [1.25, 1.75], minDigits := 3, inputs := ["1.35", "1.85"], zeroOffset := some 0.1 }

/-- The variance of the square, for a length. -/
def aSquareVariance (d : DirectMeasurement Float) (types : UncertaintyTypes) :
    Except (PropagationError Float) (Option (Quantity Float)) × Propagator (NoMemory Float) Float :=
  (Propagator.combinedVariance (.composite aSquare) [.direct d, .composite aSquare] types).run
    ⟨Bindings.empty, ⟨⟩⟩

/-- The variance of the square is the same for another limit as long as type B is left
    out, and for other samples as long as type A is. It is another one with both types. -/
theorem types_isolated_aSquare :
    aSquareVariance aRod ⟨true, false⟩ = aSquareVariance aRodByLimit ⟨true, false⟩ ∧
      aSquareVariance aRod ⟨false, true⟩ = aSquareVariance aRodBySamples ⟨false, true⟩ ∧
      aSquareVariance aRod {} ≠ aSquareVariance aRodByLimit {} ∧
      aSquareVariance aRod {} ≠ aSquareVariance aRodBySamples {} := by
  have hvalue : ∀ d d', ((aSquareVariance d {}).1.toOption.join.map Quantity.value) ≠
      ((aSquareVariance d' {}).1.toOption.join.map Quantity.value) →
        aSquareVariance d {} ≠ aSquareVariance d' {} :=
    fun d d' hne hsame =>
      hne (congrArg (fun ending => ending.1.toOption.join.map Quantity.value) hsame)
  refine ⟨?_, ?_, hvalue aRod aRodByLimit (by decide +kernel),
    hvalue aRod aRodBySamples (by decide +kernel)⟩
  · exact (types_isolated (σ := NoMemory Float) ⟨Bindings.empty, ⟨⟩⟩
      [.direct aRod, .composite aSquare] [.direct aRodByLimit, .composite aSquare] 1 _ _ rfl rfl).1
      (.cons (.direct _ _ ⟨rfl, rfl, rfl, rfl⟩) (.cons (.composite _) .nil)) true
  · exact (types_isolated (σ := NoMemory Float) ⟨Bindings.empty, ⟨⟩⟩
      [.direct aRod, .composite aSquare] [.direct aRodBySamples, .composite aSquare] 1 _ _ rfl rfl).2
      (.cons (.direct _ _ ⟨rfl, rfl, rfl, rfl, by decide +kernel⟩) (.cons (.composite _) .nil)) true

end Doubles

end Propagator

end Metrology
