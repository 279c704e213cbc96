import Mathlib.Algebra.Order.BigOperators.Group.List
import Mathlib.Tactic.FieldSimp
import Mathlib.Tactic.LinearCombination
import Metrology.Measurement.Statistics
import Metrology.Proofs.Scalar.Rational

/-!
# Moments of exact samples

Mean and variance of samples, as they are defined and as they are computed. The
definitions need the samples twice, once for the mean and once for the deviations from
it. The computation goes through the samples once. On quotients of integers, where
nothing is lost, it finds the same numbers.

The compensated sum carries along what its additions lose. An addition of quotients
loses nothing, whichever operand is the smaller one, so what is carried stays zero.

The variance keeps the mean of the samples met so far, and the sum of their squared
deviations from that mean. Both are corrected with each sample, although the mean that
all earlier deviations were taken from moves. That the correction is right is the one
step with some algebra in it: around the mean, the squares of `n` samples exceed `n`
times the squared mean by the sum of the squared deviations.

What is claimed of mean and variance is then read off the definitions, and holds in any
ordered field.

## Main definitions

* `Statistics.average`, `Statistics.dispersion`: Mean and variance as they are defined.
* `Statistics.squaresAbout`: A sum of squared deviations.
* `Statistics.Moments.Of`: Moments of the samples that have been met.

## Theorems

* `Statistics.Accumulator.foldl_add`: The compensated sum is the sum.
* `Statistics.Moments.Of.add`, `Statistics.Moments.Of.foldl`: The moments stay those of
  the samples, with one more of them and with all.
* `Statistics.mean_eq`, `Statistics.sampleVariance_eq`, `Statistics.varianceOfMean_eq`:
  What is computed is what is defined.
* `Statistics.average_perm`, `Statistics.dispersion_perm`: The order does not matter.
* `Statistics.dispersion_eq_zero_iff`: Only samples that are all equal do not vary.
* `Statistics.dispersion_map_add`: A shift of all samples does not matter.
* `Statistics.moments_as_defined`: Mean and variances of exact samples.
-/

namespace Metrology.Statistics

section Definitions

variable {K : Type} [Field K]

/-- The sum of the samples, divided by their number. -/
def average (samples : List K) : K := samples.sum / samples.length

/-- The squared deviations of the samples from a number, added up. -/
def squaresAbout (center : K) (samples : List K) : K :=
  (samples.map fun x => (x - center) ^ 2).sum

/-- The squared deviations from the mean, divided by one less than the number of the
    samples. A single sample has no dispersion. -/
def dispersion (samples : List K) : K :=
  if samples.length = 1 then 0
  else squaresAbout (average samples) samples / (samples.length - 1)

/-- Squared deviations by the sum of the samples and that of their squares. -/
theorem squaresAbout_eq (center : K) (samples : List K) :
    squaresAbout center samples =
      (samples.map (· ^ 2)).sum - 2 * center * samples.sum + samples.length * center ^ 2 := by
  induction samples with
  | nil => simp [squaresAbout]
  | cons x rest ih =>
      simp only [squaresAbout, List.map_cons, List.sum_cons, List.length_cons] at ih ⊢
      rw [ih]
      push_cast
      ring

theorem average_perm (samples other : List K) (h : other.Perm samples) :
    average other = average samples := by
  rw [average, average, h.sum_eq, h.length_eq]

theorem dispersion_perm (samples other : List K) (h : other.Perm samples) :
    dispersion other = dispersion samples := by
  have hsquares : squaresAbout (average samples) other = squaresAbout (average samples) samples :=
    (h.map _).sum_eq
  rw [dispersion, dispersion, average_perm samples other h, h.length_eq, hsquares]

theorem sum_map_add (samples : List K) (shift : K) :
    (samples.map (· + shift)).sum = samples.sum + samples.length * shift := by
  simp [List.sum_map_add]

variable [CharZero K]

theorem length_ne_zero (samples : List K) (h : samples ≠ []) : (samples.length : K) ≠ 0 := by
  simpa using h

/-- The mean moves with the samples. -/
theorem average_map_add (samples : List K) (h : samples ≠ []) (shift : K) :
    average (samples.map (· + shift)) = average samples + shift := by
  have hlength := length_ne_zero samples h
  rw [average, average, sum_map_add, List.length_map]
  field_simp

/-- The deviations from the mean do not change if all samples are shifted. -/
theorem dispersion_map_add (samples : List K) (h : samples ≠ []) (shift : K) :
    dispersion (samples.map (· + shift)) = dispersion samples := by
  have hsquares : squaresAbout (average samples + shift) (samples.map (· + shift)) =
      squaresAbout (average samples) samples := by
    simp [squaresAbout, Function.comp_def]
  rw [dispersion, dispersion, average_map_add samples h, hsquares, List.length_map]

end Definitions

section Order

variable {K : Type} [Field K] [LinearOrder K] [IsStrictOrderedRing K]

theorem squaresAbout_nonneg (center : K) (samples : List K) : 0 ≤ squaresAbout center samples := by
  refine List.sum_nonneg fun square hsquare => ?_
  rcases List.mem_map.mp hsquare with ⟨x, -, rfl⟩
  exact sq_nonneg _

/-- There are no deviations from a number only if all samples are that number. -/
theorem squaresAbout_eq_zero_iff (center : K) (samples : List K) :
    squaresAbout center samples = 0 ↔ ∀ x ∈ samples, x = center := by
  induction samples with
  | nil => simp [squaresAbout]
  | cons x rest ih =>
      have hsplit : squaresAbout center (x :: rest) = (x - center) ^ 2 + squaresAbout center rest :=
        rfl
      rw [hsplit, add_eq_zero_iff_of_nonneg (sq_nonneg _) (squaresAbout_nonneg _ _), ih,
        List.forall_mem_cons, sq_eq_zero_iff, sub_eq_zero]

theorem dispersion_nonneg (samples : List K) (h : samples ≠ []) : 0 ≤ dispersion samples := by
  have hlength : (1 : K) ≤ samples.length := by
    exact_mod_cast Nat.one_le_iff_ne_zero.mpr (by simpa using h)
  unfold dispersion
  split
  · exact le_rfl
  · exact div_nonneg (squaresAbout_nonneg _ _) (by linarith)

/-- Equal samples have no other mean than themselves. -/
theorem average_of_forall_eq (samples : List K) (h : samples ≠ []) (center : K)
    (hsame : ∀ x ∈ samples, x = center) : average samples = center := by
  have hlength := length_ne_zero samples h
  rw [average, List.eq_replicate_of_mem hsame, List.sum_replicate, List.length_replicate,
    nsmul_eq_mul, mul_div_cancel_left₀ _ hlength]

/-- Only samples that are all equal do not vary. -/
theorem dispersion_eq_zero_iff (samples : List K) (h : samples ≠ []) :
    dispersion samples = 0 ↔ ∀ x ∈ samples, ∀ y ∈ samples, x = y := by
  have hmean : squaresAbout (average samples) samples = 0 ↔
      ∀ x ∈ samples, ∀ y ∈ samples, x = y := by
    rw [squaresAbout_eq_zero_iff]
    constructor
    · intro hsame x hx y hy
      rw [hsame x hx, hsame y hy]
    · intro hsame x hx
      exact (average_of_forall_eq samples h x fun y hy => hsame y hy x hx).symm
  by_cases hone : samples.length = 1
  · -- A single sample is equal to itself.
    rcases List.length_eq_one_iff.mp hone with ⟨x, rfl⟩
    simp [dispersion]
  · have hdegrees : (samples.length : K) - 1 ≠ 0 := by
      rw [sub_ne_zero]
      exact_mod_cast hone
    rw [dispersion, if_neg hone, div_eq_zero_iff, or_iff_left hdegrees, hmean]

end Order

section Computation

open RationalScalar (ofNat_eq zero_eq)

/-- An addition of quotients loses nothing, whichever operand is the smaller one. -/
theorem Accumulator.add_eq (acc : Accumulator ℚ) (x : ℚ) :
    acc.add x = ⟨acc.sum + x, acc.lost⟩ := by
  have hlost : ∀ first second : ℚ, first - (first + second) + second = 0 := by
    intro first second
    ring
  unfold Accumulator.add
  simp only
  congr 1
  split
  · change acc.lost + (acc.sum - (acc.sum + x) + x) = acc.lost
    rw [hlost, add_zero]
  · change acc.lost + (x - (acc.sum + x) + acc.sum) = acc.lost
    rw [add_comm acc.sum x, hlost, add_zero]

/-- The compensated sum is the sum, with nothing to compensate. -/
theorem Accumulator.foldl_add (samples : List ℚ) :
    ∀ acc : Accumulator ℚ,
      samples.foldl Accumulator.add acc = ⟨acc.sum + samples.sum, acc.lost⟩ := by
  induction samples with
  | nil => intro acc; simp
  | cons x rest ih =>
      intro acc
      rw [List.foldl_cons, ih, Accumulator.add_eq, List.sum_cons, ← add_assoc]

theorem sum_eq (samples : List ℚ) : sum samples = samples.sum := by
  rw [sum, Accumulator.foldl_add]
  change (Arithmetic.zero + samples.sum) + Arithmetic.zero = samples.sum
  rw [zero_eq, zero_add, add_zero]

/-- The computed mean is the mean. -/
theorem mean_eq (samples : List ℚ) (h : samples ≠ []) : mean samples = some (average samples) := by
  rw [mean, if_neg (by simpa using h), sum_eq, ofNat_eq]
  rfl

/-- Moments of the samples that have been met. -/
structure Moments.Of (m : Moments ℚ) (met : List ℚ) : Prop where
  count : m.count = met.length
  mean : m.mean * met.length = met.sum
  deviation : m.deviation = squaresAbout m.mean met

/-- No samples have no moments yet. -/
theorem Moments.of_nil : Moments.Of ⟨0, Arithmetic.zero, Arithmetic.zero⟩ [] where
  count := rfl
  mean := by simp
  deviation := by simp [squaresAbout]

/-- The moments stay those of the samples with one more of them. The deviations of the
    earlier samples are from another mean than before. -/
theorem Moments.Of.add (m : Moments ℚ) (met : List ℚ) (h : m.Of met) (x : ℚ) :
    (m.add x).Of (met ++ [x]) := by
  have hcount : (m.count : ℚ) = met.length := by exact_mod_cast h.count
  have hpositive : (met.length : ℚ) + 1 ≠ 0 := by positivity
  have hmean : (m.add x).mean = m.mean + (x - m.mean) / (met.length + 1) := by
    change m.mean + (x - m.mean) / Arithmetic.ofNat (m.count + 1) = _
    rw [ofNat_eq, Nat.cast_add_one, hcount]
  have hmoved : (m.add x).mean * (met.length + 1) = met.sum + x := by
    rw [hmean, ← h.mean]
    field_simp
    ring
  refine ⟨?_, ?_, ?_⟩
  · change m.count + 1 = _
    rw [h.count, List.length_append, List.length_singleton]
  · simpa using hmoved
  · have hdeviation : (m.add x).deviation = m.deviation + (x - m.mean) * (x - (m.add x).mean) := rfl
    have hold := squaresAbout_eq m.mean met
    have hnew := squaresAbout_eq (m.add x).mean (met ++ [x])
    simp only [List.map_append, List.sum_append, List.length_append, List.map_cons, List.map_nil,
      List.sum_cons, List.sum_nil, List.length_singleton, Nat.cast_add, Nat.cast_one] at hnew
    rw [hdeviation, h.deviation, hold, hnew, ← h.mean]
    rw [← h.mean] at hmoved
    linear_combination (m.mean - (m.add x).mean) * hmoved

/-- And so they do with all samples. -/
theorem Moments.Of.foldl (samples : List ℚ) :
    ∀ (m : Moments ℚ) (met : List ℚ), m.Of met →
      (samples.foldl Moments.add m).Of (met ++ samples) := by
  induction samples with
  | nil => intro m met h; simpa using h
  | cons x rest ih =>
      intro m met h
      have hrest := ih (m.add x) (met ++ [x]) (h.add m met x)
      rwa [List.append_assoc, List.singleton_append] at hrest

/-- The deviations that have been added up in the end are those from the mean. -/
theorem Moments.deviation_eq (samples : List ℚ) (h : samples ≠ []) :
    (samples.foldl Moments.add ⟨0, Arithmetic.zero, Arithmetic.zero⟩).deviation =
      squaresAbout (average samples) samples := by
  have hall := Moments.Of.foldl samples _ [] Moments.of_nil
  rw [List.nil_append] at hall
  rw [hall.deviation, average, ← hall.mean, mul_div_cancel_right₀ _ (length_ne_zero samples h)]

/-- The computed variance is the variance. -/
theorem sampleVariance_eq (samples : List ℚ) (h : samples ≠ []) :
    sampleVariance samples = some (dispersion samples) := by
  match samples with
  | [] => exact absurd rfl h
  | [x] => simp [sampleVariance, dispersion]
  | x :: y :: rest =>
      have hone : (x :: y :: rest).length ≠ 1 := by simp
      have hdegrees : (((x :: y :: rest).length - 1 : ℕ) : ℚ) = (x :: y :: rest).length - 1 := by
        simp
      rw [dispersion, if_neg hone, ← Moments.deviation_eq _ h, ← hdegrees, ← ofNat_eq]
      rfl

/-- The computed variance of the mean is the variance, divided by the number of samples. -/
theorem varianceOfMean_eq (samples : List ℚ) (h : samples ≠ []) :
    varianceOfMean samples = some (dispersion samples / samples.length) := by
  rw [varianceOfMean, sampleVariance_eq samples h, Option.map_some, ofNat_eq]

end Computation

/-- Mean and variances of exact samples are those of the definitions. So the order of the
    samples does not matter, the variances are not negative, zero only for samples that are
    all equal, and they do not change if all samples are shifted. -/
theorem moments_as_defined (samples : List ℚ) (h : samples ≠ []) :
    (mean samples = some (average samples) ∧
      sampleVariance samples = some (dispersion samples) ∧
      varianceOfMean samples = some (dispersion samples / samples.length)) ∧
    (∀ other, other.Perm samples → mean other = mean samples ∧
      sampleVariance other = sampleVariance samples ∧
      varianceOfMean other = varianceOfMean samples) ∧
    (∀ v, sampleVariance samples = some v ∨ varianceOfMean samples = some v →
      0 ≤ v ∧ (v = 0 ↔ ∀ x ∈ samples, ∀ y ∈ samples, x = y)) ∧
    ∀ shift, sampleVariance (samples.map (· + shift)) = sampleVariance samples ∧
      varianceOfMean (samples.map (· + shift)) = varianceOfMean samples := by
  have hlength := length_ne_zero samples h
  refine ⟨⟨mean_eq samples h, sampleVariance_eq samples h, varianceOfMean_eq samples h⟩, ?_, ?_, ?_⟩
  · intro other hperm
    have hother : other ≠ [] := fun hnil => h (List.perm_nil.mp (hnil ▸ hperm).symm)
    rw [mean_eq other hother, mean_eq samples h, sampleVariance_eq other hother,
      sampleVariance_eq samples h, varianceOfMean_eq other hother, varianceOfMean_eq samples h,
      average_perm samples other hperm, dispersion_perm samples other hperm, hperm.length_eq]
    exact ⟨rfl, rfl, rfl⟩
  · intro v hv
    rw [sampleVariance_eq samples h, varianceOfMean_eq samples h, Option.some.injEq,
      Option.some.injEq] at hv
    have hnonneg := dispersion_nonneg samples h
    have hzero := dispersion_eq_zero_iff samples h
    rcases hv with rfl | rfl
    · exact ⟨hnonneg, hzero⟩
    · -- The number of samples is positive, so dividing by it changes neither.
      rw [div_eq_zero_iff, or_iff_left hlength, hzero]
      exact ⟨div_nonneg hnonneg (Nat.cast_nonneg _), Iff.rfl⟩
  · intro shift
    have hshifted : samples.map (· + shift) ≠ [] := by simpa using h
    rw [sampleVariance_eq _ hshifted, sampleVariance_eq samples h, varianceOfMean_eq _ hshifted,
      varianceOfMean_eq samples h, dispersion_map_add samples h, List.length_map]
    exact ⟨rfl, rfl⟩

/-- Eight samples with mean five, whose squared deviations add up to thirty-two. -/
theorem moments_as_defined_eight :
    ([2, 4, 4, 4, 5, 5, 7, 9] : List ℚ) ≠ [] ∧
      mean ([2, 4, 4, 4, 5, 5, 7, 9] : List ℚ) = some 5 ∧
      sampleVariance ([2, 4, 4, 4, 5, 5, 7, 9] : List ℚ) = some (32 / 7) ∧
      varianceOfMean ([2, 4, 4, 4, 5, 5, 7, 9] : List ℚ) = some (4 / 7) := by
  have hne : ([2, 4, 4, 4, 5, 5, 7, 9] : List ℚ) ≠ [] := List.cons_ne_nil _ _
  rcases (moments_as_defined [2, 4, 4, 4, 5, 5, 7, 9] hne).1 with ⟨hmean, hvariance, hmeanVariance⟩
  have haverage : average ([2, 4, 4, 4, 5, 5, 7, 9] : List ℚ) = 5 := by norm_num [average]
  have hdispersion : dispersion ([2, 4, 4, 4, 5, 5, 7, 9] : List ℚ) = 32 / 7 := by
    norm_num [dispersion, haverage, squaresAbout]
  refine ⟨hne, by rw [hmean, haverage], by rw [hvariance, hdispersion], ?_⟩
  rw [hmeanVariance, hdispersion]
  norm_num

end Metrology.Statistics
