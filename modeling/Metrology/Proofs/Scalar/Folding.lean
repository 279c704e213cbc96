import Mathlib
import Metrology.Proofs.Unit.Derived

/-!
# Scalars that literals can be folded on

A derivative is simplified while it is built: operations on literals are carried
out, and what is zero is left out. What that asks of scalars is little. A zero
stays a zero under signs and sums, and under products and quotients with finite
scalars. A product of zero with an infinity is no zero, but then it is no finite
scalar either.

The powers of units are integers found with a tolerance. They must come out right
where a derivative changes an exponent: at one half, at zero, one and two.

## Main definitions

* `FoldingScalar`: What folding literals asks of scalars.

## Theorems

* `Double.isZero_iff`: The zeros among the doubles.
* `Double.mul_of_isZero`, `Double.div_of_isZero`: Products and quotients of zeros.
* `Double.scaledPower?_small`: Powers of units times one half, one and two.
-/

namespace Metrology

open Arithmetic (isZero equal ofDecimal zero one ofNat)

/-- What folding literals asks of scalars. -/
class FoldingScalar (α : Type) [Scalar α] : Prop extends UnitScalar α where
  isZero_zero : isZero (zero : α) = true
  isZero_one : isZero (one : α) = false
  isFinite_one : Scalar.isFinite (one : α) = true
  isZero_two : isZero (ofNat 2 : α) = false
  equal_two_one : equal (ofNat 2 : α) one = false
  isZero_neg (x : α) (hx : isZero x = true) : isZero (-x) = true
  isZero_add (x y : α) (hx : isZero x = true) (hy : isZero y = true) : isZero (x + y) = true
  isZero_sub (x y : α) (hx : isZero x = true) (hy : isZero y = true) : isZero (x - y) = true
  /-- A product with a zero is zero if the other factor or the product is finite. -/
  isZero_mul (x y : α) (hzero : isZero x = true ∨ isZero y = true)
    (hfinite : Scalar.isFinite x = true ∧ Scalar.isFinite y = true ∨
      Scalar.isFinite (x * y) = true) : isZero (x * y) = true
  isZero_div (x y : α) (hx : isZero x = true) (hy : isZero y = false)
    (hfinite : Scalar.isFinite y = true) : isZero (x / y) = true
  scaledPower?_half (power scaled : Int) (hlow : -128 ≤ power) (hhigh : power ≤ 127)
    (h : CompoundUnit.scaledPower? power (ofDecimal ⟨5, -1⟩ : α) = some scaled) :
    power = scaled * 2
  /-- Zero and one count as plain numbers, which are divided by the scale of no unit. -/
  scaledPower?_zero (power : Int) (x : α) (hlow : -128 ≤ power) (hhigh : power ≤ 127)
    (hx : isZero x = true) :
    CompoundUnit.scaledPower? power (CompoundUnit.none.ofBase x) = some 0
  scaledPower?_one (power : Int) (x : α) (hlow : -128 ≤ power) (hhigh : power ≤ 127)
    (hx : equal x one = true) :
    CompoundUnit.scaledPower? power (CompoundUnit.none.ofBase x) = some power
  scaledPower?_two (power : Int) (hlow : -128 ≤ power) (hhigh : power ≤ 127) :
    CompoundUnit.scaledPower? power (CompoundUnit.none.ofBase (ofNat 2 : α)) = some (power * 2)

namespace Double

open Float.Model in
/-- The zeros are the doubles that are read as a signed zero. -/
theorem isZero_iff (x : Float) : isZero x = true ↔ ∃ sign, x.toModel.unpack = .zero sign := by
  have hzero : (zero : Float).toModel.unpack = .zero .positive := rfl
  have hequal : isZero x = x.toModel.unpack.beq (zero : Float).toModel.unpack := rfl
  rw [hequal, hzero]
  cases x.toModel.unpack with
  | notANumber => simp [UnpackedFloat.beq, UnpackedFloat.compare]
  | infinity s => cases s <;> simp [UnpackedFloat.beq, UnpackedFloat.compare]
  | zero s => exact ⟨fun _ => ⟨s, rfl⟩, fun _ => rfl⟩
  | finite s m e hm => cases s <;> simp [UnpackedFloat.beq, UnpackedFloat.compare]

open Float.Model in
/-- A double that equals one is read as one. -/
theorem unpack_of_equal_one (x : Float) (h : equal x one = true) :
    x.toModel.unpack = (1 : Float).toModel.unpack := by
  have hone : (one : Float).toModel.unpack = .finite .positive (2 ^ 52) (-52) (by decide) := rfl
  have hone' : (1 : Float).toModel.unpack = .finite .positive (2 ^ 52) (-52) (by decide) := rfl
  have hequal : equal x one = x.toModel.unpack.beq (one : Float).toModel.unpack := rfl
  rw [hequal, hone] at h
  rw [hone']
  cases hunpack : x.toModel.unpack with
  | notANumber =>
      rw [hunpack] at h
      cases h
  | infinity s =>
      rw [hunpack] at h
      cases s <;> cases h
  | zero s =>
      rw [hunpack] at h
      cases h
  | finite s m e hm =>
      rw [hunpack] at h
      cases s with
      | negative => simp [UnpackedFloat.beq, UnpackedFloat.compare] at h
      | positive =>
          simp only [UnpackedFloat.beq, UnpackedFloat.compare, beq_iff_eq, Option.some.injEq] at h
          simp [Ordering.then_eq_eq] at h
          simp [h]

/-- The zero with a sign. -/
def signedZero (sign : Float.Model.UnpackedFloat.Sign) : Float := ⟨Float.Model.pack (.zero sign)⟩

theorem isZero_signedZero (sign : Float.Model.UnpackedFloat.Sign) :
    isZero (signedZero sign) = true := by
  cases sign <;> rfl

open Float.Model in
/-- What a zero times a double is, on either side. -/
theorem mul_of_isZero (x y : Float) (hx : isZero x = true) :
    if y.isFinite then (∃ sign, x * y = signedZero sign) ∧ ∃ sign, y * x = signedZero sign
    else (x * y).isFinite = false ∧ (y * x).isFinite = false := by
  have hmul : ∀ a b : Float,
      a * b = ⟨pack (.mul .binary64 a.toModel.unpack b.toModel.unpack)⟩ := fun _ _ => rfl
  have hfinite : y.isFinite = y.toModel.unpack.isFinite := rfl
  have hundefined : (⟨pack .notANumber⟩ : Float).isFinite = false := rfl
  rcases (isZero_iff x).mp hx with ⟨sign, hsign⟩
  rw [hfinite, hmul, hmul, hsign]
  cases y.toModel.unpack with
  | notANumber => exact ⟨hundefined, hundefined⟩
  | infinity s => exact ⟨hundefined, hundefined⟩
  | zero s => exact ⟨⟨_, rfl⟩, ⟨_, rfl⟩⟩
  | finite s m e hm => exact ⟨⟨_, rfl⟩, ⟨_, rfl⟩⟩

open Float.Model in
/-- Zero divided by a finite double is zero, unless that is zero as well. -/
theorem div_of_isZero (x y : Float) (hx : isZero x = true) (hy : isZero y = false)
    (hfinite : y.isFinite = true) : isZero (x / y) = true := by
  have hdiv : x / y = ⟨pack (.div .binary64 x.toModel.unpack y.toModel.unpack)⟩ := rfl
  have hfinite : y.toModel.unpack.isFinite = true := hfinite
  rcases (isZero_iff x).mp hx with ⟨sign, hsign⟩
  rw [← Bool.not_eq_true, isZero_iff] at hy
  rw [hdiv, hsign]
  cases hunpack : y.toModel.unpack with
  | notANumber =>
      rw [hunpack] at hfinite
      cases hfinite
  | infinity s =>
      rw [hunpack] at hfinite
      cases hfinite
  | zero s => exact absurd ⟨s, hunpack⟩ hy
  | finite s m e hm => exact isZero_signedZero _

/-- Powers of units times one half, one and two. -/
theorem scaledPower?_small :
    CompoundUnit.scaledPower? (-128) (ofDecimal ⟨5, -1⟩ : Float) = some (-64) ∧
      (∀ n ∈ List.range 128,
        CompoundUnit.scaledPower? (2 * (n : Int) - 127) (ofDecimal ⟨5, -1⟩ : Float) = none) ∧
      (∀ n ∈ List.range 256,
        CompoundUnit.scaledPower? ((n : Int) - 128) (CompoundUnit.none.ofBase (1 : Float)) =
          some ((n : Int) - 128)) ∧
      ∀ n ∈ List.range 256,
        CompoundUnit.scaledPower? ((n : Int) - 128) (CompoundUnit.none.ofBase (ofNat 2 : Float)) =
          some (((n : Int) - 128) * 2) := by
  refine ⟨?_, ?_, ?_, ?_⟩ <;> decide +kernel

theorem isFinite_small : ∀ n ∈ List.range 256,
    (Arithmetic.ofInt ((n : Int) - 128) : Float).isFinite = true := by
  decide +kernel

/-- What holds of the small integers holds of the powers of units. -/
theorem of_bounds (holds : Int → Prop) (h : ∀ n ∈ List.range 256, holds ((n : Int) - 128))
    (power : Int) (hlow : -128 ≤ power) (hhigh : power ≤ 127) : holds power := by
  have hpower := h (power + 128).toNat (List.mem_range.mpr (by omega))
  rwa [Int.toNat_of_nonneg (by omega), Int.add_sub_cancel] at hpower

theorem scaledPower?_of_isZero (power : Int) (x : Float) (hlow : -128 ≤ power)
    (hhigh : power ≤ 127) (hx : isZero x = true) :
    CompoundUnit.scaledPower? power (CompoundUnit.none.ofBase x) = some 0 := by
  have hpower := of_bounds (fun power => (Arithmetic.ofInt power : Float).isFinite = true)
    isFinite_small power hlow hhigh
  have hplain : isZero (CompoundUnit.none.ofBase x) = true :=
    div_of_isZero x one hx rfl rfl
  have hproduct := mul_of_isZero _ (Arithmetic.ofInt power) hplain
  rw [if_pos hpower] at hproduct
  rcases hproduct.2 with ⟨sign, hsign⟩
  rw [CompoundUnit.scaledPower?, hsign]
  cases sign <;> decide +kernel

open Float.Model in
theorem scaledPower?_of_equal_one (power : Int) (x : Float) (hlow : -128 ≤ power)
    (hhigh : power ≤ 127) (hx : equal x one = true) :
    CompoundUnit.scaledPower? power (CompoundUnit.none.ofBase x) = some power := by
  have hdiv : ∀ y : Float, CompoundUnit.none.ofBase y =
      ⟨pack (.div .binary64 y.toModel.unpack (one : Float).toModel.unpack)⟩ := fun _ => rfl
  rw [hdiv, unpack_of_equal_one x hx, ← hdiv]
  exact of_bounds
    (fun power => CompoundUnit.scaledPower? power (CompoundUnit.none.ofBase (1 : Float)) =
      some power) scaledPower?_small.2.2.1 power hlow hhigh

end Double

/-- Literals can be folded on doubles. -/
instance : FoldingScalar Float where
  isZero_zero := rfl
  isZero_one := rfl
  isFinite_one := rfl
  isZero_two := rfl
  equal_two_one := rfl
  isZero_neg x hx := by
    have hneg : -x = ⟨Float.Model.pack x.toModel.unpack.neg⟩ := rfl
    rcases (Double.isZero_iff x).mp hx with ⟨sign, hsign⟩
    rw [hneg, hsign]
    exact Double.isZero_signedZero _
  isZero_add x y hx hy := by
    have hadd : x + y = ⟨Float.Model.pack (.add .binary64 x.toModel.unpack y.toModel.unpack)⟩ := rfl
    rcases (Double.isZero_iff x).mp hx with ⟨sign, hsign⟩
    rcases (Double.isZero_iff y).mp hy with ⟨sign', hsign'⟩
    rw [hadd, hsign, hsign']
    cases sign <;> cases sign' <;> exact Double.isZero_signedZero _
  isZero_sub x y hx hy := by
    have hsub : x - y = ⟨Float.Model.pack (.sub .binary64 x.toModel.unpack y.toModel.unpack)⟩ := rfl
    rcases (Double.isZero_iff x).mp hx with ⟨sign, hsign⟩
    rcases (Double.isZero_iff y).mp hy with ⟨sign', hsign'⟩
    rw [hsub, hsign, hsign']
    cases sign <;> cases sign' <;> exact Double.isZero_signedZero _
  isZero_mul x y hzero hfinite := by
    rcases hzero with hx | hy
    · have hproduct := Double.mul_of_isZero x y hx
      split at hproduct
      · rcases hproduct.1 with ⟨sign, hsign⟩
        rw [hsign, Double.isZero_signedZero]
      · next hy =>
        rcases hfinite with ⟨-, h⟩ | h
        · exact absurd h hy
        · exact absurd (hproduct.1.symm.trans h) Bool.false_ne_true
    · have hproduct := Double.mul_of_isZero y x hy
      split at hproduct
      · rcases hproduct.2 with ⟨sign, hsign⟩
        rw [hsign, Double.isZero_signedZero]
      · next hx =>
        rcases hfinite with ⟨h, -⟩ | h
        · exact absurd h hx
        · exact absurd (hproduct.2.symm.trans h) Bool.false_ne_true
  isZero_div := Double.div_of_isZero
  scaledPower?_half power scaled hlow hhigh h := by
    rcases Int.even_or_odd' power with ⟨k, rfl | rfl⟩
    · by_cases hleast : k = -64
      · rw [hleast, show (2 * -64 : Int) = -128 from rfl, Double.scaledPower?_small.1,
          Option.some.injEq] at h
        omega
      · rw [mul_comm, UnitScalar.half_double k (by omega) (by omega), Option.some.injEq] at h
        omega
    · have hodd := Double.scaledPower?_small.2.1 (k + 64).toNat
        (List.mem_range.mpr (by omega))
      rw [show 2 * ((k + 64).toNat : Int) - 127 = 2 * k + 1 by omega, h] at hodd
      cases hodd
  scaledPower?_zero := Double.scaledPower?_of_isZero
  scaledPower?_one := Double.scaledPower?_of_equal_one
  scaledPower?_two :=
    Double.of_bounds
      (fun power => CompoundUnit.scaledPower? power
        (CompoundUnit.none.ofBase (ofNat 2 : Float)) = some (power * 2))
      Double.scaledPower?_small.2.2.2

end Metrology
