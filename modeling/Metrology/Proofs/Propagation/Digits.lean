import Mathlib.Order.Lattice.Nat
import Metrology.Proofs.Propagation.Graph

/-!
# Counts of digits

The count of digits of a measurement is the least one where counting stops. It stops at
direct measurements, with the digits of their samples, and at formulas that depend on
constants only, with no digits at all. Those formulas count nothing by themselves, as they
should. But their zero is compared with the digits of the samples as if it were measured.
So the count is the one of the least precise samples as long as no such formula is
reached, and otherwise it is zero.

Counting asks for every dependency. So the recursion has the shape of the graph below the
measurement, which `Graph.HasDigits` repeats without path and fuel.

## Main definitions

* `Graph.HasDigits`: The count of digits, level by level.
* `Graph.Leaf`: Where counting stops.
* `Graph.leastDigits`: The fewest digits of the samples below a measurement.

## Theorems

* `Evaluation.minDigits_meets`: What is counted is the count.
* `Graph.HasDigits.isLeast`: The count is the least one of the leaves.
* `Graph.eq_leastDigits_iff`: When that is the least one of the samples.
* `Propagator.minDigits_least`: Counts of digits are the least of the leaves, and of the
  samples where no formula of constants is in between.
-/

namespace Metrology

variable {σ α : Type}

namespace Graph

/-- The count of digits of a measurement. A composite measurement has the fewest of its
    dependencies, and none without dependencies. -/
inductive HasDigits (g : Graph α) : Measurement α → Nat → Prop
  | direct (m : DirectMeasurement α) : HasDigits g (.direct m) m.minDigits
  | composite (m : CompositeMeasurement) (counted : List (Measurement α × Nat))
      (hdependencies : g.dependencies m = .ok (counted.map Prod.fst))
      (hcounted : ∀ entry ∈ counted, HasDigits g entry.1 entry.2) :
      HasDigits g (.composite m) ((counted.map Prod.snd).min?.getD 0)

/-- Where counting stops, and with how many digits: at a direct measurement, and at a
    formula that depends on constants only. -/
inductive Leaf (g : Graph α) : Measurement α → Nat → Prop
  | direct (m : DirectMeasurement α) : Leaf g (.direct m) m.minDigits
  | constants (m : CompositeMeasurement) (hdependencies : g.dependencies m = .ok []) :
      Leaf g (.composite m) 0

/-- The fewest digits of the direct measurements that are reached, and zero if there is
    none. -/
noncomputable def leastDigits (g : Graph α) (m : Measurement α) : Nat :=
  sInf {n | ∃ d, g.Reaches m (.direct d) ∧ d.minDigits = n}

/-- The least of several counts is one of them. -/
theorem exists_count_of_min? (counted : List (Measurement α × Nat)) (n : Nat)
    (h : (counted.map Prod.snd).min? = some n) : ∃ entry ∈ counted, entry.2 = n :=
  List.mem_map.mp (List.min?_mem h)

/-- The count is the least one of the leaves below. -/
theorem HasDigits.isLeast (g : Graph α) (hids : g.DistinctIds) (m : Measurement α) (digits : Nat)
    (h : g.HasDigits m digits) :
    IsLeast {n | ∃ leaf, g.Reaches m leaf ∧ g.Leaf leaf n} digits := by
  induction h with
  | direct d =>
      refine ⟨⟨.direct d, .refl, .direct d⟩, ?_⟩
      rintro n ⟨leaf, hreaches, hleaf⟩
      -- A direct measurement reaches nothing but itself.
      rcases Relation.ReflTransGen.cases_head hreaches with rfl | ⟨next, href, -⟩
      · cases hleaf
        exact Nat.le_refl _
      · exact href.elim
  | composite m counted hdependencies hcounted ih =>
      cases hmin : (counted.map Prod.snd).min? with
      | none =>
          -- Nothing is counted, so the formula depends on constants only.
          have hnil : counted = [] := List.map_eq_nil_iff.mp (List.min?_eq_none_iff.mp hmin)
          subst hnil
          exact ⟨⟨.composite m, .refl, .constants m hdependencies⟩, fun _ _ => Nat.zero_le _⟩
      | some least =>
          have hle : ∀ entry ∈ counted, least ≤ entry.2 := by
            intro entry hentry
            exact ((List.min?_eq_some_iff.mp hmin).2) _ (List.mem_map_of_mem hentry)
          constructor
          · rcases exists_count_of_min? counted least hmin with ⟨entry, hentry, rfl⟩
            rcases (ih entry hentry).1 with ⟨leaf, hreaches, hleaf⟩
            have href := g.references_of_mem_dependencies m _ hdependencies entry.1
              (List.mem_map_of_mem hentry)
            exact ⟨leaf, .head href hreaches, hleaf⟩
          · rintro n ⟨leaf, hreaches, hleaf⟩
            rcases Relation.ReflTransGen.cases_head hreaches with rfl | ⟨next, href, hrest⟩
            · -- With something counted the formula is no leaf.
              cases hleaf with
              | constants m hnone =>
                  rw [hnone, Except.ok.injEq, eq_comm, List.map_eq_nil_iff] at hdependencies
                  subst hdependencies
                  cases hmin
            · have hnext := (g.mem_dependencies_iff hids m _ hdependencies next).mpr href
              rcases List.mem_map.mp hnext with ⟨entry, hentry, rfl⟩
              exact (hle entry hentry).trans ((ih entry hentry).2 ⟨leaf, hrest, hleaf⟩)

/-- The least one of the leaves is the least one of the samples exactly if no formula of
    constants is reached, or the samples have no digits either. -/
theorem eq_leastDigits_iff (g : Graph α) (m : Measurement α) (digits : Nat)
    (h : IsLeast {n | ∃ leaf, g.Reaches m leaf ∧ g.Leaf leaf n} digits) :
    digits = g.leastDigits m ↔
      (∀ c, g.Reaches m (.composite c) → g.dependencies c ≠ .ok []) ∨ g.leastDigits m = 0 := by
  constructor
  · intro heq
    refine or_iff_not_imp_left.mpr fun hconstants => ?_
    push Not at hconstants
    rcases hconstants with ⟨c, hreaches, hc⟩
    have hzero : digits ≤ 0 := h.2 ⟨.composite c, hreaches, .constants c hc⟩
    omega
  · rintro (hnone | hzero)
    · -- The leaves are the direct measurements.
      have hsamples : {n | ∃ leaf, g.Reaches m leaf ∧ g.Leaf leaf n} =
          {n | ∃ d, g.Reaches m (.direct d) ∧ d.minDigits = n} := by
        ext n
        constructor
        · rintro ⟨leaf, hreaches, hleaf⟩
          cases hleaf with
          | direct d => exact ⟨d, hreaches, rfl⟩
          | constants c hc => exact absurd hc (hnone c hreaches)
        · rintro ⟨d, hreaches, rfl⟩
          exact ⟨.direct d, hreaches, .direct d⟩
      rw [hsamples] at h
      exact h.csInf_eq.symm
    · rw [hzero]
      rcases h.1 with ⟨leaf, hreaches, hleaf⟩
      cases hleaf with
      | constants c hc => rfl
      | direct d =>
          -- The least of the samples is there, and it has no digits.
          have hleast : g.leastDigits m ∈ {n | ∃ d, g.Reaches m (.direct d) ∧ d.minDigits = n} :=
            Nat.sInf_mem ⟨d.minDigits, d, hreaches, rfl⟩
          rcases hleast with ⟨other, hother, hdigits⟩
          have hle : d.minDigits ≤ other.minDigits := h.2 ⟨.direct other, hother, .direct other⟩
          omega

end Graph

namespace Evaluation

/-- What is counted is the count, on every path and with every amount of fuel. -/
theorem minDigits_meets (g : Graph α) (known : RecordId → Option (Quantity α) → Prop)
    (fuel : Nat) : ∀ path m, Meets (Context.Follows (σ := σ) known path) (minDigits g fuel m)
      (g.HasDigits m) (fun _ => True) := by
  induction fuel with
  | zero =>
      intro path m
      cases m with
      | direct m => exact Meets.pure _ _ (.direct m)
      | composite m => exact Meets.cycle path m _ trivial
  | succ fuel ih =>
      intro path m
      cases m with
      | direct m => exact Meets.pure _ _ (.direct m)
      | composite m =>
          refine Meets.within path m _ _ (fun _ => trivial) fun _ => ?_
          refine Meets.bind _ _ (fun dependencies => g.dependencies m = .ok dependencies) _
            (Meets.ofExcept _ _ (fun _ h => h) (fun _ _ => trivial)) ?_
          intro dependencies hdependencies
          refine Meets.bind _ _ _ _ (Meets.fewest _ g.HasDigits dependencies none
            fun dependency _ => ih (path ++ [m]) dependency) ?_
          rintro digits ⟨counted, rfl, hcounted, rfl⟩
          exact Meets.pure _ _ (.composite m counted hdependencies hcounted)

end Evaluation

namespace Propagator

open Evaluation

/-- A count of digits is the least one of the leaves that are reached. It is the one of
    the least precise samples exactly if no formula of constants is reached, or there are
    samples without digits or no direct measurements at all. -/
theorem minDigits_least (constants : Bindings α) (all : List (Measurement α))
    (hids : (all.map Measurement.id).Nodup) (m : Measurement α) (digits : Nat)
    (h : Propagator.minDigits constants m all = .ok digits) :
    IsLeast {n | ∃ leaf, (⟨all, constants⟩ : Graph α).Reaches m leaf ∧
        (⟨all, constants⟩ : Graph α).Leaf leaf n} digits ∧
      (digits = (⟨all, constants⟩ : Graph α).leastDigits m ↔
        (∀ c, (⟨all, constants⟩ : Graph α).Reaches m (.composite c) →
          (⟨all, constants⟩ : Graph α).dependencies c ≠ .ok []) ∨
        (⟨all, constants⟩ : Graph α).leastDigits m = 0) := by
  let g : Graph α := ⟨all, constants⟩
  have hcount : g.HasDigits m digits :=
    ((minDigits_meets g (fun _ _ => True) (g.depth m) [] m).outcome _ _ _
      (Meets.follows_fresh (⟨⟩ : NoMemory α))).1 digits h
  have hleast := hcount.isLeast g hids m digits
  exact ⟨hleast, g.eq_leastDigits_iff m digits hleast⟩

/-- A length of three digits, a formula of constants, and their product. -/
def turned : List (Measurement Float) :=
  [.direct { DirectMeasurement.empty ⟨1⟩ "x" "m" with values := [1.23], minDigits := 3 },
    .composite ⟨⟨2⟩, ⟨"c"⟩, ⟨"2 pi"⟩⟩, .composite ⟨⟨3⟩, ⟨"z"⟩, ⟨"c*x"⟩⟩]

/-- The least precise samples below the product have three digits. -/
theorem leastDigits_turned :
    (⟨turned, Bindings.empty⟩ : Graph Float).leastDigits
      (.composite ⟨⟨3⟩, ⟨"z"⟩, ⟨"c*x"⟩⟩) = 3 := by
  let g : Graph Float := ⟨turned, Bindings.empty⟩
  let z : CompositeMeasurement := ⟨⟨3⟩, ⟨"z"⟩, ⟨"c*x"⟩⟩
  let x : DirectMeasurement Float :=
    { DirectMeasurement.empty ⟨1⟩ "x" "m" with values := [1.23], minDigits := 3 }
  have hids : (turned.map Measurement.id).Nodup := by decide
  have hz : .composite z ∈ g.measurements :=
    List.mem_cons_of_mem _ (List.mem_cons_of_mem _ List.mem_cons_self)
  -- The length is the one direct measurement there is, and the product mentions it.
  have honly : ∀ d, g.Reaches (.composite z) (.direct d) → d.minDigits = 3 := by
    intro d hreaches
    have hmem := hreaches.mem g _ _ hz
    have hsame : d = x := by simpa [g, turned] using hmem
    rw [hsame]
  have hdependencies : g.dependencies z =
      .ok [.composite ⟨⟨2⟩, ⟨"c"⟩, ⟨"2 pi"⟩⟩, .direct x] :=
    g.dependencies_eq_of_ids hids z _ (by simp [g, turned, x]) (by decide +kernel)
  have href := g.references_of_mem_dependencies z _ hdependencies (.direct x)
    (List.mem_cons_of_mem _ List.mem_cons_self)
  have hleast : IsLeast {n | ∃ d, g.Reaches (.composite z) (.direct d) ∧ d.minDigits = n} 3 := by
    refine ⟨⟨x, .single href, rfl⟩, ?_⟩
    rintro n ⟨d, hreaches, rfl⟩
    exact (honly d hreaches).ge
  exact hleast.csInf_eq

/-- The product counts no digits at all, because it reaches a formula of constants. -/
theorem minDigits_least_turned :
    Propagator.minDigits Bindings.empty (.composite ⟨⟨3⟩, ⟨"z"⟩, ⟨"c*x"⟩⟩) turned = .ok 0 ∧
      (⟨turned, Bindings.empty⟩ : Graph Float).leastDigits (.composite ⟨⟨3⟩, ⟨"z"⟩, ⟨"c*x"⟩⟩) = 3 ∧
      ∃ c, (⟨turned, Bindings.empty⟩ : Graph Float).Reaches (.composite ⟨⟨3⟩, ⟨"z"⟩, ⟨"c*x"⟩⟩)
          (.composite c) ∧
        (⟨turned, Bindings.empty⟩ : Graph Float).dependencies c = .ok [] := by
  have hcount : Propagator.minDigits Bindings.empty (.composite ⟨⟨3⟩, ⟨"z"⟩, ⟨"c*x"⟩⟩) turned =
      .ok 0 := Outcome.eq_ok_of_toOption _ _ (by decide +kernel)
  have hleast := minDigits_least Bindings.empty turned (by decide)
    (.composite ⟨⟨3⟩, ⟨"z"⟩, ⟨"c*x"⟩⟩) 0 hcount
  refine ⟨hcount, leastDigits_turned, ?_⟩
  by_contra hnone
  push Not at hnone
  have hsame := hleast.2.mpr (Or.inl hnone)
  rw [leastDigits_turned] at hsame
  cases hsame

end Propagator

end Metrology
