import Metrology.Proofs.Expr.PartialDerivative

/-!
# The chain rule for substituted formulas

A formula in which symbols are replaced by formulas denotes a composition of
functions. If only one of the replaced symbols depends on a variable, its
partial derivative is a product of two: that of the formula with respect to the
symbol, at the numbers that stand for the symbols, and that of what replaces the
symbol.

Smoothness goes the other way. The nodes of the composed formula are those of the
formula and those of what replaces its symbols, at the same numbers. So where the
composed formula is smooth, its parts are.

## Theorems

* `Expr.mentions_substitute`: What is mentioned after substitution.
* `Expr.Smooth.outer`, `Expr.Smooth.inner`: The parts of a smooth composition are
  smooth.
* `Expr.hasDerivAt_substitute`: The chain rule.
-/

namespace Metrology.Expr

/-- What is mentioned after substitution is mentioned by what replaces a symbol. -/
theorem mentions_substitute {α : Type} (part : String → Expr α) (name : String) (tree : Expr α) :
    (tree.substitute part).mentions name = true ↔
      ∃ symbol, tree.mentions symbol = true ∧ (part symbol).mentions name = true := by
  induction tree with
  | number value => simp [substitute, mentions]
  | symbol other => simp [substitute, mentions]
  | binary op left right ihl ihr =>
      rw [substitute, mentions, Bool.or_eq_true, ihl, ihr, ← exists_or]
      refine exists_congr fun symbol => ?_
      rw [mentions, Bool.or_eq_true, or_and_right]
  | negate operand ih => exact ih
  | call function argument ih => exact ih

variable (part : String → Expr ℝ) (point : String → ℝ)

/-- Where a composition is smooth in a variable, the formula is smooth in each symbol
    that depends on the variable. -/
theorem Smooth.outer (symbol target : String) (tree : Expr ℝ)
    (h : (tree.substitute part).Smooth target point)
    (hdepends : (part symbol).mentions target = true) :
    tree.Smooth symbol fun name => (part name).denote point := by
  induction tree with
  | number value => exact True.intro
  | symbol name => exact True.intro
  | binary op left right ihl ihr =>
      rcases h with ⟨hl, hr, hdivisor, hbase⟩
      rw [denote_substitute] at hdivisor
      rw [denote_substitute, denote_substitute] at hbase
      refine ⟨ihl hl, ihr hr, hdivisor, fun hop => ?_⟩
      rcases hbase hop with hpositive | ⟨hnonzero, hconstant, hinteger⟩
      · exact Or.inl hpositive
      · -- An exponent with the symbol would depend on the variable.
        refine Or.inr ⟨hnonzero, Bool.eq_false_iff.mpr (fun hmentions => ?_), hinteger⟩
        have hvaries := (mentions_substitute part target right).mpr ⟨symbol, hmentions, hdepends⟩
        rw [hconstant] at hvaries
        cases hvaries
  | negate operand ih => exact ih h
  | call function argument ih =>
      rw [substitute, Smooth, denote_substitute] at h
      exact ⟨ih h.1, h.2⟩

/-- Where a composition is smooth, what replaces its symbols is. -/
theorem Smooth.inner (symbol target : String) (tree : Expr ℝ)
    (h : (tree.substitute part).Smooth target point) (hmentions : tree.mentions symbol = true) :
    (part symbol).Smooth target point := by
  induction tree with
  | number value => cases hmentions
  | symbol name => exact of_decide_eq_true hmentions ▸ h
  | binary op left right ihl ihr =>
      rw [mentions, Bool.or_eq_true] at hmentions
      exact hmentions.elim (ihl h.1) (ihr h.2.1)
  | negate operand ih => exact ih h hmentions
  | call function argument ih => exact ih h.1 hmentions

/-- The chain rule, where one symbol only depends on the variable. -/
theorem hasDerivAt_substitute (symbol target : String) (tree : Expr ℝ) (outer inner : ℝ)
    (houter : HasDerivAt (tree.denoteAlong symbol fun name => (part name).denote point) outer
      ((part symbol).denote point))
    (hinner : HasDerivAt ((part symbol).denoteAlong target point) inner (point target))
    (hothers : ∀ name, tree.mentions name = true → name ≠ symbol →
      (part name).mentions target = false) :
    HasDerivAt ((tree.substitute part).denoteAlong target point) (outer * inner)
      (point target) := by
  have hcomposition : (tree.substitute part).denoteAlong target point =
      tree.denoteAlong symbol (fun name => (part name).denote point) ∘
        (part symbol).denoteAlong target point := by
    funext x
    rw [denoteAlong, denote_substitute]
    refine denote_congr _ _ tree (fun name hname => ?_)
    by_cases hsame : name = symbol
    · rw [hsame, Function.update_self]
      rfl
    · rw [Function.update_of_ne hsame]
      exact congrFun (denoteAlong_const target point _ (hothers name hname hsame)) x
  rw [hcomposition]
  rw [← denoteAlong_self target point (part symbol)] at houter
  exact houter.comp (point target) hinner

end Metrology.Expr
