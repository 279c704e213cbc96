import Metrology.Expr.Derivative

/-!
# Symbols of derivatives

A derivative is put together from parts of the formula and from literals, and
simplification drops parts but adds none. So a derivative mentions no symbol that
the formula does not mention, and what is known of the symbols of a formula is
known of those of its derivatives.

## Main definitions

* `Expr.MentionsOnly`: Only names of a kind are mentioned.

## Theorems

* `Expr.MentionsOnly.add`, `Expr.MentionsOnly.mul`, …: Simplified operations
  mention what their operands mention.
* `Expr.MentionsOnly.differentiate`: A derivative mentions no new symbols.
-/

namespace Metrology.Expr

variable {α : Type} [Scalar α] {allowed : String → Prop} {a b : Expr α}

/-- Only names of a kind are mentioned. -/
def MentionsOnly (allowed : String → Prop) (tree : Expr α) : Prop :=
  ∀ name, tree.mentions name = true → allowed name

omit [Scalar α] in
theorem MentionsOnly.number (x : α) : (Expr.number x).MentionsOnly allowed :=
  fun _ h => by cases h

omit [Scalar α] in
theorem MentionsOnly.call (function : String) (ha : a.MentionsOnly allowed) :
    (Expr.call function a).MentionsOnly allowed := ha

omit [Scalar α] in
theorem mentionsOnly_binary (op : BinaryOp) :
    (Expr.binary op a b).MentionsOnly allowed ↔ a.MentionsOnly allowed ∧ b.MentionsOnly allowed := by
  simp only [MentionsOnly, mentions, Bool.or_eq_true, or_imp, forall_and]

theorem MentionsOnly.neg (ha : a.MentionsOnly allowed) : (Simplified.neg a).MentionsOnly allowed := by
  unfold Simplified.neg
  split <;> exact ha

theorem MentionsOnly.add (ha : a.MentionsOnly allowed) (hb : b.MentionsOnly allowed) :
    (Simplified.add a b).MentionsOnly allowed := by
  unfold Simplified.add
  grind [MentionsOnly.number, mentionsOnly_binary]

theorem MentionsOnly.sub (ha : a.MentionsOnly allowed) (hb : b.MentionsOnly allowed) :
    (Simplified.sub a b).MentionsOnly allowed := by
  unfold Simplified.sub
  grind [MentionsOnly.number, mentionsOnly_binary, MentionsOnly.neg]

theorem MentionsOnly.mul (ha : a.MentionsOnly allowed) (hb : b.MentionsOnly allowed) :
    (Simplified.mul a b).MentionsOnly allowed := by
  unfold Simplified.mul
  grind [MentionsOnly.number, mentionsOnly_binary, MentionsOnly.neg]

theorem MentionsOnly.div (ha : a.MentionsOnly allowed) (hb : b.MentionsOnly allowed) :
    (Simplified.div a b).MentionsOnly allowed := by
  unfold Simplified.div
  grind [MentionsOnly.number, mentionsOnly_binary]

theorem MentionsOnly.pow (ha : a.MentionsOnly allowed) (hb : b.MentionsOnly allowed) :
    (Simplified.pow a b).MentionsOnly allowed := by
  unfold Simplified.pow
  grind [MentionsOnly.number, mentionsOnly_binary]

theorem MentionsOnly.outerDerivative (function : String) (ha : a.MentionsOnly allowed) :
    (outerDerivative function a).MentionsOnly allowed := by
  have hone : (Expr.number Arithmetic.one : Expr α).MentionsOnly allowed := .number _
  have htwo : (Expr.number (Arithmetic.ofNat 2) : Expr α).MentionsOnly allowed := .number _
  unfold Expr.outerDerivative
  split
  case h_2 => exact (ha.call "sin").neg
  case h_3 => exact hone.div ((ha.call "cos").pow htwo)
  case h_4 => exact hone.div ((hone.sub (ha.pow htwo)).call "sqrt")
  case h_5 => exact (hone.div ((hone.sub (ha.pow htwo)).call "sqrt")).neg
  case h_6 => exact hone.div (hone.add (ha.pow htwo))
  case h_7 => exact hone.div (htwo.mul (ha.call "sqrt"))
  case h_8 => exact ha.div (ha.call "abs")
  case h_9 => exact hone.div ha
  case h_10 => exact hone.div ha
  case h_11 => exact hone.div (ha.mul ((MentionsOnly.number _).call "ln"))
  all_goals exact ha.call _

/-- A derivative mentions no new symbols. -/
theorem MentionsOnly.differentiate (target : String) (tree : Expr α)
    (h : tree.MentionsOnly allowed) : (tree.differentiate target).MentionsOnly allowed := by
  induction tree with
  | number value => exact .number _
  | symbol name => exact .number _
  | binary op left right ihl ihr =>
      rw [mentionsOnly_binary] at h
      have hl := ihl h.1
      have hr := ihr h.2
      cases op with
      | add => exact hl.add hr
      | sub => exact hl.sub hr
      | mul => exact (hl.mul h.2).add (h.1.mul hr)
      | div =>
          rw [Expr.differentiate]
          split
          · exact ((hl.mul h.2).sub (h.1.mul hr)).div (h.2.pow (.number _))
          · exact hl.div h.2
      | pow =>
          have hlog := h.1.call "ln"
          rw [Expr.differentiate]
          unfold powerDerivative
          split
          · exact .number _
          · exact (h.2.mul (h.1.pow (h.2.sub (.number _)))).mul hl
          · exact ((h.1.pow h.2).mul hlog).mul hr
          · exact (h.1.pow h.2).mul ((hr.mul hlog).add ((h.2.mul hl).div h.1))
  | negate operand ih => exact (ih h).neg
  | call function argument ih =>
      rw [Expr.differentiate]
      split
      · exact .number _
      · have hargument : argument.MentionsOnly allowed := h
        exact (hargument.outerDerivative function).mul (ih h)

end Metrology.Expr
