import Metrology.Expr.Evaluation
import Metrology.Proofs.Outcome

/-!
# Substitution in formula trees

A tree in which every symbol is replaced by a tree of its own has the value
that the original has when the symbols are bound to the values of what replaces
them. The two agree on failures too, since operands are evaluated in the same
order, as long as what replaces a symbol fails the way its lookup does.

What is not mentioned does not matter: two replacements that agree on the
symbols of a tree give the same tree.

## Main definitions

* `Expr.substitute`: Every symbol replaced by a tree.

## Theorems

* `Expr.mem_freeSymbols`: The free symbols are the mentioned ones.
* `Expr.substitute_congr`: Only mentioned symbols are replaced.
* `Expr.map_substitute`: Replacing literals goes into what replaces symbols.
* `Expr.evaluate_substitute`: The value after substitution.
* `Expr.evaluate_of_substitute`: A tree has a value only if all that is
  substituted has.
-/

namespace Metrology.Expr

variable {α β : Type}

/-- The same tree with every symbol replaced by a tree. -/
def substitute (part : String → Expr α) : Expr α → Expr α
  | number value => number value
  | symbol name => part name
  | binary op left right => binary op (left.substitute part) (right.substitute part)
  | negate operand => negate (operand.substitute part)
  | call function argument => call function (argument.substitute part)

theorem mem_collectSymbols (name : String) (tree : Expr α) :
    ∀ seen, name ∈ tree.collectSymbols seen ↔ name ∈ seen ∨ tree.mentions name = true := by
  induction tree with
  | number value =>
      intro seen
      simp [collectSymbols, mentions]
  | symbol other =>
      intro seen
      rw [collectSymbols, mentions, decide_eq_true_eq]
      split
      · next hseen => exact ⟨Or.inl, fun h => h.elim id (fun hname => hname ▸ hseen)⟩
      · rw [List.mem_append, List.mem_singleton, eq_comm (a := name)]
  | binary op left right ihl ihr =>
      intro seen
      rw [collectSymbols, ihr, ihl, mentions, Bool.or_eq_true, or_assoc]
  | negate operand ih =>
      intro seen
      rw [collectSymbols, ih, mentions]
  | call function argument ih =>
      intro seen
      rw [collectSymbols, ih, mentions]

/-- The free symbols are the mentioned ones. -/
@[simp]
theorem mem_freeSymbols (name : String) (tree : Expr α) :
    name ∈ tree.freeSymbols ↔ tree.mentions name = true := by
  rw [freeSymbols, mem_collectSymbols]
  simp

/-- Replacing literals mentions no other symbols. -/
@[simp]
theorem mentions_map (f : α → β) (name : String) (tree : Expr α) :
    (tree.map f).mentions name = tree.mentions name := by
  induction tree with
  | number value => rfl
  | symbol other => rfl
  | binary op left right ihl ihr => rw [map, mentions, ihl, ihr, mentions]
  | negate operand ih => rw [map, mentions, ih, mentions]
  | call function argument ih => rw [map, mentions, ih, mentions]

/-- Only mentioned symbols are replaced. -/
theorem substitute_congr (part part' : String → Expr α) (tree : Expr α)
    (h : ∀ name, tree.mentions name = true → part name = part' name) :
    tree.substitute part = tree.substitute part' := by
  induction tree with
  | number value => rfl
  | symbol name => exact h name (decide_eq_true rfl)
  | binary op left right ihl ihr =>
      rw [substitute, substitute, ihl fun name hname => h name (by simp [mentions, hname]),
        ihr fun name hname => h name (by simp [mentions, hname])]
  | negate operand ih => rw [substitute, substitute, ih h]
  | call function argument ih => rw [substitute, substitute, ih h]

/-- Symbols that are replaced by themselves stay. -/
theorem substitute_symbol (tree : Expr α) : tree.substitute symbol = tree := by
  induction tree with
  | number value => rfl
  | symbol name => rfl
  | binary op left right ihl ihr => rw [substitute, ihl, ihr]
  | negate operand ih => rw [substitute, ih]
  | call function argument ih => rw [substitute, ih]

/-- Replacing literals goes into what replaces symbols. -/
theorem map_substitute (f : α → β) (part : String → Expr α) (tree : Expr α) :
    (tree.substitute part).map f = (tree.map f).substitute fun name => (part name).map f := by
  induction tree with
  | number value => rfl
  | symbol name => rfl
  | binary op left right ihl ihr => rw [substitute, map, ihl, ihr, map, substitute]
  | negate operand ih => rw [substitute, map, ih, map, substitute]
  | call function argument ih => rw [substitute, map, ih, map, substitute]

theorem ofDecimals_substitute [Arithmetic α] (part : String → Expr Decimal)
    (tree : Expr Decimal) :
    (ofDecimals (tree.substitute part) : Expr α) =
      (ofDecimals tree).substitute fun name => ofDecimals (part name) :=
  map_substitute _ part tree

@[simp]
theorem mentions_ofDecimals [Arithmetic α] (name : String) (tree : Expr Decimal) :
    (ofDecimals tree : Expr α).mentions name = tree.mentions name :=
  mentions_map _ name tree

section Evaluation

variable [Scalar α]

/-- The value after substitution is the value with every symbol bound to the value
    of what replaces it. -/
theorem evaluate_substitute (bound bound' : Bindings α) (part : String → Expr α) (tree : Expr α)
    (h : ∀ name, tree.mentions name = true → lookup bound' name = (part name).evaluate bound) :
    (tree.substitute part).evaluate bound = tree.evaluate bound' := by
  induction tree with
  | number value => rfl
  | symbol name => exact (h name (decide_eq_true rfl)).symm
  | binary op left right ihl ihr =>
      rw [substitute, evaluate, evaluate, ihl fun name hname => h name (by simp [mentions, hname]),
        ihr fun name hname => h name (by simp [mentions, hname])]
  | negate operand ih => rw [substitute, evaluate, evaluate, ih h]
  | call function argument ih => rw [substitute, evaluate, evaluate, ih h]

/-- A tree has a value only if all that is substituted in it has one. -/
theorem evaluate_of_substitute (bound : Bindings α) (part : String → Expr α) (tree : Expr α)
    (name : String) (hname : tree.mentions name = true) :
    ∀ q, (tree.substitute part).evaluate bound = .ok q → ∃ p, (part name).evaluate bound = .ok p := by
  induction tree with
  | number value => cases hname
  | symbol other =>
      intro q h
      rw [← of_decide_eq_true hname]
      exact ⟨q, h⟩
  | binary op left right ihl ihr =>
      -- Both operands are evaluated, whichever of them mentions the symbol.
      intro q h
      rw [substitute, evaluate, Outcome.bind_eq_ok] at h
      rcases h with ⟨p, hp, h⟩
      rw [Outcome.bind_eq_ok] at h
      rcases h with ⟨r, hr, -⟩
      rw [mentions, Bool.or_eq_true] at hname
      rcases hname with hname | hname
      · exact ihl hname p hp
      · exact ihr hname r hr
  | negate operand ih =>
      intro q h
      rw [substitute, evaluate, Outcome.bind_eq_ok] at h
      rcases h with ⟨p, hp, -⟩
      exact ih hname p hp
  | call function argument ih =>
      intro q h
      rw [substitute, evaluate, Outcome.bind_eq_ok] at h
      rcases h with ⟨p, hp, -⟩
      exact ih hname p hp

end Evaluation

end Metrology.Expr
