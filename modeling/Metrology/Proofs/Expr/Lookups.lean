import Metrology.Proofs.Expr.Occurrences
import Metrology.Scalar.Double

/-!
# What an evaluation looks at

The value of a tree depends on the bindings, but only on what is bound to the symbols that
are looked up. An evaluation stops at the first failure, so it need not come to all symbols
of the tree, and which ones it comes to depends on the bindings as well.

To speak of them, the evaluation is made again with a record. Where a symbol is looked up,
its name is written behind those that have been looked up before. Nothing else is different,
and the record is never read. What is recorded is then a front part of the occurrences, and
all of them if there is a value. Bindings that agree on what has been recorded give the same
outcome. And nothing is recorded in vain: without what is bound to a symbol of the record
the evaluation fails for just that symbol, unless it is a built-in constant.

The free symbols are the same names in the order in which they are first looked up.

## Main definitions

* `Recording`: An evaluation with a record of the symbols that are looked up.
* `Recording.Follows`: A recording that looks up the symbols of a line, one by one.
* `Expr.recorded`, `Expr.lookedUp`: Evaluating with a record, and the record.
* `Bindings.unbind`: Bindings without one symbol.

## Theorems

* `Recording.Follows.bind`: Recordings one after another follow lines one behind another.
* `Expr.recorded_follows`: An evaluation looks symbols up as they stand in the tree.
* `Expr.lookedUp_spec`: What is recorded, and that recording changes nothing.
* `Expr.evaluate_eq_of_lookedUp`: The outcome depends on what is looked up.
* `Expr.evaluate_unbind`: What is looked up is needed.
* `Expr.freeSymbols_looked_up`: The free symbols are what an evaluation looks at.
-/

namespace Metrology

variable {α β γ : Type}

/-- The same bindings with nothing bound to one symbol. -/
def Bindings.unbind (bound : Bindings α) (name : String) : Bindings α :=
  fun other => if other = name then none else bound other

/-- An evaluation with a record of the symbols that have been looked up. -/
abbrev Recording (α β : Type) := ExceptT (EvalError α) (StateM (List String)) β

namespace Recording

/-- An outcome for which nothing is looked up. -/
def plain (outcome : Except (EvalError α) β) : Recording α β := ExceptT.mk (pure outcome)

/-- Looks a symbol up, and records that. -/
def look [Scalar α] (bound : Bindings α) (name : String) : Recording α (Quantity α) := do
  modify (· ++ [name])
  plain (Expr.lookup bound name)

/-- A recording with an outcome. The symbols that it looks up stand in front of a line, and
    if there is a value, they are the whole line. -/
def Follows (x : Recording α β) (outcome : Except (EvalError α) β) (line : List String) : Prop :=
  ∃ looked, looked <+: line ∧ (∀ b, outcome = .ok b → looked = line) ∧
    ∀ seen, x.run seen = (outcome, seen ++ looked)

namespace Follows

theorem plain (outcome : Except (EvalError α) β) : Follows (plain outcome) outcome [] :=
  ⟨[], List.prefix_rfl, fun _ _ => rfl, fun seen => by rw [List.append_nil]; rfl⟩

theorem look [Scalar α] (bound : Bindings α) (name : String) :
    Follows (look bound name) (Expr.lookup bound name) [name] :=
  ⟨[name], List.prefix_rfl, fun _ _ => rfl, fun _ => rfl⟩

/-- Recordings one after another follow lines one behind another. -/
theorem bind (x : Recording α β) (f : β → Recording α γ) (outcome : Except (EvalError α) β)
    (g : β → Except (EvalError α) γ) (line line' : List String) (hx : Follows x outcome line)
    (hf : ∀ b, Follows (f b) (g b) line') : Follows (x >>= f) (outcome >>= g) (line ++ line') := by
  rcases hx with ⟨looked, hfront, hall, hrun⟩
  cases outcome with
  | error e =>
      -- Nothing is looked up after a failure.
      refine ⟨looked, hfront.trans (List.prefix_append line line'), ?_, ?_⟩
      · intro c hc
        cases hc
      · intro seen
        rw [Outcome.run_bind, hrun]
        rfl
  | ok b =>
      rcases hf b with ⟨looked', hfront', hall', hrun'⟩
      rw [hall b rfl] at hrun
      refine ⟨line ++ looked', (List.prefix_append_right_inj line).mpr hfront', ?_, ?_⟩
      · intro c hc
        rw [hall' c hc]
      · intro seen
        rw [Outcome.run_bind, hrun]
        simp only
        rw [hrun', List.append_assoc]
        rfl

/-- Nothing is looked up for the last step. -/
theorem last (x : Recording α β) (outcome : Except (EvalError α) β)
    (g : β → Except (EvalError α) γ) (line : List String) (hx : Follows x outcome line) :
    Follows (x >>= fun b => Recording.plain (g b)) (outcome >>= g) line := by
  rw [← List.append_nil line]
  exact hx.bind _ _ _ _ _ _ fun b => .plain (g b)

end Follows

end Recording

namespace Expr

variable [Scalar α]

/-- The value of a tree, with a record of the symbols that are looked up. -/
def recorded (bound : Bindings α) : Expr α → Recording α (Quantity α)
  | number value => return .number value
  | symbol name => Recording.look bound name
  | binary op left right => do
    let p ← left.recorded bound
    let q ← right.recorded bound
    Recording.plain (applyBinary op p q)
  | negate operand => do
    let q ← operand.recorded bound
    return q.neg
  | call function argument => do
    let q ← argument.recorded bound
    Recording.plain (applyFunction function q)

/-- The symbols that are looked up for the value of a tree, in this order. -/
def lookedUp (bound : Bindings α) (tree : Expr α) : List String :=
  ((tree.recorded bound).run []).2

section Recorded

variable (bound : Bindings α) (tree : Expr α)

/-- An evaluation looks symbols up as they stand in the tree from left to right. -/
theorem recorded_follows :
    (tree.recorded bound).Follows (tree.evaluate bound) tree.occurrences := by
  induction tree with
  | number value => exact .plain _
  | symbol name => exact .look bound name
  | binary op left right ihl ihr =>
      exact ihl.bind _ _ _ _ _ _ fun p => ihr.last _ _ (applyBinary op p) _
  | negate operand ih => exact ih.last _ _ (fun q => .ok q.neg) _
  | call function argument ih => exact ih.last _ _ (applyFunction function) _

/-- What is looked up stands in the tree, in front of what else stands there. It is all that
    stands there when there is a value, and the same whatever has been recorded before. -/
theorem lookedUp_spec :
    tree.lookedUp bound <+: tree.occurrences ∧
      (∀ q, tree.evaluate bound = .ok q → tree.lookedUp bound = tree.occurrences) ∧
      ∀ seen, (tree.recorded bound).run seen =
        (tree.evaluate bound, seen ++ tree.lookedUp bound) := by
  rcases recorded_follows bound tree with ⟨looked, hfront, hall, hrun⟩
  have hlooked : tree.lookedUp bound = looked := by
    rw [lookedUp, hrun, List.nil_append]
  rw [hlooked]
  exact ⟨hfront, hall, hrun⟩

/-- Recording changes nothing, and the record is never read. -/
theorem run_recorded (seen : List String) :
    (tree.recorded bound).run seen = (tree.evaluate bound, seen ++ tree.lookedUp bound) :=
  (lookedUp_spec bound tree).2.2 seen

end Recorded

section Lookups

variable (bound : Bindings α)

/-- A right operand is looked at only if the left one has a value. -/
theorem lookedUp_binary (op : BinaryOp) (left right : Expr α) :
    (binary op left right).lookedUp bound =
      left.lookedUp bound ++
        match left.evaluate bound with
        | .ok _ => right.lookedUp bound
        | .error _ => [] := by
  rw [lookedUp, recorded, Outcome.run_bind, run_recorded]
  cases left.evaluate bound with
  | error e => simp
  | ok p =>
      simp only
      rw [Outcome.run_bind, run_recorded]
      cases right.evaluate bound <;> rfl

theorem lookedUp_negate (operand : Expr α) :
    (negate operand).lookedUp bound = operand.lookedUp bound := by
  rw [lookedUp, recorded, Outcome.run_bind, run_recorded]
  cases operand.evaluate bound <;> rfl

theorem lookedUp_call (function : String) (argument : Expr α) :
    (call function argument).lookedUp bound = argument.lookedUp bound := by
  rw [lookedUp, recorded, Outcome.run_bind, run_recorded]
  cases argument.evaluate bound <;> rfl

/-- Bindings that agree on what is looked up give the same outcome. -/
theorem evaluate_eq_of_lookedUp (bound' : Bindings α) (tree : Expr α)
    (h : ∀ name ∈ tree.lookedUp bound, bound name = bound' name) :
    tree.evaluate bound' = tree.evaluate bound := by
  induction tree with
  | number value => rfl
  | symbol name =>
      have hname : bound name = bound' name := h name (List.mem_singleton.mpr rfl)
      rw [evaluate, evaluate, lookup, lookup, hname]
  | binary op left right ihl ihr =>
      rw [lookedUp_binary, List.forall_mem_append] at h
      rw [evaluate, evaluate]
      refine Outcome.bind_congr _ _ _ _ (ihl h.1) fun p hp => ?_
      -- The left operand has a value, so the right one has been looked at.
      rw [hp] at h
      exact Outcome.bind_congr _ _ _ _ (ihr h.2) fun _ _ => rfl
  | negate operand ih =>
      rw [lookedUp_negate] at h
      exact Outcome.bind_congr _ _ _ _ (ih h) fun _ _ => rfl
  | call function argument ih =>
      rw [lookedUp_call] at h
      exact Outcome.bind_congr _ _ _ _ (ih h) fun _ _ => rfl

/-- What is looked up is needed: once nothing is bound to such a symbol, it is the first one
    that is missed. -/
theorem evaluate_unbind (name : String) (hconstant : Constant.ofName? name = none)
    (tree : Expr α) (h : name ∈ tree.lookedUp bound) :
    tree.evaluate (bound.unbind name) = .error (.undefinedSymbol name) := by
  induction tree with
  | number value => exact absurd h List.not_mem_nil
  | symbol other =>
      have hname : name = other := List.mem_singleton.mp h
      rw [← hname, evaluate, lookup, Bindings.unbind, if_pos rfl, hconstant]
  | binary op left right ihl ihr =>
      rw [lookedUp_binary] at h
      rw [evaluate]
      by_cases hleft : name ∈ left.lookedUp bound
      · rw [ihl hleft]
        rfl
      · -- The left operand does not look at the symbol, so its outcome is the same.
        have hsame : left.evaluate (bound.unbind name) = left.evaluate bound := by
          refine evaluate_eq_of_lookedUp bound _ left fun other hother => ?_
          have hne : other ≠ name := fun heq => hleft (heq ▸ hother)
          rw [Bindings.unbind, if_neg hne]
        have hright := (List.mem_append.mp h).resolve_left hleft
        rw [hsame]
        cases hp : left.evaluate bound with
        | error e =>
            rw [hp] at hright
            exact absurd hright List.not_mem_nil
        | ok p =>
            rw [hp] at hright
            change (right.evaluate (bound.unbind name) >>= _) = _
            rw [ihr hright]
            rfl
  | negate operand ih =>
      rw [lookedUp_negate] at h
      rw [evaluate, ih h]
      rfl
  | call function argument ih =>
      rw [lookedUp_call] at h
      rw [evaluate, ih h]
      rfl

end Lookups

/-- The free symbols are what an evaluation looks at. They are distinct, they are the
    symbols that are mentioned, and they come in the order in which they stand in the tree
    first, which is that of the text if the tree comes from one. Bindings that agree on them
    give the same outcome, be it a value or a failure.
    An evaluation that keeps a record looks up free symbols only, and all of them before
    there is a value. Each of them is needed, if it is no built-in constant: without what is
    bound to it, it is the symbol that the evaluation fails for. -/
theorem freeSymbols_looked_up (tree : Expr α) :
    tree.freeSymbols.Nodup ∧
    (∀ name, name ∈ tree.freeSymbols ↔ tree.mentions name = true) ∧
    (tree.freeSymbols.Pairwise fun first second =>
      tree.occurrences.idxOf first < tree.occurrences.idxOf second) ∧
    (∀ text formula, Expr.read text = .ok formula → tree = .ofDecimals formula →
      ∃ lexemes, Lexeme.ofChars (Subscript.flatten text).toList = .ok lexemes ∧
        tree.occurrences = Grammar.symbols (Grammar.tokens lexemes)) ∧
    (∀ bound bound' : Bindings α, (∀ name ∈ tree.freeSymbols, bound name = bound' name) →
      tree.evaluate bound = tree.evaluate bound') ∧
    ∀ bound : Bindings α,
      (tree.recorded bound).run [] = (tree.evaluate bound, tree.lookedUp bound) ∧
      tree.lookedUp bound ⊆ tree.freeSymbols ∧
      (∀ q, tree.evaluate bound = .ok q → tree.freeSymbols ⊆ tree.lookedUp bound) ∧
      ∀ name ∈ tree.lookedUp bound, Constant.ofName? name = none →
        tree.evaluate (bound.unbind name) = .error (.undefinedSymbol name) := by
  have hfirst := freeSymbols_listsFirst tree
  have hsubset : ∀ bound, tree.lookedUp bound ⊆ tree.freeSymbols := fun bound name hname =>
    (hfirst.mem_iff name).mpr ((lookedUp_spec bound tree).1.subset hname)
  refine ⟨hfirst.nodup, fun name => mem_freeSymbols name tree, hfirst.ordered, ?_, ?_, ?_⟩
  · rintro text formula hread rfl
    rw [ofDecimals, occurrences_map]
    exact occurrences_read text formula hread
  · intro bound bound' h
    exact (evaluate_eq_of_lookedUp bound bound' tree
      fun name hname => h name (hsubset bound hname)).symm
  · intro bound
    refine ⟨run_recorded bound tree [], hsubset bound, ?_, ?_⟩
    · intro q hq name hname
      rw [(lookedUp_spec bound tree).2.1 q hq]
      exact (hfirst.mem_iff name).mp hname
    · intro name hname hconstant
      exact evaluate_unbind bound name hconstant tree hname

/-- The formula `b * a + sin(b) / c + pi`. -/
def mixed : Expr Float :=
  .binary .add
    (.binary .add (.binary .mul (.symbol "b") (.symbol "a"))
      (.binary .div (.call "sin" (.symbol "b")) (.symbol "c")))
    (.symbol "pi")

/-- Plain numbers for three symbols. -/
def threeNumbers : Bindings Float :=
  ((Bindings.empty.bind "a" (.number 2)).bind "b" (.number 3)).bind "c" (.number 4)

/-- In the formula `b` comes first. Something bound to a symbol that it does not mention
    makes no difference to it. It has a value, for which `pi` is looked up although nothing
    is bound to it, and without the number for `c` it has none. -/
theorem freeSymbols_looked_up_mixed :
    mixed.freeSymbols = ["b", "a", "c", "pi"] ∧
    (∀ name ∈ mixed.freeSymbols, (threeNumbers.bind "x" (.number 5)) name = threeNumbers name) ∧
    mixed.evaluate (threeNumbers.bind "x" (.number 5)) = mixed.evaluate threeNumbers ∧
    (∃ q, mixed.evaluate threeNumbers = .ok q) ∧
    "pi" ∈ mixed.lookedUp threeNumbers ∧ threeNumbers "pi" = none ∧
    "c" ∈ mixed.lookedUp threeNumbers ∧ Constant.ofName? "c" = none ∧
    mixed.evaluate (threeNumbers.unbind "c") = .error (.undefinedSymbol "c") := by
  have hsymbols : mixed.freeSymbols = ["b", "a", "c", "pi"] := by decide
  have hbound : ∀ name ∈ mixed.freeSymbols,
      (threeNumbers.bind "x" (.number 5)) name = threeNumbers name := by
    intro name hname
    have hne : name ≠ "x" := fun heq => absurd (heq ▸ hname) (by decide)
    rw [Bindings.bind, if_neg hne]
  have hvalue : ∃ q, mixed.evaluate threeNumbers = .ok q := by
    have hsome : (mixed.evaluate threeNumbers).toOption.isSome = true := by decide +kernel
    rcases Option.isSome_iff_exists.mp hsome with ⟨q, hq⟩
    exact ⟨q, Outcome.eq_ok_of_toOption _ q hq⟩
  rcases freeSymbols_looked_up mixed with ⟨-, -, -, -, hagree, hlooked⟩
  rcases hlooked threeNumbers with ⟨-, -, hall, hneeded⟩
  rcases hvalue with ⟨q, hq⟩
  have hpi : "pi" ∈ mixed.lookedUp threeNumbers := hall q hq (by decide)
  have hc : "c" ∈ mixed.lookedUp threeNumbers := hall q hq (by decide)
  exact ⟨hsymbols, hbound, hagree _ _ hbound, ⟨q, hq⟩, hpi, rfl, hc, rfl, hneeded "c" hc rfl⟩

end Expr

end Metrology
