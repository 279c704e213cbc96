import Mathlib.Data.List.TakeWhile
import Mathlib.Tactic.SplitIfs
import Metrology.Expr.Grammar
import Metrology.Proofs.Outcome

/-!
# The names in a formula

A name begins with a letter or an underscore and goes on with letters, numerals and
underscores. The scan makes no other words, and the rules of the grammar take every
name of a tree from a word of the text. So all names of a formula that has been read
are of that form, those of its symbols and those of the functions that it calls.

## Main definitions

* `Token.IsWord`: The form of a name.
* `Expr.AllNames`: What holds of all names in a tree.
* `Grammar.Takes`: A rule that takes its names from the lexemes.

## Theorems

* `Lexeme.isWord_of_scan`: The words of a scan.
* `Grammar.takes_rules`: Every rule takes its names from the lexemes.
* `Expr.allNames_read`: The names of a formula.
-/

namespace Metrology

/-- The form of a name. -/
def Token.IsWord (name : String) : Prop :=
  ∃ c rest, name.toList = c :: rest ∧ Token.startsWord c = true ∧
    ∀ d ∈ rest, Token.continuesWord d = true

/-- What holds of all names in a tree, of symbols and of functions. -/
def Expr.AllNames {α : Type} (p : String → Prop) : Expr α → Prop
  | number _ => True
  | symbol name => p name
  | binary _ left right => left.AllNames p ∧ right.AllNames p
  | negate operand => operand.AllNames p
  | call function argument => p function ∧ argument.AllNames p

theorem Expr.allNames_map {α β : Type} (p : String → Prop) (f : α → β) (tree : Expr α)
    (h : tree.AllNames p) : (tree.map f).AllNames p := by
  induction tree with
  | number value => trivial
  | symbol name => exact h
  | binary op left right ihLeft ihRight => exact ⟨ihLeft h.1, ihRight h.2⟩
  | negate operand ih => exact ih h
  | call function argument ih => exact ⟨h.1, ih h.2⟩

/-- A character that makes a token on its own makes no word. -/
theorem Token.ofSign?_ne_word (c : Char) (name : String) : ofSign? c ≠ some (.word name) := by
  intro h
  simp only [ofSign?] at h
  split_ifs at h <;> cases h

namespace Lexeme

/-- What holds of all words among lexemes. -/
def AllWords (p : String → Prop) (lexemes : List Lexeme) : Prop :=
  ∀ lexeme ∈ lexemes, ∀ name, lexeme.token = .word name → p name

theorem allWords_cons (p : String → Prop) (lexeme : Lexeme) (rest : List Lexeme) :
    AllWords p (lexeme :: rest) ↔
      (∀ name, lexeme.token = .word name → p name) ∧ AllWords p rest :=
  List.forall_mem_cons

/-- The words of a scan. -/
theorem isWord_of_scan (cs : List Char) : ∀ offset skip lexemes,
    scan offset skip cs = .ok lexemes → AllWords Token.IsWord lexemes := by
  induction cs with
  | nil =>
      intro offset skip lexemes h
      rw [scan] at h
      cases h
      exact fun _ hmem => absurd hmem List.not_mem_nil
  | cons c rest ih =>
      intro offset skip lexemes h
      -- Whatever lexeme is cut off here, those behind it come from a scan of the rest.
      have hcons : ∀ offset skip lexeme, (∀ name, lexeme.token = .word name → Token.IsWord name) →
          (do let others ← scan offset skip rest; return lexeme :: others) = .ok lexemes →
            AllWords Token.IsWord lexemes := by
        intro offset skip lexeme hlexeme h
        rcases (Outcome.bind_eq_ok _ _ _).mp h with ⟨others, hothers, heq⟩
        cases heq
        exact (allWords_cons _ _ _).mpr ⟨hlexeme, ih _ _ _ hothers⟩
      cases skip with
      | succ skip =>
          rw [scan] at h
          exact ih _ _ _ h
      | zero =>
          rw [scan] at h
          split at h
          · exact ih _ _ _ h
          · split at h
            · next token hsign =>
              refine hcons _ _ _ (fun name hname => ?_) h
              exact absurd (hname ▸ hsign) (Token.ofSign?_ne_word c name)
            · split at h
              · simp only at h
                split at h
                · cases h
                · exact hcons _ _ _ (fun name hname => by cases hname) h
              · split at h
                · next hstarts =>
                  refine hcons _ _ _ (fun name hname => ?_) h
                  cases hname
                  exact ⟨c, _, String.toList_ofList, hstarts,
                    fun d hd => List.mem_takeWhile_imp hd⟩
                · cases h

end Lexeme

namespace Grammar

open Lexeme (AllWords)

variable (p : String → Prop)

/-- A rule that takes its names from the lexemes: they hold what all words hold. -/
def Takes (parsed : Parsed) : Prop :=
  ∀ tree rest, parsed = .ok (tree, rest) → tree.AllNames p ∧ AllWords p rest

theorem takes_ok (tree : Expr Decimal) (rest : List Lexeme) (htree : tree.AllNames p)
    (hrest : AllWords p rest) : Takes p (.ok (tree, rest)) := by
  intro tree' rest' h
  cases h
  exact ⟨htree, hrest⟩

theorem takes_error (e : ParseError) : Takes p (.error e) := by
  intro tree rest h
  cases h

theorem Takes.bind (x : Parsed) (f : Expr Decimal × List Lexeme → Parsed) (hx : Takes p x)
    (hf : ∀ tree rest, tree.AllNames p → AllWords p rest → Takes p (f (tree, rest))) :
    Takes p (x >>= f) := by
  intro tree rest h
  rcases (Outcome.bind_eq_ok _ _ _).mp h with ⟨⟨first, others⟩, hfirst, hothers⟩
  rcases hx first others hfirst with ⟨hnames, hwords⟩
  exact hf first others hnames hwords tree rest hothers

/-- A tree in front of a closing parenthesis. -/
theorem takes_close (finish : Nat) (function : Option String) (tree : Expr Decimal)
    (rest : List Lexeme) (htree : tree.AllNames p) (hrest : AllWords p rest) :
    Takes p (do let rest ← close finish function rest; return (tree, rest)) := by
  intro tree' rest' h
  rcases (Outcome.bind_eq_ok _ _ _).mp h with ⟨others, hclose, heq⟩
  cases heq
  refine ⟨htree, ?_⟩
  rw [close.eq_def] at hclose
  split at hclose
  · cases hclose
    exact ((Lexeme.allWords_cons _ _ _).mp hrest).2
  · cases hclose

/-- The rest of a sum or product behind an operation: another operand joins the tree. -/
theorem takes_joined (op : BinaryOp) (operand : List Lexeme → Parsed)
    (tail : Expr Decimal → List Lexeme → Parsed)
    (hoperand : ∀ lexemes, AllWords p lexemes → Takes p (operand lexemes))
    (htail : ∀ first lexemes, first.AllNames p → AllWords p lexemes → Takes p (tail first lexemes))
    (first : Expr Decimal) (lexemes : List Lexeme) (hfirst : first.AllNames p)
    (hlexemes : AllWords p lexemes) :
    Takes p (do
      let (second, rest) ← operand lexemes
      tail (.binary op first second) rest) :=
  Takes.bind p _ _ (hoperand lexemes hlexemes) fun second rest hsecond hrest =>
    htail (.binary op first second) rest ⟨hfirst, hsecond⟩ hrest

/-- All rules take their names from the lexemes, with some amount of fuel. -/
structure RulesTake (finish fuel : Nat) : Prop where
  sum : ∀ lexemes, AllWords p lexemes → Takes p (sum finish fuel lexemes)
  sumTail : ∀ first lexemes, first.AllNames p → AllWords p lexemes →
    Takes p (sumTail finish fuel first lexemes)
  product : ∀ lexemes, AllWords p lexemes → Takes p (product finish fuel lexemes)
  productTail : ∀ first lexemes, first.AllNames p → AllWords p lexemes →
    Takes p (productTail finish fuel first lexemes)
  signed : ∀ lexemes, AllWords p lexemes → Takes p (signed finish fuel lexemes)
  power : ∀ lexemes, AllWords p lexemes → Takes p (power finish fuel lexemes)
  atom : ∀ lexemes, AllWords p lexemes → Takes p (atom finish fuel lexemes)

namespace RulesTake

theorem zero (finish : Nat) : RulesTake p finish 0 where
  sum lexemes _ := by
    rw [Grammar.sum]
    exact takes_error p _
  sumTail first lexemes _ _ := by
    rw [Grammar.sumTail]
    exact takes_error p _
  product lexemes _ := by
    rw [Grammar.product]
    exact takes_error p _
  productTail first lexemes _ _ := by
    rw [Grammar.productTail]
    exact takes_error p _
  signed lexemes _ := by
    rw [Grammar.signed]
    exact takes_error p _
  power lexemes _ := by
    rw [Grammar.power]
    exact takes_error p _
  atom lexemes _ := by
    rw [Grammar.atom]
    exact takes_error p _

variable {p} {finish fuel : Nat} (h : RulesTake p finish fuel)

include h

theorem sumTail_succ (first : Expr Decimal) (lexemes : List Lexeme) (hfirst : first.AllNames p)
    (hlexemes : AllWords p lexemes) : Takes p (Grammar.sumTail finish (fuel + 1) first lexemes) := by
  rw [Grammar.sumTail.eq_def]
  split
  · exact takes_error p _
  · next heq =>
    cases heq
    exact takes_joined p .add _ _ h.product h.sumTail _ _ hfirst
      ((Lexeme.allWords_cons _ _ _).mp hlexemes).2
  · next heq =>
    cases heq
    exact takes_joined p .sub _ _ h.product h.sumTail _ _ hfirst
      ((Lexeme.allWords_cons _ _ _).mp hlexemes).2
  · exact takes_ok p _ _ hfirst hlexemes

theorem productTail_succ (first : Expr Decimal) (lexemes : List Lexeme)
    (hfirst : first.AllNames p) (hlexemes : AllWords p lexemes) :
    Takes p (Grammar.productTail finish (fuel + 1) first lexemes) := by
  rw [Grammar.productTail.eq_def]
  split
  · exact takes_error p _
  · next heq =>
    cases heq
    exact takes_joined p .mul _ _ h.signed h.productTail _ _ hfirst
      ((Lexeme.allWords_cons _ _ _).mp hlexemes).2
  · next heq =>
    cases heq
    exact takes_joined p .div _ _ h.signed h.productTail _ _ hfirst
      ((Lexeme.allWords_cons _ _ _).mp hlexemes).2
  · next heq _ _ =>
    cases heq
    split
    · exact takes_joined p .mul _ _ h.signed h.productTail _ _ hfirst hlexemes
    · exact takes_ok p _ _ hfirst hlexemes

theorem signed_succ (lexemes : List Lexeme) (hlexemes : AllWords p lexemes) :
    Takes p (Grammar.signed finish (fuel + 1) lexemes) := by
  rw [Grammar.signed.eq_def]
  split
  · exact takes_error p _
  · next heq =>
    cases heq
    exact Takes.bind p _ _ (h.signed _ ((Lexeme.allWords_cons _ _ _).mp hlexemes).2)
      fun operand rest hoperand hrest => takes_ok p _ _ hoperand hrest
  · next heq _ =>
    cases heq
    exact h.power _ hlexemes

theorem power_succ (lexemes : List Lexeme) (hlexemes : AllWords p lexemes) :
    Takes p (Grammar.power finish (fuel + 1) lexemes) := by
  rw [Grammar.power]
  refine Takes.bind p _ _ (h.atom _ hlexemes) fun base rest hbase hrest => ?_
  simp only
  split
  · exact Takes.bind p _ _ (h.signed _ ((Lexeme.allWords_cons _ _ _).mp hrest).2)
      fun exponent rest hexponent hrest => takes_ok p _ _ ⟨hbase, hexponent⟩ hrest
  · exact takes_ok p _ _ hbase hrest

theorem atom_succ (lexemes : List Lexeme) (hlexemes : AllWords p lexemes) :
    Takes p (Grammar.atom finish (fuel + 1) lexemes) := by
  rw [Grammar.atom.eq_def]
  split
  · exact takes_error p _
  · exact takes_error p _
  · exact takes_ok p _ _ trivial ((Lexeme.allWords_cons _ _ _).mp hlexemes).2
  · next heq =>
    cases heq
    rcases (Lexeme.allWords_cons _ _ _).mp hlexemes with ⟨hname, hbehind⟩
    exact Takes.bind p _ _ (h.sum _ ((Lexeme.allWords_cons _ _ _).mp hbehind).2)
      fun argument rest hargument hrest =>
        takes_close p finish _ (.call _ argument) rest ⟨hname _ rfl, hargument⟩ hrest
  · rcases (Lexeme.allWords_cons _ _ _).mp hlexemes with ⟨hname, hbehind⟩
    exact takes_ok p _ _ (hname _ rfl) hbehind
  · next heq =>
    cases heq
    exact Takes.bind p _ _ (h.sum _ ((Lexeme.allWords_cons _ _ _).mp hlexemes).2)
      fun group rest hgroup hrest => takes_close p finish none group rest hgroup hrest
  · exact takes_error p _
  · exact takes_error p _

/-- One more unit of fuel. -/
theorem succ : RulesTake p finish (fuel + 1) where
  sum lexemes hlexemes := by
    rw [Grammar.sum]
    exact Takes.bind p _ _ (h.product lexemes hlexemes) h.sumTail
  sumTail := h.sumTail_succ
  product lexemes hlexemes := by
    rw [Grammar.product]
    exact Takes.bind p _ _ (h.signed lexemes hlexemes) h.productTail
  productTail := h.productTail_succ
  signed := h.signed_succ
  power := h.power_succ
  atom := h.atom_succ

end RulesTake

/-- The rules call each other with less fuel. -/
theorem rulesTake (finish fuel : Nat) : RulesTake p finish fuel := by
  induction fuel with
  | zero => exact .zero p finish
  | succ fuel ih => exact ih.succ

end Grammar

/-- The names of a formula that has been read. -/
theorem Expr.allNames_read (text : String) (tree : Expr Decimal) (h : Expr.read text = .ok tree) :
    tree.AllNames Token.IsWord := by
  rw [Expr.read] at h
  rcases (Outcome.bind_eq_ok _ _ _).mp h with ⟨lexemes, hscan, hformula⟩
  rw [Grammar.formula] at hformula
  split at hformula
  · cases hformula
  rcases (Outcome.bind_eq_ok _ _ _).mp hformula with ⟨⟨found, rest⟩, hfound, hend⟩
  have hnames := ((Grammar.rulesTake Token.IsWord _ _).sum lexemes
    (Lexeme.isWord_of_scan _ 0 0 lexemes hscan) found rest hfound).1
  cases rest with
  | nil =>
      cases hend
      exact hnames
  | cons lexeme others => cases hend

end Metrology
