import Mathlib.Data.List.Basic
import Metrology.Proofs.Expr.Descent
import Metrology.Proofs.Expr.Substitution

/-!
# Where symbols stand

The symbols of a tree from left to right, each as often as it stands there. The free
symbols are collected with a list of those that have been met, which is also what is
answered in the end. So they are compared with the occurrences by an invariant of that
list: it holds what has been passed, in the order in which that was met first. A symbol
that is met again stands behind its first occurrence, and a new one behind all that has
been passed, so neither disturbs the order.

From left to right means the same in the text. The rules of the grammar put the tree of
what stands further left on the left, so the occurrences in a tree are the words of its
text that are not called.

## Main definitions

* `Expr.occurrences`: The symbols of a tree as they stand.
* `Expr.ListsFirst`: A list of distinct names in the order of their first occurrences.
* `Grammar.symbols`: The symbols among tokens.

## Theorems

* `Expr.ListsFirst.meet`, `Expr.ListsFirst.collect`: One symbol more, and all of a tree.
* `Expr.freeSymbols_listsFirst`: The free symbols in order.
* `Grammar.occurrences_of_phrase`: The symbols of a tree are those of its phrase.
* `Expr.occurrences_read`: The symbols of a tree are those of its text.
-/

namespace Metrology

namespace Expr

variable {α : Type}

/-- The symbols of a tree from left to right, each as often as it stands there. -/
def occurrences : Expr α → List String
  | number _ => []
  | symbol name => [name]
  | binary _ left right => left.occurrences ++ right.occurrences
  | negate operand => operand.occurrences
  | call _ argument => argument.occurrences

/-- Literals do not matter. -/
theorem occurrences_map {β : Type} (f : α → β) (tree : Expr α) :
    (tree.map f).occurrences = tree.occurrences := by
  induction tree with
  | number value => rfl
  | symbol name => rfl
  | binary op left right ihl ihr => rw [map, occurrences, occurrences, ihl, ihr]
  | negate operand ih => exact ih
  | call function argument ih => exact ih

/-- A list has the names that stand in line, in the order in which they stand there
    first. -/
structure ListsFirst (listed line : List String) : Prop where
  mem_iff : ∀ name, name ∈ listed ↔ name ∈ line
  ordered : listed.Pairwise fun first second => line.idxOf first < line.idxOf second

namespace ListsFirst

variable {listed line : List String}

theorem nil : ListsFirst [] [] where
  mem_iff _ := Iff.rfl
  ordered := List.Pairwise.nil

/-- No name is listed twice, since it does not stand before itself. -/
theorem nodup (h : ListsFirst listed line) : listed.Nodup :=
  h.ordered.imp fun hbefore heq => by
    rw [heq] at hbefore
    exact Nat.lt_irrefl _ hbefore

/-- One more name stands in line: it is listed unless it has been met before. -/
theorem meet (h : ListsFirst listed line) (name : String) :
    ListsFirst (if name ∈ listed then listed else listed ++ [name]) (line ++ [name]) := by
  -- Nothing that is listed already stands first anywhere else now.
  have hordered : listed.Pairwise fun first second =>
      (line ++ [name]).idxOf first < (line ++ [name]).idxOf second := by
    refine h.ordered.imp_of_mem fun hfirst hsecond hbefore => ?_
    rwa [List.idxOf_append_of_mem ((h.mem_iff _).mp hfirst),
      List.idxOf_append_of_mem ((h.mem_iff _).mp hsecond)]
  by_cases hname : name ∈ listed
  · rw [if_pos hname]
    refine ⟨fun other => ?_, hordered⟩
    rw [h.mem_iff, List.mem_append, List.mem_singleton]
    exact ⟨Or.inl, fun hother => hother.elim id fun heq => heq ▸ (h.mem_iff name).mp hname⟩
  · rw [if_neg hname]
    refine ⟨fun other => ?_, ?_⟩
    · rw [List.mem_append, h.mem_iff, List.mem_append]
    · refine List.pairwise_append.mpr ⟨hordered, List.pairwise_singleton _ _, ?_⟩
      intro first hfirst second hsecond
      rw [List.mem_singleton.mp hsecond]
      -- A new name stands behind the whole line.
      have hline := (h.mem_iff first).mp hfirst
      rw [List.idxOf_append_of_mem hline,
        List.idxOf_append_of_notMem fun hmem => hname ((h.mem_iff name).mpr hmem)]
      have hlength := List.idxOf_lt_length_of_mem hline
      omega

/-- A tree stands behind what has been passed, and its symbols are collected. -/
theorem collect (tree : Expr α) :
    ∀ listed line, ListsFirst listed line →
      ListsFirst (tree.collectSymbols listed) (line ++ tree.occurrences) := by
  induction tree with
  | number value =>
      intro listed line h
      rwa [collectSymbols, occurrences, List.append_nil]
  | symbol name =>
      intro listed line h
      exact h.meet name
  | binary op left right ihl ihr =>
      intro listed line h
      rw [collectSymbols, occurrences, ← List.append_assoc]
      exact ihr _ _ (ihl listed line h)
  | negate operand ih => exact ih
  | call function argument ih => exact ih

end ListsFirst

/-- The free symbols are the symbols of a tree in the order in which they stand there
    first. -/
theorem freeSymbols_listsFirst (tree : Expr α) : ListsFirst tree.freeSymbols tree.occurrences :=
  ListsFirst.collect tree [] [] .nil

end Expr

namespace Grammar

/-- The symbols among tokens from left to right: the words that are not called. -/
def symbols : List Token → List String
  | .word name :: rest =>
    if rest.head? = some .opening then symbols rest else name :: symbols rest
  | _ :: rest => symbols rest
  | [] => []

/-- The symbols of two lists of tokens, where no call begins at the end of the first. -/
theorem symbols_append (us vs : List Token) (h : ¬ Calls us vs) :
    symbols (us ++ vs) = symbols us ++ symbols vs := by
  induction us with
  | nil => rfl
  | cons token rest ih =>
      by_cases hrest : rest = []
      · rw [hrest] at h ⊢
        cases token with
        | word name =>
            -- What follows the name would make a call of it.
            have hhead : vs.head? ≠ some .opening := fun hhead => h ⟨⟨name, rfl⟩, hhead⟩
            simp [symbols, hhead]
        | _ => rfl
      · rw [← List.singleton_append, calls_append_left [token] rest vs hrest] at h
        have hhead : (rest ++ vs).head? = rest.head? := List.head?_append_of_ne_nil rest hrest
        cases token with
        | word name =>
            rw [List.cons_append, symbols, symbols, hhead, ih h]
            split <;> rfl
        | _ => exact ih h

/-- The symbols of two lists of tokens with a token between them that is no word and
    opens no parenthesis. -/
theorem symbols_joined (us vs : List Token) (mark : Token) (hword : ∀ name, mark ≠ .word name)
    (hopening : mark ≠ .opening) : symbols (us ++ mark :: vs) = symbols us ++ symbols vs := by
  rw [symbols_append us _ (not_calls_of_head us mark vs hopening)]
  cases mark with
  | word name => exact absurd rfl (hword name)
  | _ => rfl

/-- The symbols that stand in the tree of a phrase are those among its tokens. -/
theorem occurrences_of_phrase (r : Rule) (ts : List Token) (t : Expr Decimal)
    (h : Phrase r ts t) : t.occurrences = symbols ts := by
  induction h with
  | term _ _ _ ih | factor _ _ _ ih | unsigned _ _ _ ih | base _ _ _ ih => exact ih
  | plus us vs _ _ _ _ ihl ihr | minus us vs _ _ _ _ ihl ihr | times us vs _ _ _ _ ihl ihr
  | dividedBy us vs _ _ _ _ ihl ihr | raised us vs _ _ _ _ ihl ihr =>
      rw [Expr.occurrences, ihl, ihr]
      exact (symbols_joined us vs _ (fun _ => Token.noConfusion) Token.noConfusion).symm
  | beside us vs _ _ _ _ _ hcall ihl ihr =>
      rw [Expr.occurrences, ihl, ihr, symbols_append us vs hcall]
  | negative _ _ _ ih => exact ih
  | number value => rfl
  | symbol name => rfl
  | call function ts _ _ ih | group ts _ _ ih =>
      -- The parentheses are no symbols, and neither is the name in front of them.
      have hclosing := symbols_joined ts [] .closing (fun _ => Token.noConfusion) Token.noConfusion
      exact ih.trans (hclosing.trans (List.append_nil _)).symm

end Grammar

/-- The symbols of a text that has been read stand in the tree as they stand among the
    lexemes. -/
theorem Expr.occurrences_read (text : String) (tree : Expr Decimal)
    (h : Expr.read text = .ok tree) :
    ∃ lexemes, Lexeme.ofChars (Subscript.flatten text).toList = .ok lexemes ∧
      tree.occurrences = Grammar.symbols (Grammar.tokens lexemes) := by
  rw [Expr.read] at h
  rcases (Outcome.bind_eq_ok _ _ _).mp h with ⟨lexemes, hlexemes, hformula⟩
  have hphrase := Grammar.phrase_of_formula _ lexemes tree hformula
  exact ⟨lexemes, hlexemes, Grammar.occurrences_of_phrase .sum _ tree hphrase⟩

-- A name that is called is no symbol, and a built-in constant is one.
example : (Expr.read "b * a + sin(b) / c + pi").toOption.map Expr.freeSymbols =
    some ["b", "a", "c", "pi"] := by
  decide +kernel

end Metrology
