import Metrology.Proofs.Expr.Canonical
import Metrology.Proofs.Text.Split
import Metrology.Propagation.Derivatives
import Metrology.Standard

/-!
# Runs of the cache of derivatives

A cache is asked for derivatives one after the other, and it is cleared between some
of them. Since it was cleared last, it has kept one derivative under the key of every
question. As long as all answers were derivatives, this is the derivative that each
question with that key asks for. So an answer is the derivative exactly if no question
before it, back to the last time the cache was cleared, has its key and another answer.

Different seeds may have one identifier, as there are more seeds than identifiers. In a
run where that does not happen, questions have one key if they are for one symbol and
their formulas have one canonical text. The canonical text tells formulas apart but for
infinity, which a literal beyond the largest double becomes, and the symbol `inf`.

## Main definitions

* `DerivativeCache.Request`: Asking for a derivative, or clearing the cache.
* `DerivativeCache.after`: The cache after a run.
* `DerivativeCache.asked`: What was asked since the cache was cleared last.
* `DerivativeCache.Remembers`: A cache that holds the derivatives that were asked for.
* `DerivativeCache.Exact`: A run whose answers are all derivatives.
* `DerivativeCache.Distinguished`: A run for formulas whose seeds have identifiers of their
  own.

## Theorems

* `DerivativeCache.remembers_derivative`: What one question keeps.
* `DerivativeCache.remembers_after`: What a run keeps.
* `DerivativeCache.exact_iff_keys`: When all answers of a run are derivatives.
* `DerivativeCache.Distinguished.exact_iff`: The same in terms of the formulas.
* `DerivativeCache.transparent_iff`: Canonical texts and answers.
-/

namespace Metrology

/-- A tree that comes from a text. -/
def Expr.IsRead (tree : Expr Float) : Prop :=
  ∃ text formula, Expr.read text = .ok formula ∧ tree = .ofDecimals formula

theorem Expr.IsRead.isFormula (tree : Expr Float) (h : tree.IsRead) : tree.IsFormula := by
  rcases h with ⟨text, formula, hread, rfl⟩
  exact isFormula_read text formula hread

namespace DerivativeCache

/-- Asking for a derivative, or clearing the cache. -/
inductive Request (α : Type) where
  | derivative (tree : Expr α) (symbol : String)
  | clear

variable {α : Type} [IdSource] [Scalar α] [Written α]

/-- The cache after one request. -/
def next (cache : DerivativeCache α) : Request α → DerivativeCache α
  | .derivative tree symbol => (cache.derivative tree symbol).2
  | .clear => empty

/-- The cache after a run that begins with an empty one. -/
def after (requests : List (Request α)) : DerivativeCache α := requests.foldl next empty

/-- What was asked since the cache was cleared last. -/
def asked (requests : List (Request α)) : List (Expr α × String) :=
  requests.foldl (fun seen request =>
    match request with
    | .derivative tree symbol => seen ++ [(tree, symbol)]
    | .clear => []) []

/-- All answers of a run are derivatives. -/
def Exact (requests : List (Request α)) : Prop :=
  ∀ before tree symbol, before ++ [.derivative tree symbol] <+: requests →
    ((after before).derivative tree symbol).1 = tree.differentiate symbol

/-- A cache that holds the derivatives that were asked for, and nothing else. -/
structure Remembers (cache : DerivativeCache α) (seen : List (Expr α × String)) : Prop where
  kept : ∀ tree symbol, (tree, symbol) ∈ seen →
    cache.entries.lookup (key tree symbol) = some (tree.differentiate symbol)
  source : ∀ k found, cache.entries.lookup k = some found →
    ∃ tree symbol, (tree, symbol) ∈ seen ∧ key tree symbol = k ∧
      found = tree.differentiate symbol

theorem remembers_empty : Remembers (empty : DerivativeCache α) [] where
  kept _ _ h := by cases h
  source _ _ h := by cases h

/-- An answer is the derivative if no question with its key has another answer. -/
theorem answer_eq_iff (cache : DerivativeCache α) (seen : List (Expr α × String))
    (h : Remembers cache seen) (tree : Expr α) (symbol : String) :
    (cache.derivative tree symbol).1 = tree.differentiate symbol ↔
      ∀ other symbol', (other, symbol') ∈ seen → key other symbol' = key tree symbol →
        other.differentiate symbol' = tree.differentiate symbol := by
  rw [derivative]
  simp only
  cases hlookup : cache.entries.lookup (key tree symbol) with
  | some found =>
      constructor
      · intro hfound other symbol' hmem hkey
        have hkept := h.kept other symbol' hmem
        rw [hkey, hlookup, Option.some.injEq] at hkept
        exact hkept.symm.trans hfound
      · intro hsame
        rcases h.source _ found hlookup with ⟨other, symbol', hmem, hkey, hfound⟩
        exact hfound.trans (hsame other symbol' hmem hkey)
  | none =>
      refine ⟨fun _ other symbol' hmem hkey => ?_, fun _ => rfl⟩
      have hkept := h.kept other symbol' hmem
      rw [hkey, hlookup] at hkept
      cases hkept

/-- A question that is answered with its derivative is remembered. -/
theorem remembers_derivative (cache : DerivativeCache α) (seen : List (Expr α × String))
    (h : Remembers cache seen) (tree : Expr α) (symbol : String)
    (hanswer : (cache.derivative tree symbol).1 = tree.differentiate symbol) :
    Remembers (cache.derivative tree symbol).2 (seen ++ [(tree, symbol)]) := by
  rw [derivative] at hanswer ⊢
  simp only at hanswer ⊢
  cases hlookup : cache.entries.lookup (key tree symbol) with
  | some found =>
      -- Nothing is put in: the entry there is the derivative that was asked for.
      rw [hlookup] at hanswer
      refine ⟨fun other symbol' hmem => ?_, fun k found' hfound => ?_⟩
      · rcases List.mem_append.mp hmem with hmem | hmem
        · exact h.kept other symbol' hmem
        · cases List.mem_singleton.mp hmem
          exact hlookup.trans (congrArg some hanswer)
      · rcases h.source k found' hfound with ⟨other, symbol', hmem, hsource⟩
        exact ⟨other, symbol', List.mem_append_left _ hmem, hsource⟩
  | none =>
      refine ⟨fun other symbol' hmem => ?_, fun k found hfound => ?_⟩
      · rw [List.lookup_cons]
        rcases List.mem_append.mp hmem with hmem | hmem
        · have hkept := h.kept other symbol' hmem
          -- The new entry hides none, since there was none under its key.
          have hkey : key other symbol' ≠ key tree symbol := by
            intro hkey
            rw [hkey, hlookup] at hkept
            cases hkept
          rw [beq_false_of_ne hkey]
          exact hkept
        · cases List.mem_singleton.mp hmem
          rw [beq_self_eq_true]
      · rw [List.lookup_cons] at hfound
        by_cases hkey : k = key tree symbol
        · rw [hkey, beq_self_eq_true, Option.some.injEq] at hfound
          exact ⟨tree, symbol, List.mem_append_right _ List.mem_cons_self, hkey.symm, hfound.symm⟩
        · rw [beq_false_of_ne hkey] at hfound
          rcases h.source k found hfound with ⟨other, symbol', hmem, hsource⟩
          exact ⟨other, symbol', List.mem_append_left _ hmem, hsource⟩

/-- A run whose answers are all derivatives is remembered. -/
theorem remembers_after (requests : List (Request α)) (h : Exact requests) :
    Remembers (after requests) (asked requests) := by
  induction requests using List.reverseRecOn with
  | nil => exact remembers_empty
  | append_singleton before request ih =>
      have hbefore : Exact before := fun earlier tree symbol hinitial =>
        h earlier tree symbol (hinitial.trans (List.prefix_append _ _))
      cases request with
      | derivative tree symbol =>
          rw [after, asked, List.foldl_append, List.foldl_append]
          exact remembers_derivative _ _ (ih hbefore) tree symbol
            (h before tree symbol List.prefix_rfl)
      | clear =>
          rw [after, asked, List.foldl_append, List.foldl_append]
          exact remembers_empty

/-- All answers of a run are derivatives if no two questions without a clearing between
    them have one key and different answers. -/
theorem exact_iff_keys (requests : List (Request α)) :
    Exact requests ↔ ∀ before tree symbol, before ++ [.derivative tree symbol] <+: requests →
      ∀ other symbol', (other, symbol') ∈ asked before → key other symbol' = key tree symbol →
        other.differentiate symbol' = tree.differentiate symbol := by
  constructor
  · intro h before tree symbol hinitial
    -- Earlier answers were derivatives too, so the cache remembers what was asked.
    have hbefore : Exact before := fun earlier tree' symbol' hearlier =>
      h earlier tree' symbol' (hearlier.trans ((List.prefix_append _ _).trans hinitial))
    exact (answer_eq_iff _ _ (remembers_after before hbefore) tree symbol).mp
      (h before tree symbol hinitial)
  · intro h
    induction requests using List.reverseRecOn with
    | nil =>
        intro before tree symbol hinitial
        exact absurd (List.prefix_nil.mp hinitial) (by simp)
    | append_singleton before request ih =>
        have hexact := ih fun earlier tree symbol hinitial =>
          h earlier tree symbol (hinitial.trans (List.prefix_append _ _))
        intro earlier tree symbol hinitial
        rcases List.prefix_concat_iff.mp hinitial with heq | hinitial
        · -- The last request of the run is the question.
          rcases List.append_inj' heq rfl with ⟨rfl, hrequest⟩
          exact (answer_eq_iff _ _ (remembers_after earlier hexact) tree symbol).mpr
            (h earlier tree symbol (heq ▸ List.prefix_rfl))
        · exact hexact earlier tree symbol hinitial

omit [IdSource] [Scalar α] [Written α] in
/-- What was asked since the cache was cleared was asked in the run. -/
theorem mem_of_mem_asked (requests : List (Request α)) (tree : Expr α) (symbol : String)
    (h : (tree, symbol) ∈ asked requests) : .derivative tree symbol ∈ requests := by
  induction requests using List.reverseRecOn with
  | nil => cases h
  | append_singleton before request ih =>
      rw [asked, List.foldl_append] at h
      cases request with
      | derivative other symbol' =>
          rcases List.mem_append.mp h with h | h
          · exact List.mem_append_left _ (ih h)
          · cases List.mem_singleton.mp h
            exact List.mem_append_right _ List.mem_cons_self
      | clear => cases h

section Formulas

/-- The text whose identifier is a key. -/
def seed (tree : Expr Float) (symbol : String) : String := tree.canonical ++ "\x00" ++ symbol

omit [IdSource] in
/-- The seed tells the symbol, and the formula as far as its canonical text does. -/
theorem seed_eq_iff (tree other : Expr Float) (htree : tree.IsFormula) (hother : other.IsFormula)
    (symbol symbol' : String) :
    seed tree symbol = seed other symbol' ↔ tree.named = other.named ∧ symbol = symbol' := by
  rw [← Expr.canonical_eq_iff tree other htree hother]
  constructor
  · intro h
    have hcut : ∀ (t : Expr Float) (name : String), t.IsFormula →
        Text.cutOnce? '\x00' (seed t name) = some (t.canonical, name) := fun t name ht =>
      Text.cutOnce?_append _ _ name (Expr.null_not_mem_canonical t ht)
    have hparts := hcut other symbol' hother
    rw [← h, hcut tree symbol htree, Option.some.injEq, Prod.mk.injEq] at hparts
    exact hparts
  · rintro ⟨hcanonical, rfl⟩
    rw [seed, seed, hcanonical]

/-- A run that asks for derivatives of formulas, in which no two seeds have one identifier. -/
structure Distinguished (requests : List (Request Float)) : Prop where
  isRead : ∀ tree symbol, .derivative tree symbol ∈ requests → tree.IsRead
  seed_eq : ∀ tree symbol other symbol', .derivative tree symbol ∈ requests →
    .derivative other symbol' ∈ requests → key tree symbol = key other symbol' →
      seed tree symbol = seed other symbol'

/-- In such a run questions have one key if they are for one symbol and formulas with one
    canonical text. -/
theorem Distinguished.key_eq_iff (requests : List (Request Float)) (h : Distinguished requests)
    (tree other : Expr Float) (symbol symbol' : String)
    (htree : .derivative tree symbol ∈ requests) (hother : .derivative other symbol' ∈ requests) :
    key tree symbol = key other symbol' ↔ tree.named = other.named ∧ symbol = symbol' := by
  rw [← seed_eq_iff tree other (h.isRead _ _ htree).isFormula (h.isRead _ _ hother).isFormula]
  exact ⟨h.seed_eq _ _ _ _ htree hother, fun hseed => congrArg IdSource.ofName hseed⟩

/-- The cache answers with derivatives exactly if no formula with infinity is taken for one
    with the symbol `inf` that has another derivative. -/
theorem Distinguished.exact_iff (requests : List (Request Float)) (h : Distinguished requests) :
    Exact requests ↔ ∀ before tree symbol, before ++ [.derivative tree symbol] <+: requests →
      ∀ other, (other, symbol) ∈ asked before → other.named = tree.named →
        other.differentiate symbol = tree.differentiate symbol := by
  have hkey : ∀ before tree symbol, before ++ [.derivative tree symbol] <+: requests →
      ∀ other symbol', (other, symbol') ∈ asked before →
        (key other symbol' = key tree symbol ↔ other.named = tree.named ∧ symbol' = symbol) := by
    intro before tree symbol hinitial other symbol' hasked
    have hmem := List.mem_append_left [.derivative tree symbol] (mem_of_mem_asked before _ _ hasked)
    exact h.key_eq_iff _ _ _ _ _ (hinitial.subset hmem)
      (hinitial.subset (List.mem_append_right _ List.mem_cons_self))
  rw [exact_iff_keys]
  constructor
  · intro hexact before tree symbol hinitial other hasked hnamed
    exact hexact before tree symbol hinitial other symbol hasked
      ((hkey before tree symbol hinitial other symbol hasked).mpr ⟨hnamed, rfl⟩)
  · intro hexact before tree symbol hinitial other symbol' hasked hsame
    rcases (hkey before tree symbol hinitial other symbol' hasked).mp hsame with ⟨hnamed, rfl⟩
    exact hexact before tree symbol' hinitial other hasked hnamed

/-- Where no literal is beyond the largest double the cache answers with derivatives. -/
theorem Distinguished.exact_of_finite (requests : List (Request Float)) (h : Distinguished requests)
    (hfinite : ∀ tree symbol, .derivative tree symbol ∈ requests →
      tree.AllLiterals fun x => Binary64.ofFloat x ≠ .infinite false) : Exact requests := by
  rw [h.exact_iff]
  intro before tree symbol hinitial other hasked hnamed
  have hmem := List.mem_append_left [.derivative tree symbol] (mem_of_mem_asked before _ _ hasked)
  rw [Expr.named_eq_self other (hfinite _ _ (hinitial.subset hmem)),
    Expr.named_eq_self tree (hfinite _ _ (hinitial.subset
      (List.mem_append_right _ List.mem_cons_self)))] at hnamed
  rw [hnamed]

end Formulas

/-- Two formulas have one canonical text exactly if they agree up to infinity and the symbol
    `inf`, and a run answers with derivatives exactly if no two such formulas with different
    derivatives are asked for without a clearing between them. So it does if no literal is
    beyond the largest double. -/
theorem transparent_iff (tree other : Expr Float) (htree : tree.IsRead) (hother : other.IsRead)
    (requests : List (Request Float)) (h : Distinguished requests) :
    (tree.canonical = other.canonical ↔ tree.named = other.named) ∧
      (Exact requests ↔ ∀ before formula symbol,
        before ++ [.derivative formula symbol] <+: requests →
          ∀ earlier, (earlier, symbol) ∈ asked before → earlier.named = formula.named →
            earlier.differentiate symbol = formula.differentiate symbol) ∧
      ((∀ formula symbol, .derivative formula symbol ∈ requests →
        formula.AllLiterals fun x => Binary64.ofFloat x ≠ .infinite false) → Exact requests) :=
  ⟨Expr.canonical_eq_iff tree other htree.isFormula hother.isFormula, h.exact_iff,
    h.exact_of_finite⟩

end DerivativeCache

namespace DerivativeCache

open scoped Standard

/-- The derivatives of `1e999` and `inf` by `inf`, one after the other. -/
def infinityThenSymbol : List (Request Float) :=
  [.derivative (.ofDecimals (.number ⟨1, 999⟩)) "inf", .derivative (.symbol "inf") "inf"]

/-- The formulas `1e999` and `inf` have one canonical text, so the second of them is
    answered with the derivative of the first one. -/
theorem transparent_iff_infinityThenSymbol :
    (Expr.ofDecimals (.number ⟨1, 999⟩) : Expr Float).canonical =
        (Expr.symbol "inf" : Expr Float).canonical ∧
      Distinguished infinityThenSymbol ∧ ¬ Exact infinityThenSymbol := by
  have hinfinity : (Expr.ofDecimals (.number ⟨1, 999⟩) : Expr Float).IsRead :=
    ⟨"1e999", .number ⟨1, 999⟩, rfl, rfl⟩
  have hsymbol : (Expr.symbol "inf").IsRead := ⟨"inf", .symbol "inf", rfl, rfl⟩
  have hnamed : (Expr.ofDecimals (.number ⟨1, 999⟩) : Expr Float).named =
      (Expr.symbol "inf").named := by
    have hinfinite : Binary64.ofFloat (Arithmetic.ofDecimal ⟨1, 999⟩) = .infinite false := by
      decide
    exact if_pos hinfinite
  have hcanonical := (Expr.canonical_eq_iff _ _ hinfinity.isFormula hsymbol.isFormula).mpr hnamed
  have hcases : ∀ tree symbol, Request.derivative tree symbol ∈ infinityThenSymbol →
      (tree = .ofDecimals (.number ⟨1, 999⟩) ∨ tree = .symbol "inf") ∧ symbol = "inf" := by
    intro tree symbol hmem
    rcases List.mem_cons.mp hmem with h | h
    · cases h
      exact ⟨.inl rfl, rfl⟩
    · cases List.mem_singleton.mp h
      exact ⟨.inr rfl, rfl⟩
  have hseed : ∀ tree symbol, Request.derivative tree symbol ∈ infinityThenSymbol →
      seed tree symbol = seed (.symbol "inf") "inf" := by
    intro tree symbol hmem
    rcases hcases tree symbol hmem with ⟨rfl | rfl, rfl⟩
    · rw [seed, seed, hcanonical]
    · rfl
  have hdistinguished : Distinguished infinityThenSymbol :=
    { isRead := fun tree symbol hmem => by
        rcases hcases tree symbol hmem with ⟨rfl | rfl, -⟩
        · exact hinfinity
        · exact hsymbol
      seed_eq := fun tree symbol other symbol' hmem hmem' _ =>
        (hseed tree symbol hmem).trans (hseed other symbol' hmem').symm }
  rcases transparent_iff _ _ hinfinity hsymbol infinityThenSymbol hdistinguished with
    ⟨htext, hrun, -⟩
  refine ⟨htext.mpr hnamed, hdistinguished, fun hexact => ?_⟩
  have hsame := hrun.mp hexact
    [.derivative (.ofDecimals (.number ⟨1, 999⟩)) "inf"] (.symbol "inf") "inf" List.prefix_rfl
    (.ofDecimals (.number ⟨1, 999⟩)) List.mem_cons_self hnamed
  have hzero : (Arithmetic.zero : Float) ≠ Arithmetic.one := by decide
  exact hzero (Expr.number.inj hsame)

end DerivativeCache

end Metrology
