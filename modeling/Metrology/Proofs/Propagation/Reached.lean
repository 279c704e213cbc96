import Metrology.Proofs.Propagation.Correspondence
import Metrology.Proofs.Propagation.Cycle
import Metrology.Proofs.Propagation.Depth
import Metrology.Proofs.Propagation.Inlining

/-!
# What answers depend on

The answers about a measurement depend on nothing but what its formula reaches. A second
list may hold the measurements in another order, leave out what is not reached, and hold
further measurements, as long as no formula on the way mentions their symbols. Then every
symbol means the same measurement in both lists, or none in either, and the computation is
the same. Only the number of composite measurements may differ, and with it the fuel, of
which there is enough in both lists.

Nothing is asked of what is reached: formulas may be unreadable, form cycles or refer to
nothing, and samples may be missing. The failures are the same ones then.

## Main definitions

* `Graph.Mentioned`: The symbols of the formulas that are reached.
* `Graph.Covers`: A graph with all that is reached in another one.
* `Propagator.SameAnswers`: Two lists with the same answers about a measurement.

## Theorems

* `Graph.Covers.corresponds`: What is reached corresponds to itself.
* `Graph.covers_of_unmentioned`: Measurements that are not mentioned come and go.
* `Propagator.answers_of_reached`: The answers depend on what is reached.
-/

namespace Metrology

variable {σ α : Type}

namespace Graph

/-- A symbol that the formula of a measurement mentions, or one of the formulas that it
    reaches. -/
def Mentioned (g : Graph α) (start : Measurement α) (symbol : String) : Prop :=
  ∃ c tree, g.Reaches start (.composite c) ∧ c.tree (α := α) = .ok tree ∧
    symbol ∈ tree.freeSymbols

/-- A graph with the same constants that has everything that is reached in another one,
    and nothing else with a symbol that is mentioned there. -/
structure Covers (g' g : Graph α) (start : Measurement α) : Prop where
  constants : g'.constants = g.constants
  reached : ∀ other, g.Reaches start other → other ∈ g'.measurements
  nothing_else : ∀ other ∈ g'.measurements, ∀ symbol, other.symbol? = some symbol →
    g.Mentioned start symbol → g.Reaches start other

/-- A measurement that is reached is the start, or its symbol is mentioned. -/
theorem Reaches.mentioned (g : Graph α) (start other : Measurement α)
    (h : g.Reaches start other) :
    other = start ∨ ∃ symbol, other.symbol? = some symbol ∧ g.Mentioned start symbol := by
  rcases Relation.ReflTransGen.cases_tail h with rfl | ⟨m, hm, href⟩
  · exact Or.inl rfl
  · cases m with
    | direct d => exact href.elim
    | composite c =>
        rcases href with ⟨tree, htree, symbol, hsymbol, hfind⟩
        exact Or.inr ⟨symbol, (g.find?_eq_some c symbol other hfind).2.1, c, tree, hm, htree,
          hsymbol⟩

/-- What a mentioned symbol means in one graph it means in the other. -/
theorem Covers.find? (g g' : Graph α) (start : Measurement α) (h : g'.Covers g start)
    (hstart : start ∈ g.measurements) (hsymbols : g'.DistinctSymbols) (c : CompositeMeasurement)
    (tree : Expr Decimal) (symbol : String) (hc : g.Reaches start (.composite c))
    (htree : c.tree (α := α) = .ok tree) (hsymbol : symbol ∈ tree.freeSymbols) :
    g'.find? c symbol = g.find? c symbol ∧
      ∀ other, g.find? c symbol = some other → g.Reaches start other := by
  have hreaches : ∀ other, g.find? c symbol = some other → g.Reaches start other :=
    fun other hfind => hc.tail ⟨tree, htree, symbol, hsymbol, hfind⟩
  refine ⟨?_, hreaches⟩
  cases hfind : g.find? c symbol with
  | none =>
      -- Whatever carries the symbol is reached, so it would have been found.
      rw [find?_eq_none] at hfind ⊢
      intro other hother hid hsame
      have hmentioned : g.Mentioned start symbol := ⟨c, tree, hc, htree, hsymbol⟩
      have hmem := (h.nothing_else other hother symbol hsame hmentioned).mem g start other hstart
      exact hfind other hmem hid hsame
  | some other =>
      rcases g.find?_eq_some c symbol other hfind with ⟨-, hsame, hid⟩
      have hother := h.reached other (hreaches other hfind)
      cases hfound : g'.find? c symbol with
      | none => exact absurd hsame ((g'.find?_eq_none c symbol).mp hfound other hother hid)
      | some found =>
          rcases g'.find?_eq_some c symbol found hfound with ⟨hmem, hcarries, -⟩
          rw [hsymbols.eq_of_symbol g' found other hmem hother symbol hcarries hsame]

/-- What is reached corresponds to itself. -/
theorem Covers.corresponds (g g' : Graph α) (start : Measurement α) (h : g'.Covers g start)
    (hstart : start ∈ g.measurements) (hsymbols : g'.DistinctSymbols) :
    g.Corresponds g' fun m m' => m' = m ∧ g.Reaches start m where
  constants := h.constants
  id_eq _ _ hm := congrArg Measurement.id hm.1
  symbol_eq _ _ hm := congrArg Measurement.symbol? hm.1
  direct d _ hm := ⟨d, hm.1⟩
  composite _ _ hm := hm.1
  found c tree symbol hc htree hsymbol := by
    rcases h.find? g g' start hstart hsymbols c tree symbol hc.2 htree hsymbol with
      ⟨hsame, hreaches⟩
    rw [hsame]
    cases hfind : g.find? c symbol with
    | none => exact .none
    | some other => exact .some ⟨rfl, hreaches other hfind⟩

/-- Measurements whose symbols are not mentioned may be added, changed and removed, and
    the others may be put into another order. -/
theorem covers_of_unmentioned (g g' : Graph α) (hids : g.DistinctIds)
    (hsymbols : g.DistinctSymbols) (hconstants : g'.constants = g.constants)
    (start : Measurement α) (hstart : start ∈ g.measurements)
    (kept removed added : List (Measurement α)) (hg : g.measurements.Perm (kept ++ removed))
    (hg' : g'.measurements.Perm (kept ++ added))
    (hfree : ∀ other ∈ removed ++ added, other ≠ start ∧
      ∀ symbol, other.symbol? = some symbol → ¬ g.Mentioned start symbol) :
    g'.Covers g start where
  constants := hconstants
  reached other hother := by
    rcases List.mem_append.mp (hg.mem_iff.mp (hother.mem g start other hstart)) with hkept | hgone
    · exact hg'.mem_iff.mpr (List.mem_append_left _ hkept)
    · -- Nothing that is removed is reached.
      rcases hfree other (List.mem_append_left _ hgone) with ⟨hne, hunmentioned⟩
      rcases hother.mentioned with rfl | ⟨symbol, hsymbol, hmentioned⟩
      · exact absurd rfl hne
      · exact absurd hmentioned (hunmentioned symbol hsymbol)
  nothing_else other hother symbol hsymbol hmentioned := by
    rcases List.mem_append.mp (hg'.mem_iff.mp hother) with hkept | hnew
    · rcases hmentioned with ⟨c, tree, hc, htree, hfreeSymbol⟩
      have hmem : other ∈ g.measurements := hg.mem_iff.mpr (List.mem_append_left _ hkept)
      by_cases hself : other.id = c.id
      · -- A formula that mentions its own symbol is reached itself.
        have hsame := hids.eq_of_id g other (.composite c) hmem (hc.mem g start _ hstart) hself
        rw [hsame]
        exact hc
      · cases hfind : g.find? c symbol with
        | none => exact absurd hsymbol ((g.find?_eq_none c symbol).mp hfind other hmem hself)
        | some found =>
            rcases g.find?_eq_some c symbol found hfind with ⟨hfound, hcarries, -⟩
            rw [hsymbols.eq_of_symbol g other found hmem hfound symbol hsymbol hcarries]
            exact hc.tail ⟨tree, htree, symbol, hfreeSymbol, hfind⟩
    · exact absurd hmentioned ((hfree other (List.mem_append_right _ hnew)).2 symbol hsymbol)

end Graph

namespace Evaluation

/-- Two families of computations that are one and the same have one end, if each of them
    has enough fuel. -/
theorem run_eq_of_enough {β : Type} (f f' : Nat → Evaluation σ α β) (hsame : ∀ fuel, f' fuel = f fuel)
    (limit limit' : Nat) (h : ∀ fuel, limit ≤ fuel → Coincide [] (f limit) (f fuel))
    (h' : ∀ fuel, limit' ≤ fuel → Coincide [] (f' limit') (f' fuel)) (store : σ) :
    (f limit).run (.fresh store) = (f' limit').run (.fresh store) := by
  rw [(h (max limit limit') (Nat.le_max_left _ _) (.fresh store) rfl).1,
    (h' (max limit limit') (Nat.le_max_right _ _) (.fresh store) rfl).1, hsame]

end Evaluation

namespace Propagator

variable [Scalar α] [DerivativeStore σ α]

/-- Two lists with the same answers about a measurement: values, missing results and
    failures, and the store of derivatives that an answer leaves behind. -/
structure SameAnswers (p : Propagator σ α) (m : Measurement α)
    (all others : List (Measurement α)) : Prop where
  mean : (Propagator.mean m all).run p = (Propagator.mean m others).run p
  combinedVariance : ∀ types, (Propagator.combinedVariance m all types).run p =
    (Propagator.combinedVariance m others types).run p
  uncertainty : ∀ types, (Propagator.uncertainty m all types).run p =
    (Propagator.uncertainty m others types).run p
  minDigits : Propagator.minDigits p.constants m all = Propagator.minDigits p.constants m others

/-- A list that covers what is reached has the same answers. -/
theorem sameAnswers_of_covers (p : Propagator σ α) (m : Measurement α)
    (all others : List (Measurement α)) (hm : m ∈ all)
    (hsymbols : (p.graph others).DistinctSymbols)
    (h : (p.graph others).Covers (p.graph all) m) : p.SameAnswers m all others := by
  have hcorresponds := h.corresponds _ _ m hm hsymbols
  have hdirect : ∀ {β : Type} (read : DirectMeasurement α → β) (d d' : DirectMeasurement α),
      (Measurement.direct d' = .direct d ∧ (p.graph all).Reaches m (.direct d)) →
        read d' = read d :=
    fun read d d' hd => congrArg read (Measurement.direct.inj hd.1)
  have hvariance : ∀ types, (Propagator.combinedVariance m all types).run p =
      (Propagator.combinedVariance m others types).run p := by
    intro types
    rw [Propagator.combinedVariance, Propagator.combinedVariance, run_ask, run_ask]
    rw [Evaluation.run_eq_of_enough (fun fuel => Evaluation.combinedVariance (p.graph all) types
      fuel m) (fun fuel => Evaluation.combinedVariance (p.graph others) types fuel m)
      (fun fuel => hcorresponds.combinedVariance_eq types (hdirect _) (hdirect _) fuel m m
        ⟨rfl, .refl⟩) _ _
      (Evaluation.combinedVariance_enough _ types m) (Evaluation.combinedVariance_enough _ types m)]
  refine ⟨?_, hvariance, fun types => ?_, ?_⟩
  · rw [Propagator.mean, Propagator.mean, run_ask, run_ask]
    rw [Evaluation.run_eq_of_enough (fun fuel => Evaluation.mean (p.graph all) fuel m)
      (fun fuel => Evaluation.mean (p.graph others) fuel m)
      (fun fuel => hcorresponds.mean_eq (hdirect _) fuel m m ⟨rfl, .refl⟩) _ _
      (Evaluation.mean_enough _ m) (Evaluation.mean_enough _ m)]
  · rw [Propagator.uncertainty, Propagator.uncertainty, Outcome.run_bind, Outcome.run_bind,
      hvariance types]
  · exact congrArg Prod.fst (Evaluation.run_eq_of_enough
      (fun fuel => Evaluation.minDigits (σ := NoMemory α) (p.graph all) fuel m)
      (fun fuel => Evaluation.minDigits (p.graph others) fuel m)
      (fun fuel => hcorresponds.minDigits_eq (hdirect _) fuel m m ⟨rfl, .refl⟩) _ _
      (Evaluation.minDigits_enough _ m) (Evaluation.minDigits_enough _ m) ⟨⟩)

/-- The answers about a measurement depend on what it reaches. They are the same over
    every list that has all of this unchanged and nothing else whose symbol is mentioned.
    In particular they are so over the same measurements in another order, and after any
    measurements whose symbols are not mentioned have been added, changed or removed. -/
theorem answers_of_reached (p : Propagator σ α) (all others : List (Measurement α))
    (hids : (all.map Measurement.id).Nodup) (hsymbols : (all.filterMap Measurement.symbol?).Nodup)
    (hothers : (others.filterMap Measurement.symbol?).Nodup) (m : Measurement α) (hm : m ∈ all) :
    ((p.graph others).Covers (p.graph all) m → p.SameAnswers m all others) ∧
    ∀ kept removed added : List (Measurement α), all.Perm (kept ++ removed) →
      others.Perm (kept ++ added) →
      (∀ other ∈ removed ++ added, other ≠ m ∧
        ∀ symbol, other.symbol? = some symbol → ¬ (p.graph all).Mentioned m symbol) →
        p.SameAnswers m all others := by
  have hcovered := p.sameAnswers_of_covers m all others hm hothers
  refine ⟨hcovered, fun kept removed added hall hothers hfree => hcovered ?_⟩
  exact (p.graph all).covers_of_unmentioned (p.graph others) hids hsymbols rfl m hm kept removed
    added hall hothers hfree

section Doubles

/-- A length. -/
def aLength : Measurement Float :=
  .direct { DirectMeasurement.empty ⟨1⟩ "l" "m" with values := [1.5], minDigits := 2 }

/-- The double of the length. -/
def aDouble : CompositeMeasurement := ⟨⟨2⟩, ⟨"d"⟩, ⟨"2 * l"⟩⟩

/-- A time without samples, which no formula mentions. -/
def aTime : Measurement Float := .direct (.empty ⟨3⟩ "t" "s")

/-- A formula that cannot be read, which no other formula mentions. -/
def aFragment : Measurement Float := .composite ⟨⟨3⟩, ⟨"z"⟩, ⟨"l * ("⟩⟩

/-- Nothing but the length is mentioned below its double. -/
theorem mentioned_aDouble (symbol : String)
    (h : (⟨[aLength, .composite aDouble, aTime], Bindings.empty⟩ : Graph Float).Mentioned
      (.composite aDouble) symbol) : symbol = "l" := by
  rcases h with ⟨c, tree, hc, htree, hsymbol⟩
  have hmem := hc.mem _ _ _ (List.mem_cons_of_mem _ List.mem_cons_self)
  have hsame : c = aDouble := by simpa [aLength, aTime] using hmem
  have hread : ((aDouble.tree (α := Float)).toOption.map Expr.freeSymbols) = some ["l"] := by
    decide +kernel
  rw [← hsame, htree] at hread
  have hsymbols : tree.freeSymbols = ["l"] := Option.some.inj hread
  rw [hsymbols] at hsymbol
  exact List.mem_singleton.mp hsymbol

/-- The double of a length is what it is after a time has given way to a formula that
    cannot be read, and the rest has been turned around. -/
theorem answers_of_reached_aDouble :
    (⟨Bindings.empty, ⟨⟩⟩ : Propagator (NoMemory Float) Float).SameAnswers (.composite aDouble)
        [aLength, .composite aDouble, aTime] [aFragment, .composite aDouble, aLength] ∧
      Propagator.minDigits Bindings.empty (.composite aDouble)
        [aFragment, .composite aDouble, aLength] = .ok 2 := by
  refine ⟨?_, Outcome.eq_ok_of_toOption _ _ (by decide +kernel)⟩
  refine (answers_of_reached (⟨Bindings.empty, ⟨⟩⟩ : Propagator (NoMemory Float) Float)
    [aLength, .composite aDouble, aTime] [aFragment, .composite aDouble, aLength]
    (by decide) (by decide +kernel) (by decide +kernel) (.composite aDouble)
    (List.mem_cons_of_mem _ List.mem_cons_self)).2 [aLength, .composite aDouble] [aTime]
    [aFragment] (List.Perm.refl _) (List.reverse_perm [aLength, .composite aDouble, aFragment]) ?_
  have htime : aTime.symbol? = some "t" := by decide +kernel
  have hfragment : aFragment.symbol? = some "z" := by decide +kernel
  intro other hother
  have hcases : other = aTime ∨ other = aFragment := by simpa using hother
  rcases hcases with rfl | rfl
  · refine ⟨by simp [aTime], fun symbol hsymbol hmentioned => ?_⟩
    rw [mentioned_aDouble symbol hmentioned, htime] at hsymbol
    exact absurd hsymbol (by decide)
  · refine ⟨by simp [aFragment, aDouble], fun symbol hsymbol hmentioned => ?_⟩
    rw [mentioned_aDouble symbol hmentioned, hfragment] at hsymbol
    exact absurd hsymbol (by decide)

end Doubles

end Propagator

end Metrology
