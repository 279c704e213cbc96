import Mathlib.Tactic.Choose
import Metrology.Proofs.Expr.Substitution
import Metrology.Proofs.Propagation.Cycle

/-!
# Inlining formulas

The mean of a composite measurement is the value of one formula. Its formula
mentions other measurements; those that are composite themselves are replaced
by their formulas, and so on, until only the symbols of direct measurements and
of constants are left. With the means of the direct measurements bound to their
symbols, over the constants, that formula has the mean as its value.

The evaluation never builds this formula. Each composite measurement is
evaluated on its own, with only the means of what it mentions at hand, and a
mean is found once however often it is mentioned. That the value is the same
needs every symbol to mean the same measurement wherever it stands, which is
what distinct symbols are for: a composite measurement never sees its own
symbol, and would find another measurement under it if there were one.

## Main definitions

* `Graph.Inlines`: The formula with composite measurements replaced.
* `Graph.Overlays`: The constants, overlaid with the means of direct
  measurements.
* `Graph.Denotes`: What a measurement's mean should be.
* `Graph.inlinedMeans`: These means as an account.

## Theorems

* `Graph.Inlines.unique`, `Graph.Settled.inlines`: There is one inlined formula.
* `Graph.exists_overlay`, `Graph.Overlays.unique`: There is one overlay.
* `Graph.bound_constant`, `Graph.bound_mean`: What names are bound to inside of a
  measurement.
* `Graph.evaluate_inlined`: One step of inlining keeps the value.
* `Propagator.mean_eq_inlined`: The mean is the value of the inlined formula.
-/

namespace Metrology

namespace Graph

variable {α : Type}

/-- No two measurements are found under one symbol. -/
def DistinctSymbols (g : Graph α) : Prop := (g.measurements.filterMap Measurement.symbol?).Nodup

theorem DistinctSymbols.eq_of_symbol (g : Graph α) (h : g.DistinctSymbols)
    (m other : Measurement α) (hm : m ∈ g.measurements) (hother : other ∈ g.measurements)
    (symbol : String) (hsymbol : m.symbol? = some symbol) (hsame : other.symbol? = some symbol) :
    m = other := by
  rw [DistinctSymbols, List.Nodup, List.pairwise_filterMap] at h
  have hpairs : g.measurements.Pairwise fun a b =>
      a.symbol? = some symbol → b.symbol? = some symbol → a = b :=
    h.imp fun hdiffer ha hb => absurd rfl (hdiffer symbol ha symbol hb)
  have hflipped : g.measurements.Pairwise (flip fun a b =>
      a.symbol? = some symbol → b.symbol? = some symbol → a = b) :=
    h.imp fun hdiffer hb ha => absurd rfl (hdiffer symbol ha symbol hb)
  exact hpairs.forall_of_forall_of_flip (fun _ _ _ _ => rfl) hflipped hm hother hsymbol hsame

/-- A formula with composite measurements replaced by their formulas, which are
    inlined themselves. What means no composite measurement stays. -/
inductive Inlines (g : Graph α) : CompositeMeasurement → Expr Decimal → Prop
  | formula (m : CompositeMeasurement) (tree : Expr Decimal) (part : String → Expr Decimal)
      (htree : m.tree (α := α) = .ok tree)
      (hkept : ∀ symbol ∈ tree.freeSymbols,
        (∀ c, g.find? m symbol ≠ some (.composite c)) → part symbol = .symbol symbol)
      (hinlined : ∀ symbol ∈ tree.freeSymbols,
        ∀ c, g.find? m symbol = some (.composite c) → Inlines g c (part symbol)) :
      Inlines g m (tree.substitute part)

/-- There is at most one inlined formula. -/
theorem Inlines.unique (g : Graph α) (m : CompositeMeasurement) (inlined : Expr Decimal)
    (h : g.Inlines m inlined) : ∀ other, g.Inlines m other → other = inlined := by
  induction h with
  | formula m tree part htree hkept hinlined ih =>
      intro other hother
      cases hother with
      | formula _ tree' part' htree' hkept' hinlined' =>
          rw [htree, Except.ok.injEq] at htree'
          subst htree'
          refine Expr.substitute_congr part' part tree (fun symbol hsymbol => ?_)
          have hfree := (Expr.mem_freeSymbols symbol tree).mpr hsymbol
          by_cases hcomposite : ∃ c, g.find? m symbol = some (.composite c)
          · rcases hcomposite with ⟨c, hfind⟩
            exact ih symbol hfree c hfind _ (hinlined' symbol hfree c hfind)
          · rw [hkept symbol hfree (fun c hfind => hcomposite ⟨c, hfind⟩),
              hkept' symbol hfree (fun c hfind => hcomposite ⟨c, hfind⟩)]

/-- A settled composite measurement has an inlined formula. -/
theorem Settled.inlines (g : Graph α) (hids : g.DistinctIds) (m : Measurement α)
    (h : g.Settled m) : ∀ c, m = .composite c → ∃ inlined, g.Inlines c inlined := by
  induction h with
  | direct m =>
      intro c hc
      cases hc
  | composite m dependencies hdependencies _ ih =>
      intro c hc
      rw [← Measurement.composite.inj hc]
      rcases g.dependencies_eq_ok hids m dependencies hdependencies with ⟨tree, htree, -, hmem⟩
      -- Each symbol on its own has something to be replaced by.
      have hparts : ∀ symbol, ∃ part : Expr Decimal, symbol ∈ tree.freeSymbols →
          ((∀ c, g.find? m symbol ≠ some (.composite c)) → part = .symbol symbol) ∧
            ∀ c, g.find? m symbol = some (.composite c) → g.Inlines c part := by
        intro symbol
        by_cases hcomposite : symbol ∈ tree.freeSymbols ∧
            ∃ c, g.find? m symbol = some (.composite c)
        · rcases hcomposite with ⟨hfree, c, hfind⟩
          rcases ih (.composite c) ((hmem _).mpr ⟨symbol, hfree, hfind⟩) c rfl with ⟨part, hpart⟩
          refine ⟨part, fun _ => ⟨fun hnone => absurd hfind (hnone c), fun c' hfind' => ?_⟩⟩
          rw [hfind, Option.some.injEq, Measurement.composite.injEq] at hfind'
          exact hfind' ▸ hpart
        · refine ⟨.symbol symbol, fun hfree => ⟨fun _ => rfl, fun c hfind => ?_⟩⟩
          exact absurd ⟨hfree, c, hfind⟩ hcomposite
      choose part hpart using hparts
      exact ⟨_, .formula m tree part htree (fun symbol hfree => (hpart symbol hfree).1)
        (fun symbol hfree => (hpart symbol hfree).2)⟩

variable [Scalar α]

/-- The constants, overlaid with the means of the direct measurements below a
    measurement. -/
structure Overlays (g : Graph α) (start : Measurement α) (bound : Bindings α) : Prop where
  measured : ∀ d, g.Reaches start (.direct d) → ∀ symbol, d.name.symbol? = some symbol →
    Evaluation.directMean d = .ok (bound symbol)
  constant : ∀ symbol, (∀ d, g.Reaches start (.direct d) → d.name.symbol? ≠ some symbol) →
    bound symbol = g.constants symbol

/-- The direct measurements below a measurement have means. -/
def Measured (g : Graph α) (start : Measurement α) : Prop :=
  ∀ d, g.Reaches start (.direct d) → ∃ q, Evaluation.directMean d = .ok (some q)

theorem exists_overlay (g : Graph α) (hsymbols : g.DistinctSymbols) (start : Measurement α)
    (hstart : start ∈ g.measurements) (hmeasured : g.Measured start) :
    ∃ bound, g.Overlays start bound := by
  have hvalues : ∀ symbol, ∃ value : Option (Quantity α),
      (∀ d, g.Reaches start (.direct d) → d.name.symbol? = some symbol →
        Evaluation.directMean d = .ok value) ∧
      ((∀ d, g.Reaches start (.direct d) → d.name.symbol? ≠ some symbol) →
        value = g.constants symbol) := by
    intro symbol
    by_cases hcarried : ∃ d, g.Reaches start (.direct d) ∧ d.name.symbol? = some symbol
    · rcases hcarried with ⟨d, hreaches, hsymbol⟩
      rcases hmeasured d hreaches with ⟨q, hq⟩
      refine ⟨some q, fun other hother hsame => ?_, fun hnone => absurd hsymbol (hnone d hreaches)⟩
      have heq := hsymbols.eq_of_symbol g (.direct d) (.direct other) (hreaches.mem g _ _ hstart)
        (hother.mem g _ _ hstart) symbol hsymbol hsame
      rw [← Measurement.direct.inj heq]
      exact hq
    · refine ⟨g.constants symbol, fun d hreaches hsymbol => ?_, fun _ => rfl⟩
      exact absurd ⟨d, hreaches, hsymbol⟩ hcarried
  choose bound hbound using hvalues
  exact ⟨bound, fun d hreaches symbol => (hbound symbol).1 d hreaches,
    fun symbol => (hbound symbol).2⟩

/-- There is at most one overlay. -/
theorem Overlays.unique (g : Graph α) (start : Measurement α) (bound other : Bindings α)
    (h : g.Overlays start bound) (hother : g.Overlays start other) : other = bound := by
  funext symbol
  by_cases hcarried : ∃ d, g.Reaches start (.direct d) ∧ d.name.symbol? = some symbol
  · rcases hcarried with ⟨d, hreaches, hsymbol⟩
    have hmean := hother.measured d hreaches symbol hsymbol
    rw [h.measured d hreaches symbol hsymbol, Except.ok.injEq] at hmean
    exact hmean.symm
  · have hnone : ∀ d, g.Reaches start (.direct d) → d.name.symbol? ≠ some symbol :=
      fun d hreaches hsymbol => hcarried ⟨d, hreaches, hsymbol⟩
    rw [h.constant symbol hnone, hother.constant symbol hnone]

section Names

variable (g : Graph α) (hids : g.DistinctIds) (m : CompositeMeasurement)
  (dependencies : List (Measurement α)) (hdependencies : g.dependencies m = .ok dependencies)
  (value : Measurement α → Option (Quantity α) → Prop) (bound : Bindings α)
  (hbinds : Evaluation.Binds value dependencies g.constants bound)

include hids hdependencies hbinds

omit [Scalar α] in
/-- A name that means no measurement stays bound to its constant. -/
theorem bound_constant (name : String) (hfind : g.find? m name = none) :
    bound name = g.constants name := by
  rcases hbinds.apply _ _ _ _ name with ⟨other, hother, hsymbol, -⟩ | ⟨-, hresult⟩
  · -- A dependency under this name would have been found for it.
    have hmem := g.mem_dependencies_iff hids m dependencies hdependencies
    rcases (hmem other).mp hother with ⟨-, -, symbol, -, hsame⟩
    rcases g.find?_eq_some m symbol other hsame with ⟨hotherMem, -, hid⟩
    exact absurd hsymbol ((g.find?_eq_none m name).mp hfind other hotherMem hid)
  · exact hresult

omit [Scalar α] in
/-- A name that means a measurement is bound to its mean. -/
theorem bound_mean (hsymbols : g.DistinctSymbols) (name : String) (other : Measurement α)
    (href : g.References (.composite m) other) (hsymbol : other.symbol? = some name) :
    ∃ q, value other (some q) ∧ bound name = some q := by
  have hmem := g.mem_dependencies_iff hids m dependencies hdependencies
  rcases hbinds.apply _ _ _ _ name with ⟨found, hfound, hsame, hmean⟩ | ⟨hnone, -⟩
  · have heq := hsymbols.eq_of_symbol g found other ((hmem found).mp hfound).mem href.mem name
      hsame hsymbol
    exact heq ▸ hmean
  · exact absurd hsymbol (hnone other ((hmem other).mpr href))

end Names

/-- A name that means no measurement inside of a composite one is not overlaid. -/
theorem Overlays.constant_of_find? (g : Graph α) (hids : g.DistinctIds) (start : Measurement α)
    (hstart : start ∈ g.measurements) (bound : Bindings α) (h : g.Overlays start bound)
    (m : CompositeMeasurement) (hm : .composite m ∈ g.measurements) (name : String)
    (hfind : g.find? m name = none) : bound name = g.constants name := by
  -- A direct measurement is another one than the composite, so it would be found.
  refine h.constant name (fun d hreaches hsymbol => ?_)
  have hmem := hreaches.mem g _ _ hstart
  refine (g.find?_eq_none m name).mp hfind (.direct d) hmem (fun hid => ?_) hsymbol
  cases hids.eq_of_id g (.direct d) (.composite m) hmem hm hid

section Means

variable (g : Graph α) (hids : g.DistinctIds) (hsymbols : g.DistinctSymbols)
  (start : Measurement α) (hstart : start ∈ g.measurements) (bound : Bindings α)
  (hoverlays : g.Overlays start bound)

/-- What the mean of a measurement should be: that of its samples, or the value of
    its inlined formula. -/
def Denotes (bound : Bindings α) : Measurement α → Quantity α → Prop
  | .direct d, q => Evaluation.directMean d = .ok (some q)
  | .composite c, q => ∀ inlined, g.Inlines c inlined →
      (Expr.ofDecimals inlined).evaluate bound = .ok q

/-- A mean is there, and it is what it should be. -/
def Means (bound : Bindings α) (m : Measurement α) (value : Option (Quantity α)) : Prop :=
  ∃ q, value = some q ∧ g.Denotes bound m q

include hids hsymbols hstart hoverlays in
/-- One step of inlining keeps the value: with the means of its dependencies bound, a
    formula has the value that it has inlined. -/
theorem evaluate_inlined (m : CompositeMeasurement) (tree inlined : Expr Decimal)
    (dependencies : List (Measurement α)) (bound' : Bindings α)
    (hreaches : g.Reaches start (.composite m))
    (htree : m.tree (α := α) = .ok tree) (hdependencies : g.dependencies m = .ok dependencies)
    (hbinds : Evaluation.Binds (g.Means bound) dependencies g.constants bound')
    (hinlines : g.Inlines m inlined) :
    (Expr.ofDecimals inlined).evaluate bound = (Expr.ofDecimals tree).evaluate bound' := by
  cases hinlines with
  | formula _ tree' part htree' hkept hinlined =>
      rw [htree, Except.ok.injEq] at htree'
      subst htree'
      rw [Expr.ofDecimals, Expr.map_substitute]
      refine Expr.evaluate_substitute bound bound' _ _ (fun name hname => ?_)
      rw [Expr.mentions_map, ← Expr.mem_freeSymbols] at hname
      -- What the name means decides what stands in its place.
      rcases hfind : g.find? m name with _ | other
      · rw [hkept name hname (fun c hc => by rw [hfind] at hc; cases hc)]
        have hconstant := g.bound_constant hids m dependencies hdependencies _ bound' hbinds name hfind
        have hoverlay := hoverlays.constant_of_find? g hids start hstart bound m
          (hreaches.mem g _ _ hstart) name hfind
        change Expr.lookup bound' name = Expr.lookup bound name
        rw [Expr.lookup, Expr.lookup, hconstant, hoverlay]
      · have href : g.References (.composite m) other := ⟨tree, htree, name, hname, hfind⟩
        have hsymbol := (g.find?_eq_some m name other hfind).2.1
        rcases g.bound_mean hids m dependencies hdependencies _ bound' hbinds hsymbols name other
          href hsymbol with ⟨mean, ⟨q, hq, hdenotes⟩, hresult⟩
        rw [Option.some.inj hq] at hresult
        have hlookup : Expr.lookup bound' name = .ok q := by rw [Expr.lookup, hresult]
        rw [hlookup]
        -- The symbol of a direct measurement stays, a composite one is inlined.
        cases other with
        | direct d =>
            rw [hkept name hname (fun c hc => by rw [hfind] at hc; cases hc)]
            have hdirect := hoverlays.measured d (hreaches.tail href) name hsymbol
            have hmean : Evaluation.directMean d = .ok (some q) := hdenotes
            rw [hmean, Except.ok.injEq] at hdirect
            change _ = Expr.lookup bound name
            rw [Expr.lookup, ← hdirect]
        | composite c => exact (hdenotes _ (hinlined name hname c hfind)).symm

include hids in
/-- A measurement whose formula has a value once inlined has dependencies with means
    to be. -/
theorem denotes_dependency (hmeasured : g.Measured start) (m : CompositeMeasurement)
    (dependencies : List (Measurement α)) (hreaches : g.Reaches start (.composite m))
    (hsettled : g.Settled (.composite m)) (hdependencies : g.dependencies m = .ok dependencies)
    (h : ∃ q, g.Denotes bound (.composite m) q) :
    ∀ dependency ∈ dependencies, ∃ q, g.Denotes bound dependency q := by
  intro dependency hmem
  have href := (g.mem_dependencies_iff hids m dependencies hdependencies dependency).mp hmem
  cases dependency with
  | direct d => exact hmeasured d (hreaches.tail href)
  | composite c =>
      rcases h with ⟨q, hdenotes⟩
      rcases hsettled.inlines g hids _ m rfl with ⟨inlined, hinlines⟩
      have hvalue := hdenotes inlined hinlines
      cases hinlines with
      | formula _ tree part htree hkept hinlined =>
          rcases href with ⟨tree', htree', name, hname, hfind⟩
          rw [htree, Except.ok.injEq] at htree'
          rw [← htree'] at hname
          have hpart := hinlined name hname c hfind
          rw [Expr.ofDecimals, Expr.map_substitute] at hvalue
          rw [Expr.mem_freeSymbols, ← Expr.mentions_map (Arithmetic.ofDecimal (α := α))] at hname
          rcases Expr.evaluate_of_substitute bound _ _ name hname q hvalue with ⟨p, hp⟩
          exact ⟨p, fun other hother => hpart.unique g c _ other hother ▸ hp⟩

/-- The means of inlined formulas as an account. A mean fails only where there is none
    to be. -/
def inlinedMeans (hsettled : g.Settled start) (hmeasured : g.Measured start) :
    Evaluation.MeanAccount g where
  reached := g.Approach start
  value := g.Means bound
  failure m _ := ¬ ∃ q, g.Denotes bound m q
  known id v := ∀ m ∈ g.measurements, m.id = id → g.Means bound m v
  limit := g.depth start
  value_of_known _ m v h hknown := hknown m h.mem rfl
  known_of_value _ m v h hvalue := by
    intro other hother hid
    rw [hids.eq_of_id g other m hother h.mem hid]
    exact hvalue
  direct_value _ d v h hmean := by
    rcases hmeasured d h.walk.reaches with ⟨q, hq⟩
    rw [hq, Except.ok.injEq] at hmean
    exact ⟨q, hmean.symm, hq⟩
  direct_failure _ d e h herror := by
    rcases hmeasured d h.walk.reaches with ⟨q, hq⟩
    rw [herror] at hq
    cases hq
  closes path m h hclosed := by
    -- Below a settled measurement no path closes.
    have hcycle := (h.walk.mem_path g _ _ _ m (h.mem_path g hids start path m hclosed)).2
    exact absurd hcycle ((hsettled.of_reaches g hids _ _ h.walk.reaches).acyclic g hids)
  unresolved _ m e h herror := by
    rcases (hsettled.of_reaches g hids _ _ h.walk.reaches).resolves with ⟨dependencies, hok⟩
    rw [herror] at hok
    cases hok
  enters path m dependencies h hnew hdependencies :=
    h.dependency g hids start path m dependencies hnew hdependencies
  fails _ m dependencies h hdependencies dependency hmem _ hnone hdenotes :=
    hnone (g.denotes_dependency hids start bound hmeasured m dependencies h.walk.reaches
      (hsettled.of_reaches g hids _ _ h.walk.reaches) hdependencies hdenotes dependency hmem)
  missing _ _ _ _ _ _ _ hnone := by
    rcases hnone with ⟨q, hq, -⟩
    cases hq
  evaluated _ m tree dependencies bound' q h htree hdependencies hbinds hvalue := by
    refine ⟨q, rfl, fun inlined hinlines => ?_⟩
    rw [g.evaluate_inlined hids hsymbols start hstart bound hoverlays m tree inlined dependencies
      bound' h.walk.reaches htree hdependencies hbinds hinlines]
    exact hvalue
  unevaluated _ m tree dependencies bound' e h htree hdependencies hbinds herror := by
    rintro ⟨q, hdenotes⟩
    rcases (hsettled.of_reaches g hids _ _ h.walk.reaches).inlines g hids _ m rfl with
      ⟨inlined, hinlines⟩
    have hvalue := hdenotes inlined hinlines
    rw [g.evaluate_inlined hids hsymbols start hstart bound hoverlays m tree inlined dependencies
      bound' h.walk.reaches htree hdependencies hbinds hinlines, herror] at hvalue
    cases hvalue

end Means

end Graph

namespace Propagator

open Evaluation

variable {σ α : Type} [Scalar α]

/-- A direct measurement with samples and a unit has a mean. -/
theorem directMean_of_samples (d : DirectMeasurement α) (hsamples : d.values ≠ [])
    (hunit : ∃ unit, CompoundUnit.read (α := α) d.unit = .ok unit) :
    ∃ q, directMean d = .ok (some q) := by
  rcases hunit with ⟨unit, hunit⟩
  cases hmean : d.meanValue with
  | none => exact absurd ((Statistics.mean_eq_none_iff d.values).mp hmean) hsamples
  | some mean =>
      refine ⟨.inUnit mean unit, ?_⟩
      rw [directMean, hmean, directUnit, hunit]
      rfl

/-- The mean of a composite measurement is the value of its formula with all
    composite measurements inlined, when no cycle is reached, everything resolves,
    and the direct measurements below have samples and units. There is one such
    formula, and one overlay of the constants with the means of these direct
    measurements. -/
theorem mean_eq_inlined (p : Propagator σ α) (all : List (Measurement α))
    (hids : (all.map Measurement.id).Nodup) (hsymbols : (all.filterMap Measurement.symbol?).Nodup)
    (m : CompositeMeasurement) (hm : .composite m ∈ all)
    (hacyclic : ∀ other, (p.graph all).Reaches (.composite m) other →
      ¬ (p.graph all).OnCycle other)
    (hresolves : ∀ c, (p.graph all).Reaches (.composite m) (.composite c) →
      ∃ dependencies, (p.graph all).dependencies c = .ok dependencies)
    (hmeasured : ∀ d, (p.graph all).Reaches (.composite m) (.direct d) →
      d.values ≠ [] ∧ ∃ unit, CompoundUnit.read (α := α) d.unit = .ok unit) :
    (∃! inlined, (p.graph all).Inlines m inlined) ∧
      (∃! bound, (p.graph all).Overlays (.composite m) bound) ∧
      ∀ inlined bound, (p.graph all).Inlines m inlined →
        (p.graph all).Overlays (.composite m) bound → ∀ q,
          (((Propagator.mean (.composite m) all).run p).1 = .ok (some q) ↔
            (Expr.ofDecimals inlined).evaluate bound = .ok q) := by
  have hdistinct : (p.graph all).DistinctIds := hids
  have hnamed : (p.graph all).DistinctSymbols := hsymbols
  have hsettled : (p.graph all).Settled (.composite m) :=
    (settled_iff p all hdistinct _ hm).mpr ⟨hacyclic, hresolves⟩
  have hmeans : (p.graph all).Measured (.composite m) :=
    fun d hreaches => directMean_of_samples d (hmeasured d hreaches).1 (hmeasured d hreaches).2
  refine ⟨?_, ?_, ?_⟩
  · rcases hsettled.inlines _ hdistinct _ m rfl with ⟨inlined, hinlines⟩
    exact ⟨inlined, hinlines, hinlines.unique _ m inlined⟩
  · rcases Graph.exists_overlay _ hnamed _ hm hmeans with ⟨bound, hoverlays⟩
    exact ⟨bound, hoverlays, fun other hother => hoverlays.unique _ _ bound other hother⟩
  · intro inlined bound hinlines hoverlays q
    let account := Graph.inlinedMeans (p.graph all) hdistinct hnamed (.composite m) hm bound
      hoverlays hsettled hmeans
    have houtcome := (account.meets ((p.graph all).depth (.composite m)) [] (.composite m)
      (.start _ _ hm) (Nat.le_add_left _ _)).outcome _ _ _ (Meets.follows_fresh p.store)
    constructor
    · intro hmean
      rcases houtcome.1 (some q) hmean with ⟨found, hfound, hdenotes⟩
      rw [Option.some.inj hfound]
      exact hdenotes inlined hinlines
    · -- A failure or another mean would contradict the value of the formula.
      intro hvalue
      have hdenotes : (p.graph all).Denotes bound (.composite m) q :=
        fun other hother => hinlines.unique _ m _ other hother ▸ hvalue
      cases hmean : ((Propagator.mean (.composite m) all).run p).1 with
      | error e => exact absurd ⟨q, hdenotes⟩ (houtcome.2 e hmean)
      | ok value =>
          rcases houtcome.1 value hmean with ⟨found, rfl, hfound⟩
          have hsame := hfound inlined hinlines
          rw [hvalue, Except.ok.injEq] at hsame
          rw [hsame]

/-- A measured length, its double, and the sum of both. -/
def lengthDoubled : List (Measurement Float) :=
  [.direct { DirectMeasurement.empty ⟨1⟩ "l" "m" with values := [1.5] },
    .composite ⟨⟨2⟩, ⟨"d"⟩, ⟨"2 * l"⟩⟩, .composite ⟨⟨3⟩, ⟨"s"⟩, ⟨"d + l"⟩⟩]

/-- The sum is the value of a formula in which the double is inlined. -/
theorem mean_eq_inlined_lengthDoubled :
    ∃ inlined bound,
      (⟨lengthDoubled, Bindings.empty⟩ : Graph Float).Inlines ⟨⟨3⟩, ⟨"s"⟩, ⟨"d + l"⟩⟩ inlined ∧
      ∀ q, ((Propagator.mean (.composite ⟨⟨3⟩, ⟨"s"⟩, ⟨"d + l"⟩⟩) lengthDoubled).run
          (⟨Bindings.empty, ⟨⟩⟩ : Propagator (NoMemory Float) Float)).1 = .ok (some q) ↔
        (Expr.ofDecimals inlined).evaluate bound = .ok q := by
  let p : Propagator (NoMemory Float) Float := ⟨Bindings.empty, ⟨⟩⟩
  have hids : (lengthDoubled.map Measurement.id).Nodup := by decide
  have hmem : .composite ⟨⟨3⟩, ⟨"s"⟩, ⟨"d + l"⟩⟩ ∈ lengthDoubled :=
    List.mem_cons_of_mem _ (List.mem_cons_of_mem _ List.mem_cons_self)
  have hcount : Propagator.minDigits p.constants (.composite ⟨⟨3⟩, ⟨"s"⟩, ⟨"d + l"⟩⟩)
      lengthDoubled = .ok 0 := Outcome.eq_ok_of_toOption _ _ (by decide +kernel)
  have hsettled := (settled_iff p lengthDoubled hids _ hmem).mp
    ((minDigits_outcome p lengthDoubled hids _ hmem).1 0 hcount)
  have hunit : ∃ unit, CompoundUnit.read (α := Float) "m" = .ok unit := by
    have hread : (CompoundUnit.read (α := Float) "m").toOption.isSome = true := by decide
    rcases Option.isSome_iff_exists.mp hread with ⟨unit, hunit⟩
    exact ⟨unit, Outcome.eq_ok_of_toOption _ _ hunit⟩
  have hmean := mean_eq_inlined p lengthDoubled hids (by decide) ⟨⟨3⟩, ⟨"s"⟩, ⟨"d + l"⟩⟩
    hmem hsettled.1 hsettled.2 (by
      intro d hreaches
      have hd := Graph.Reaches.mem _ _ _ hmem hreaches
      simp only [lengthDoubled, List.mem_cons, List.not_mem_nil, or_false, reduceCtorEq,
        Measurement.direct.injEq] at hd
      rw [hd]
      exact ⟨List.cons_ne_nil _ _, hunit⟩)
  rcases hmean with ⟨⟨inlined, hinlines, -⟩, ⟨bound, hoverlays, -⟩, hvalue⟩
  exact ⟨inlined, bound, hinlines, hvalue inlined bound hinlines hoverlays⟩

end Propagator

end Metrology
