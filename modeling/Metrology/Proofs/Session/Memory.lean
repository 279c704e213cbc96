import Mathlib.Data.List.Infix
import Metrology.Proofs.Report.Memory
import Metrology.Proofs.Session.Numbering

/-!
# Answers depend on the document only

A session keeps its constants and derivatives through every edit, import and
failed evaluation. The constants follow from the document, since the settings
change in one command only, which renews them. And the derivatives stay right,
since each is kept under a key made from its own formula and symbol. So the
results that a session sends are those of a propagator that has never seen
anything, as long as the keys tell the formulas and symbols of its documents
apart.

## Main definitions

* `Session.afresh`: The results that a new propagator finds for a document.
* `Session.Occurs`: The formulas and symbols that the results of a history ask for.
* `Session.Current`: Constants and derivatives as the document has them.

## Theorems

* `Session.evaluateOutput_plain`, `Session.evaluateAll_plain`: Results are those without
  a memory.
* `Session.Current.carried`, `Session.Current.snapshot`: Every command and every
  evaluation leaves a session current.
* `Session.answers_of_document`: After each frame the answers are those of a new
  propagator.
-/

namespace Metrology.Session

section Results

/-- What is shown of the outcome of an output. -/
def stateOf (output : Output) :
    Except (PropagationError Float) (Option (OutputReport Float)) → OutputState
  | .ok report =>
    ⟨output.id, output.name, report, report.bind (·.conciseText conciseDigits), none⟩
  | .error error => ⟨output.id, output.name, none, none, some error.message⟩

/-- The result of an output without a memory. -/
def plainState (document : Document Float) (constants : Bindings Float) (output : Output) :
    OutputState :=
  stateOf output ((output.evaluate document).run
    (⟨constants, ⟨⟩⟩ : Propagator (NoMemory Float) Float)).1

/-- What follows a computation starts in the state that it leaves. -/
theorem run_followed {s β γ : Type} (x : StateM s β) (f : β → StateM s γ) (state : s) :
    (x >>= f).run state = (f (x.run state).1).run (x.run state).2 := rfl

theorem run_evaluateOutput [IdSource] (document : Document Float) (output : Output)
    (p : SessionPropagator) :
    (evaluateOutput document output).run p =
      (stateOf output ((output.evaluate document).run p).1,
        ((output.evaluate document).run p).2) := by
  rw [evaluateOutput, run_followed]
  change _ = (stateOf output ((output.evaluate document).run.run p).1,
    ((output.evaluate document).run.run p).2)
  generalize (output.evaluate document).run.run p = ending
  rcases ending with ⟨outcome, next⟩
  cases outcome <;> rfl

variable [IdSource] (document : Document Float)
  (hids : (document.measurements.map Measurement.id).Nodup)
  (constants : Bindings Float) (asked : Expr Float → String → Prop)
  (kept : DerivativeCache Float → Prop) (hkept : DerivativeStore.Keeps asked kept)
  (hasked : ∀ tree symbol, document.Asks constants tree symbol → asked tree symbol)

include hids hkept hasked in
/-- The result of an output is the one without a memory, and the propagator that is left
    has the same constants and a store of the same kind. -/
theorem evaluateOutput_plain (output : Output) (houtput : output ∈ document.outputs)
    (p : SessionPropagator) (hconstants : p.constants = constants) (hstore : kept p.store) :
    ((evaluateOutput document output).run p).1 = plainState document constants output ∧
      ((evaluateOutput document output).run p).2.constants = constants ∧
      kept ((evaluateOutput document output).run p).2.store := by
  have h := output.evaluate_transparent constants kept asked hkept document hids hasked houtput p
    ⟨constants, ⟨⟩⟩ ⟨hconstants, rfl, hstore⟩
  rw [run_evaluateOutput]
  exact ⟨congrArg (stateOf output) h.1, h.2.constants_eq, h.2.store⟩

include hids hkept hasked in
/-- The results of several outputs are those without a memory, one by one. -/
theorem evaluateAll_plain (outputs : List Output)
    (houtputs : ∀ output ∈ outputs, output ∈ document.outputs) :
    ∀ p : SessionPropagator, p.constants = constants → kept p.store →
      ((outputs.mapM (evaluateOutput document)).run p).1 =
          outputs.map (plainState document constants) ∧
        ((outputs.mapM (evaluateOutput document)).run p).2.constants = constants ∧
        kept ((outputs.mapM (evaluateOutput document)).run p).2.store := by
  induction outputs with
  | nil => exact fun p hconstants hstore => ⟨rfl, hconstants, hstore⟩
  | cons output rest ih =>
      intro p hconstants hstore
      have hfirst := evaluateOutput_plain document hids constants asked kept hkept hasked output
        (houtputs output List.mem_cons_self) p hconstants hstore
      have hrest := ih (fun other hother => houtputs other (List.mem_cons_of_mem _ hother)) _
        hfirst.2.1 hfirst.2.2
      rw [List.mapM_cons, run_followed, run_followed]
      refine ⟨?_, hrest.2⟩
      rw [List.map_cons, ← hfirst.1, ← hrest.1]
      rfl

end Results

/-- The results that a new propagator finds for a document. -/
def afresh [IdSource] (document : Document Float) : List OutputState :=
  ((document.outputs.mapM (evaluateOutput document)).run
    (⟨document.constants, .empty⟩ : SessionPropagator)).1

/-- What the results of the documents of a history ask for: formulas with symbols in
    them. -/
def Occurs [QueryCodec] [Json.Reader] [IdSource] (gravity : Float) (frames : List String)
    (tree : Expr Float) (symbol : String) : Prop :=
  ∃ handled, handled <+: frames ∧
    ((start gravity).after handled).document.Asks ((start gravity).after handled).document.constants
      tree symbol

section Histories

variable [IdSource]

/-- A session whose constants are those of its document, with a valid gravity, and whose
    cache holds derivatives under their own keys. -/
structure Current (asked : Expr Float → String → Prop) (session : Session) : Prop where
  constants : session.propagator.constants = session.document.constants
  finite : session.document.settings.gravity.isFinite = true
  positive : 0.0 < session.document.settings.gravity
  sound : session.propagator.store.Sound asked

variable (asked : Expr Float → String → Prop)

/-- A session is current if its settings are those of a current session and its
    constants and derivatives are too. -/
theorem Current.of_settings (session next : Session) (h : Current asked session)
    (hsettings : next.document.settings = session.document.settings)
    (hconstants : next.propagator.constants = session.propagator.constants)
    (hsound : next.propagator.store.Sound asked) : Current asked next := by
  refine ⟨?_, by rw [hsettings]; exact h.finite, by rw [hsettings]; exact h.positive, hsound⟩
  rw [hconstants, h.constants, Document.constants, Document.constants, hsettings]

/-- Every command leaves a session current. -/
theorem Current.carried [QueryCodec] (session : Session) (command : Command) (next : Session)
    (hcarried : Carried session command next) (h : Current asked session) : Current asked next := by
  cases hcarried with
  | gravitySet gravity? latitude gravity hgravity hvalid =>
      rw [Bool.and_eq_true, decide_eq_true_eq] at hvalid
      exact ⟨by rw [Document.constants], hvalid.1, hvalid.2, h.sound⟩
  | _ => exact h.of_settings asked session _ rfl rfl h.sound

theorem evaluateOutputs_eq (session : Session) :
    session.evaluateOutputs =
      (((session.document.outputs.mapM (evaluateOutput session.document)).run
          session.propagator).1,
        { session with propagator := ((session.document.outputs.mapM
          (evaluateOutput session.document)).run session.propagator).2 }) := rfl

/-- The results of a current session are those of a new propagator, and finding them
    leaves it current. -/
theorem Current.evaluateOutputs (session : Session) (h : Current asked session)
    (hids : (session.document.measurements.map Measurement.id).Nodup)
    (hkept : DerivativeStore.Keeps asked (DerivativeCache.Sound (α := Float) asked))
    (hasked : ∀ tree symbol, session.document.Asks session.document.constants tree symbol →
      asked tree symbol) :
    session.evaluateOutputs.1 = afresh session.document ∧
      Current asked session.evaluateOutputs.2 := by
  have hall := evaluateAll_plain session.document hids session.document.constants asked _ hkept
    hasked session.document.outputs (fun _ h => h)
  rcases hall session.propagator h.constants h.sound with ⟨hstates, hconstants, hsound⟩
  have hnew : ∀ constants : Bindings Float,
      (⟨constants, .empty⟩ : SessionPropagator).constants = constants := fun _ => rfl
  have hfresh := hall ⟨session.document.constants, .empty⟩ (hnew _)
    (DerivativeCache.sound_empty asked)
  rw [evaluateOutputs_eq]
  refine ⟨hstates.trans hfresh.1.symm, h.of_settings asked session _ rfl ?_ hsound⟩
  exact hconstants.trans h.constants.symm

/-- The results that a snapshot sends. -/
theorem mem_snapshot (session : Session) (payload : Json.Tree)
    (h : .outputs payload ∈ session.snapshot.1) :
    payload = .list (session.evaluateOutputs.1.map OutputState.toJson) := by
  change Frame.outputs payload ∈ [Frame.document session.evaluateOutputs.2.document.toJson,
    Frame.outputs (.list (session.evaluateOutputs.1.map OutputState.toJson))] at h
  simpa using h

end Histories

section Answers

variable [QueryCodec] [Json.Reader] [IdSource] [LawfulIdSource]

variable (gravity : Float) (frames : List String)
  (hkeys : ∀ tree symbol other symbol', Occurs gravity frames tree symbol →
    Occurs gravity frames other symbol' →
      DerivativeCache.key tree symbol = DerivativeCache.key other symbol' →
        tree = other ∧ symbol = symbol')

include hkeys in
/-- One frame leaves a current session current, and sends the results that a new
    propagator finds. -/
theorem Current.handle (handled : List String) (frame : String)
    (hinitial : handled ++ [frame] <+: frames)
    (h : Current (Occurs gravity frames) ((start gravity).after handled)) :
    Current (Occurs gravity frames) ((start gravity).after (handled ++ [frame])) ∧
      ∀ payload, .outputs payload ∈ (((start gravity).after handled).handle frame).1 →
        payload = .list ((afresh ((start gravity).after (handled ++ [frame])).document).map
          OutputState.toJson) := by
  have hids := (numbered_after gravity (handled ++ [frame])).distinct
  have hasked : ∀ tree symbol, ((start gravity).after (handled ++ [frame])).document.Asks
      ((start gravity).after (handled ++ [frame])).document.constants tree symbol →
        Occurs gravity frames tree symbol := fun tree symbol hasks => ⟨_, hinitial, hasks⟩
  rw [after_concat] at hids hasked ⊢
  rcases handle_cases ((start gravity).after handled) frame with
    ⟨e, hhandle⟩ | ⟨-, hhandle⟩ | ⟨command, next, -, hcarried, hhandle⟩
  · rw [hhandle]
    exact ⟨h, fun payload hpayload => by simp [Frame.ofError] at hpayload⟩
  · rw [hhandle]
    exact ⟨h, fun payload hpayload => by simp at hpayload⟩
  · -- The evaluation that follows the command does not touch the document.
    have hdocument : (((start gravity).after handled).handle frame).2.document = next.document := by
      rw [hhandle]
      rfl
    rw [hdocument] at hids hasked ⊢
    rcases (h.carried _ _ command next hcarried).evaluateOutputs _ next hids
      (DerivativeCache.keeps_sound _ hkeys) hasked with ⟨hstates, hcurrent⟩
    rw [hhandle]
    refine ⟨hcurrent, fun payload hpayload => ?_⟩
    rw [mem_snapshot next payload hpayload, hstates]

include hkeys in
/-- A session is current after each frame. -/
theorem current_after (hfinite : gravity.isFinite = true) (hpositive : 0.0 < gravity)
    (handled : List String) (hinitial : handled <+: frames) :
    Current (Occurs gravity frames) ((start gravity).after handled) := by
  induction handled using List.reverseRecOn with
  | nil => exact ⟨by rw [after_nil, start], hfinite, hpositive, DerivativeCache.sound_empty _⟩
  | append_singleton handled frame ih =>
      have hbefore := ih ((List.prefix_append handled [frame]).trans hinitial)
      exact (hbefore.handle gravity frames hkeys handled frame hinitial).1

/-- After each frame of a session that starts with a valid gravity, the constants are
    those of the document, the gravity is valid, every entry of the cache is the
    derivative of its own formula by its own symbol, and the results that have been sent
    are those that a new propagator finds for the document. -/
theorem answers_of_document (gravity : Float) (hfinite : gravity.isFinite = true)
    (hpositive : 0.0 < gravity) (frames : List String)
    (hkeys : ∀ tree symbol other symbol', Occurs gravity frames tree symbol →
      Occurs gravity frames other symbol' →
        DerivativeCache.key tree symbol = DerivativeCache.key other symbol' →
          tree = other ∧ symbol = symbol')
    (handled : List String) (frame : String) (hinitial : handled ++ [frame] <+: frames) :
    let reached := (start gravity).after (handled ++ [frame])
    reached.propagator.constants = reached.document.constants ∧
      reached.document.settings.gravity.isFinite = true ∧
      0.0 < reached.document.settings.gravity ∧
      (∀ entry ∈ reached.propagator.store.entries, ∃ tree symbol,
        Occurs gravity frames tree symbol ∧
          entry = (DerivativeCache.key tree symbol, tree.differentiate symbol)) ∧
      ∀ payload, .outputs payload ∈ (((start gravity).after handled).handle frame).1 →
        payload = .list ((afresh reached.document).map OutputState.toJson) := by
  have hbefore := current_after gravity frames hkeys hfinite hpositive handled
    ((List.prefix_append handled [frame]).trans hinitial)
  rcases hbefore.handle gravity frames hkeys handled frame hinitial with ⟨hcurrent, hsent⟩
  exact ⟨hcurrent.constants, hcurrent.finite, hcurrent.positive, hcurrent.sound, hsent⟩

end Answers

section Example

/-- The formulas of a document with the symbols that they mention. -/
def questions (document : Document Float) : List (Expr Float × String) :=
  document.measurements.flatMap fun
    | .direct _ => []
    | .composite c =>
      match c.tree (α := Float) with
      | .ok tree => tree.freeSymbols.map fun symbol => (.ofDecimals tree, symbol)
      | .error _ => []

/-- What occurs in a history is in one of its documents. -/
theorem Occurs.mem_questions [QueryCodec] [Json.Reader] [IdSource] (gravity : Float)
    (frames : List String) (tree : Expr Float) (symbol : String)
    (h : Occurs gravity frames tree symbol) :
    (tree, symbol) ∈ frames.inits.flatMap fun handled =>
      questions ((start gravity).after handled).document := by
  rcases h with ⟨handled, hinitial, output, -, m, hfound, c, formula, hreaches, hformula, htree,
    hsymbol⟩
  refine List.mem_flatMap.mpr ⟨handled, (List.mem_inits _ _).mpr hinitial, ?_⟩
  refine List.mem_flatMap.mpr ⟨.composite c, ?_, ?_⟩
  · rw [Document.findBySymbol?] at hfound
    exact hreaches.mem _ _ _ (List.mem_of_find?_eq_some hfound)
  · rw [htree, Expr.ofDecimals, Expr.mentions_map, ← Expr.mem_freeSymbols] at hsymbol
    simp only [hformula]
    exact List.mem_map.mpr ⟨symbol, hsymbol, by rw [htree]⟩

open scoped Standard

/-- A history in which a length and a time with their limits come in together with their
    product, and are then measured. -/
def productMeasured : List String := [
  "IMPORT:d=l,m,1&d=t,s,1&c=v,l t&o=u,v",
  "MEASUREMENT_VALUES:\x7b\"id\":\"00000000-0000-4000-8000-000000000001\",\"input\":\"1\"\x7d",
  "MEASUREMENT_VALUES:\x7b\"id\":\"00000000-0000-4000-8000-000000000002\",\"input\":\"3\"\x7d"]

/-- The frame that sets another gravity. -/
def otherGravity : String := "SET_GRAVITY:\x7b\"gravity\":9.79\x7d"

/-- The formula of the product. -/
def productFormula : Expr Float := .binary .mul (.symbol "l") (.symbol "t")

/-- The product is asked for by its two symbols, and both derivatives are kept and used
    again when the gravity is set. -/
theorem answers_of_document_product :
    let reached := (start 9.8).after (productMeasured ++ [otherGravity])
    reached.propagator.store.size = 2 ∧
      reached.propagator.constants = reached.document.constants ∧
      reached.document.settings.gravity.isFinite = true ∧
      0.0 < reached.document.settings.gravity ∧
      (∀ entry ∈ reached.propagator.store.entries, ∃ tree symbol,
        Occurs 9.8 (productMeasured ++ [otherGravity]) tree symbol ∧
          entry = (DerivativeCache.key tree symbol, tree.differentiate symbol)) ∧
      ∀ payload, .outputs payload ∈ (((start 9.8).after productMeasured).handle otherGravity).1 →
        payload = .list ((afresh reached.document).map OutputState.toJson) := by
  have hrun : ((start 9.8).after (productMeasured ++ [otherGravity])).propagator.store.size = 2 ∧
      ∀ question ∈ (productMeasured ++ [otherGravity]).inits.flatMap fun handled =>
          questions ((start 9.8).after handled).document,
        question = (productFormula, "l") ∨ question = (productFormula, "t") := by
    decide +kernel
  have hdiffer : DerivativeCache.key productFormula "l" ≠ DerivativeCache.key productFormula "t" := by
    decide +kernel
  refine ⟨hrun.1, answers_of_document 9.8 (by decide +kernel) (by decide +kernel) _ ?_
    productMeasured otherGravity (List.prefix_refl _)⟩
  intro tree symbol other symbol' h h' hkey
  have hpair := hrun.2 _ (h.mem_questions _ _ _ _)
  have hpair' := hrun.2 _ (h'.mem_questions _ _ _ _)
  rw [Prod.mk.injEq, Prod.mk.injEq] at hpair hpair'
  rcases hpair with ⟨rfl, rfl⟩ | ⟨rfl, rfl⟩ <;> rcases hpair' with ⟨rfl, rfl⟩ | ⟨rfl, rfl⟩
  · exact ⟨rfl, rfl⟩
  · exact absurd hkey hdiffer
  · exact absurd hkey.symm hdiffer
  · exact ⟨rfl, rfl⟩

end Example

end Metrology.Session
