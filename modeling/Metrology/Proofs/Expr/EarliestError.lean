import Metrology.Proofs.Expr.Lookahead
import Metrology.Proofs.Text.Bytes

/-!
# Where a text stops being a formula

A parse error is reported at the first token with which no formula goes on. All tokens in
front of it can be completed to a formula, and together with it they cannot, whatever may
follow. If all tokens of the text can be completed, what is missing is reported at the end
of the text.

There are three places that report errors. An atom that does not begin as one reports the
token that stands there. A parenthesis that is not closed is reported where a sum has
ended. But a sum ends nowhere except at a closing parenthesis or where the text does, so
this is only ever reported at the end. And behind a whole sum nothing but a closing
parenthesis can be left, with which nothing goes on.

That a token is impossible says something about all texts that begin in the same way. What
a rule has read it reads again with other lexemes behind it. So each of those texts comes to
the same token in the same place, and is refused there as well.

## Main definitions

* `Grammar.Accepts`, `Grammar.Completable`: Tokens of formulas, and tokens that formulas
  begin with.
* `Grammar.Rule.Begins`: Tokens that the phrases of a rule begin with.
* `Grammar.Refuses`: Lexemes that are not read.
* `Grammar.Fails`: An error that is reported where it shows first.

## Theorems

* `Grammar.Fails.sequence`: The rule for a phrase and what follows it.
* `Grammar.rulesFail`: All rules report errors where they show first.
* `Grammar.formula_fails`: And so does reading a formula.
* `Expr.read_earliest_error`: Errors of texts.
-/

namespace Metrology

namespace Grammar

/-- Tokens that are read as a formula. -/
def Accepts (ts : List Token) : Prop :=
  ∃ finish lexemes tree, tokens lexemes = ts ∧ formula finish lexemes = .ok tree

/-- Tokens that some formula begins with. -/
def Completable (ts : List Token) : Prop := ∃ more, Accepts (ts ++ more)

/-- Tokens that some phrase of a rule begins with. -/
def Rule.Begins (r : Rule) (ts : List Token) : Prop := ∃ more tree, Phrase r (ts ++ more) tree

/-- Lexemes with given tokens, wherever they stand. -/
def placed (ts : List Token) : List Lexeme := ts.map fun token => ⟨token, 0, []⟩

theorem tokens_placed (ts : List Token) : tokens (placed ts) = ts := by
  simp [tokens, placed, Function.comp_def]

theorem accepts_iff (ts : List Token) : Accepts ts ↔ ∃ tree, Phrase .sum ts tree := by
  constructor
  · rintro ⟨finish, lexemes, tree, rfl, h⟩
    exact ⟨tree, phrase_of_formula finish lexemes tree h⟩
  · rintro ⟨tree, h⟩
    refine ⟨0, placed ts, tree, tokens_placed ts, formula_of_phrase 0 _ tree ?_⟩
    rwa [tokens_placed]

theorem completable_iff (ts : List Token) : Completable ts ↔ Rule.sum.Begins ts :=
  exists_congr fun more => accepts_iff (ts ++ more)

/-- What can be completed can be completed from any token on. -/
theorem Completable.of_append (ts us : List Token) (h : Completable (ts ++ us)) :
    Completable ts := by
  rcases h with ⟨more, h⟩
  exact ⟨us ++ more, by rwa [← List.append_assoc]⟩

section Beginnings

variable (ts : List Token)

theorem Rule.begins_nil (r : Rule) : r.Begins [] := by
  have hatom : Phrase .atom [.number ⟨0, 0⟩] (.number ⟨0, 0⟩) := .number _
  have hpower := Phrase.base _ _ hatom
  have hsigned := Phrase.unsigned _ _ hpower
  have hproduct := Phrase.factor _ _ hsigned
  refine ⟨[.number ⟨0, 0⟩], .number ⟨0, 0⟩, ?_⟩
  cases r with
  | sum => exact .term _ _ hproduct
  | product => exact hproduct
  | signed => exact hsigned
  | power => exact hpower
  | atom => exact hatom

theorem Rule.begins_of_phrase (r : Rule) (tree : Expr Decimal) (h : Phrase r ts tree) :
    r.Begins ts :=
  ⟨[], tree, by rwa [List.append_nil]⟩

/-- What a phrase of one rule begins with, a phrase of another begins with behind a front. -/
theorem Rule.Begins.extend (r r' : Rule) (front : List Token) (h : r.Begins ts)
    (hphrase : ∀ more tree, Phrase r (ts ++ more) tree →
      ∃ behind whole, Phrase r' (front ++ (ts ++ more) ++ behind) whole) :
    r'.Begins (front ++ ts) := by
  rcases h with ⟨more, tree, h⟩
  rcases hphrase more tree h with ⟨behind, whole, hwhole⟩
  refine ⟨more ++ behind, whole, ?_⟩
  rwa [List.append_assoc, ← List.append_assoc ts, ← List.append_assoc front]

/-- The same where nothing follows. -/
theorem Rule.Begins.join (r r' : Rule) (front : List Token) (h : r.Begins ts)
    (hphrase : ∀ more tree, Phrase r (ts ++ more) tree →
      ∃ whole, Phrase r' (front ++ (ts ++ more)) whole) : r'.Begins (front ++ ts) := by
  refine h.extend ts r r' front fun more tree hmore => ?_
  rcases hphrase more tree hmore with ⟨whole, hwhole⟩
  exact ⟨[], whole, by rwa [List.append_nil]⟩

end Beginnings

/-- Lexemes that are not read, with however much fuel. -/
def Refuses (calls : Nat) (run : Nat → List Lexeme → Parsed) (lexemes : List Lexeme) : Prop :=
  ∀ fuel, 5 * lexemes.length + calls ≤ fuel → ∃ e, run fuel lexemes = .error e

section Failing

variable (finish : Nat)

/-- An error that is reported where it shows first, behind tokens that have been read before.
    With the lexemes in front of it a phrase can begin; with the one where it is reported they
    are refused, whatever follows. -/
def Fails (r : Rule) (front : List Token) (refuses : List Lexeme → Prop) (lexemes : List Lexeme)
    (parsed : Parsed) : Prop :=
  ∀ e, parsed = .error e → ∃ before rest, lexemes = before ++ rest ∧
    e.offset = position finish rest ∧ r.Begins (front ++ tokens before) ∧
    ∀ next after, rest = next :: after → ∀ other, refuses (before ++ next :: other)

namespace Fails

variable {finish} (r : Rule) (front : List Token) (refuses : List Lexeme → Prop)

theorem ok (lexemes : List Lexeme) (parsed : Expr Decimal × List Lexeme) :
    Fails finish r front refuses lexemes (.ok parsed) := by
  intro e h
  cases h

/-- An error that is reported at once. -/
theorem here (lexemes : List Lexeme) (e : ParseError) (hoffset : e.offset = position finish lexemes)
    (hbegins : r.Begins front)
    (hrefuses : ∀ next after, lexemes = next :: after → ∀ other, refuses (next :: other)) :
    Fails finish r front refuses lexemes (.error e) := by
  intro e' heq
  cases heq
  exact ⟨[], lexemes, rfl, hoffset, by simpa using hbegins, hrefuses⟩

theorem imp (r' : Rule) (front' : List Token) (refuses' : List Lexeme → Prop)
    (lexemes : List Lexeme) (parsed : Parsed) (h : Fails finish r front refuses lexemes parsed)
    (hbegins : ∀ before, before <+: lexemes → r.Begins (front ++ tokens before) →
      r'.Begins (front' ++ tokens before))
    (hrefuses : ∀ other, (tokens other).head? = (tokens lexemes).head? → refuses other →
      refuses' other) : Fails finish r' front' refuses' lexemes parsed := by
  intro e he
  rcases h e he with ⟨before, rest, rfl, hoffset, hfront, hdead⟩
  refine ⟨before, rest, rfl, hoffset, hbegins before (List.prefix_append _ _) hfront, ?_⟩
  rintro next after rfl other
  refine hrefuses _ ?_ (hdead next after rfl other)
  cases before <;> simp

/-- An error behind lexemes that have been read. -/
theorem after (refuses' : List Lexeme → Prop) (ahead rest : List Lexeme) (parsed : Parsed)
    (h : Fails finish r (front ++ tokens ahead) refuses' rest parsed)
    (hrefuses : ∀ other, (tokens other).head? = (tokens rest).head? → refuses' other →
      refuses (ahead ++ other)) : Fails finish r front refuses (ahead ++ rest) parsed := by
  intro e he
  rcases h.imp r _ refuses' r _ (fun other => refuses (ahead ++ other)) rest parsed
    (fun _ _ h => h) hrefuses e he with ⟨before, others, rfl, hoffset, hbegins, hdead⟩
  refine ⟨ahead ++ before, others, by simp, hoffset, by simpa using hbegins, ?_⟩
  intro next after heq other
  simpa using hdead next after heq other

theorem bind (lexemes : List Lexeme) (x : Parsed) (f : Expr Decimal × List Lexeme → Parsed)
    (hx : Fails finish r front refuses lexemes x)
    (hf : ∀ tree rest, x = .ok (tree, rest) →
      Fails finish r front refuses lexemes (f (tree, rest))) :
    Fails finish r front refuses lexemes (x >>= f) := by
  intro e he
  rcases (Outcome.bind_eq_error _ _ _).mp he with he | ⟨⟨tree, rest⟩, hok, he⟩
  · exact hx e he
  · exact hf tree rest hok e he

/-- A phrase is read behind lexemes that are skipped, and then what follows it. The fuel that
    is needed must cover what the two of them need. -/
theorem sequence (r' : Rule) (skipped inner : List Lexeme) (run : Nat → List Lexeme → Parsed)
    (tail : Nat → Expr Decimal → List Lexeme → Parsed) (step calls tailCalls fuel : Nat)
    (hrun : ∀ fuel other, (tokens other).head? = (tokens inner).head? →
      run (fuel + step) (skipped ++ other) = (do
        let (tree, rest) ← r'.run finish fuel other
        tail fuel tree rest))
    (hcalls : r'.calls + step ≤ calls + 5 * skipped.length)
    (htailCalls : tailCalls + step ≤ calls + 5 * skipped.length + 5)
    (hinner : Fails finish r' [] (Refuses r'.calls (r'.run finish)) inner
      (r'.run finish fuel inner))
    (hbegins : ∀ before, before <+: inner → r'.Begins (tokens before) →
      r.Begins (front ++ tokens skipped ++ tokens before))
    (htail : ∀ ahead tree rest, inner = ahead ++ rest → ahead ≠ [] → Phrase r' (tokens ahead) tree →
      ¬ Calls (tokens ahead) (tokens rest) → r'.Ends rest →
        Fails finish r (front ++ tokens skipped ++ tokens ahead)
          (Refuses tailCalls fun fuel => tail fuel tree) rest (tail fuel tree rest)) :
    Fails finish r front (Refuses calls run) (skipped ++ inner)
      (run (fuel + step) (skipped ++ inner)) := by
  rw [hrun fuel inner rfl]
  refine bind r front _ _ _ _ ?_ fun tree rest hok => ?_
  · -- The phrase itself fails, and it fails in the same way in front of other lexemes.
    refine after r front _ _ skipped inner _ (hinner.imp r' [] _ r _ _ inner _ ?_ fun _ _ h => h) ?_
    · intro before hfront h
      rw [List.nil_append] at h
      exact hbegins before hfront h
    · intro other hhead hother fuel' hfuel
      rw [List.length_append] at hfuel
      rcases Nat.exists_eq_add_of_le' (show step ≤ fuel' by omega) with ⟨left, rfl⟩
      rcases hother left (by omega) with ⟨e, he⟩
      exact ⟨e, by rw [hrun left other hhead, he]; rfl⟩
  · -- What follows fails, and the phrase is read again in front of it.
    rcases r'.reads_again finish fuel inner tree rest hok with
      ⟨ahead, rfl, hne, hphrase, hend, hends, hagain⟩
    have hrest := htail ahead tree rest rfl hne hphrase hend hends
    rw [List.append_assoc, ← List.map_append] at hrest
    rw [← List.append_assoc]
    refine after r front _ _ (skipped ++ ahead) rest _ hrest ?_
    intro other hhead hother fuel' hfuel
    have hpositive := List.length_pos_iff.mpr hne
    simp only [List.length_append] at hfuel
    rcases Nat.exists_eq_add_of_le' (show step ≤ fuel' by omega) with ⟨left, rfl⟩
    have hread : r'.run finish left (ahead ++ other) = .ok (tree, other) := by
      refine hagain other hhead left ?_
      rw [Rule.Suffices, List.length_append]
      omega
    rcases hother left (by omega) with ⟨e, he⟩
    refine ⟨e, ?_⟩
    rw [List.append_assoc, hrun left _ (by cases ahead <;> simp at hne ⊢), hread]
    exact he

/-- A parenthesis that is not closed is missed at the end, for a sum ends nowhere else. -/
theorem close (function : Option String) (lexemes : List Lexeme)
    (build : List Lexeme → Expr Decimal × List Lexeme) (hends : EndsSum lexemes)
    (hbegins : r.Begins front) :
    Fails finish r front refuses lexemes (do
      let rest ← Grammar.close finish function lexemes
      return build rest) := by
  rcases lexemes with _ | ⟨⟨token, offset, source⟩, rest⟩
  · refine here r front refuses [] ⟨.unclosed function, finish⟩ rfl hbegins ?_
    intro next after h
    cases h
  · have htoken : token = .closing := hends token rfl
    subst htoken
    exact ok r front refuses _ _

/-- Another operand joins a phrase behind the sign of an operation. -/
theorem joined (r' : Rule) (first : Expr Decimal) (op : BinaryOp) (offset : Nat)
    (source : List Char) (rest : List Lexeme) (tail : Nat → Expr Decimal → List Lexeme → Parsed)
    (fuel calls : Nat) (hcalls : r'.calls ≤ calls)
    (hrun : ∀ fuel other, tail (fuel + 1) first (⟨.operator op, offset, source⟩ :: other) = (do
      let (second, rest) ← r'.run finish fuel other
      tail fuel (.binary op first second) rest))
    (hoperand : Fails finish r' [] (Refuses r'.calls (r'.run finish)) rest (r'.run finish fuel rest))
    (hop : ∀ ts second, Phrase r' ts second →
      Phrase r (front ++ .operator op :: ts) (.binary op first second))
    (htail : ∀ front first others, Phrase r front first → ¬ Calls front (tokens others) →
      others.length < rest.length →
        Fails finish r front (Refuses calls fun fuel => tail fuel first) others
          (tail fuel first others)) :
    Fails finish r front (Refuses calls fun fuel => tail fuel first)
      (⟨.operator op, offset, source⟩ :: rest)
      (tail (fuel + 1) first (⟨.operator op, offset, source⟩ :: rest)) := by
  refine sequence r front r' [⟨.operator op, offset, source⟩] rest (fun fuel => tail fuel first)
    (fun fuel second => tail fuel (.binary op first second)) 1 calls calls fuel
    (fun fuel other _ => hrun fuel other) (by rw [List.length_singleton]; omega)
    (by rw [List.length_singleton]; omega) hoperand ?_ ?_
  · intro before _ hbegins
    refine hbegins.join _ _ _ _ fun more second hmore => ?_
    exact ⟨.binary op first second, by simpa using hop _ second hmore⟩
  · rintro ahead second others rfl hne hsecond hend -
    have hpositive := List.length_pos_iff.mpr hne
    have htokens : tokens ahead ≠ [] := by simpa using hne
    rw [List.append_assoc, tokens, List.map_singleton, List.singleton_append]
    refine htail _ _ others (hop _ second hsecond) ?_ (by rw [List.length_append]; omega)
    rwa [calls_append_joined _ _ _ _ htokens]

end Fails

/-- Errors of all rules with as much fuel as the lexemes need. -/
structure RulesFail (fuel : Nat) : Prop where
  sum : ∀ lexemes, 5 * lexemes.length + 5 ≤ fuel →
    Fails finish .sum [] (Refuses 5 (sum finish)) lexemes (sum finish fuel lexemes)
  sumTail : ∀ front first lexemes, Phrase .sum front first → 5 * lexemes.length + 5 ≤ fuel →
    Fails finish .sum front (Refuses 5 fun fuel => sumTail finish fuel first) lexemes
      (sumTail finish fuel first lexemes)
  product : ∀ lexemes, 5 * lexemes.length + 4 ≤ fuel →
    Fails finish .product [] (Refuses 4 (product finish)) lexemes (product finish fuel lexemes)
  productTail : ∀ front first lexemes, Phrase .product front first →
    ¬ Calls front (tokens lexemes) → 5 * lexemes.length + 4 ≤ fuel →
      Fails finish .product front (Refuses 4 fun fuel => productTail finish fuel first) lexemes
        (productTail finish fuel first lexemes)
  signed : ∀ lexemes, 5 * lexemes.length + 3 ≤ fuel →
    Fails finish .signed [] (Refuses 3 (signed finish)) lexemes (signed finish fuel lexemes)
  power : ∀ lexemes, 5 * lexemes.length + 2 ≤ fuel →
    Fails finish .power [] (Refuses 2 (power finish)) lexemes (power finish fuel lexemes)
  atom : ∀ lexemes, 5 * lexemes.length + 1 ≤ fuel →
    Fails finish .atom [] (Refuses 1 (atom finish)) lexemes (atom finish fuel lexemes)

/-- An atom is a factor without a sign. -/
theorem signed_of_head (fuel : Nat) (lexemes : List Lexeme)
    (h : (tokens lexemes).head? ≠ some (.operator .sub)) :
    signed finish (fuel + 1) lexemes = power finish fuel lexemes := by
  rw [signed.eq_def]
  split
  · contradiction
  · next heq =>
    cases heq
    exact absurd rfl h
  · next heq _ =>
    cases heq
    rfl

/-- What follows an atom: an exponent, or nothing. -/
def powerTail (fuel : Nat) (base : Expr Decimal) (rest : List Lexeme) : Parsed :=
  match rest with
  | ⟨.operator .pow, _, _⟩ :: rest => do
    let (exponent, rest) ← signed finish fuel rest
    return (.binary .pow base exponent, rest)
  | _ => return (base, rest)

namespace RulesFail

theorem zero : RulesFail finish 0 where
  sum _ h := by omega
  sumTail _ _ _ _ h := by omega
  product _ h := by omega
  productTail _ _ _ _ _ h := by omega
  signed _ h := by omega
  power _ h := by omega
  atom _ h := by omega

variable {finish} {fuel : Nat} (h : RulesFail finish fuel)

include h

theorem sum_succ (lexemes : List Lexeme) (hfuel : 5 * lexemes.length + 5 ≤ fuel + 1) :
    Fails finish .sum [] (Refuses 5 (Grammar.sum finish)) lexemes
      (Grammar.sum finish (fuel + 1) lexemes) := by
  refine Fails.sequence .sum [] .product [] lexemes (Grammar.sum finish)
    (fun fuel => Grammar.sumTail finish fuel) 1 5 5 fuel (fun _ _ _ => by rw [List.nil_append]; rfl)
    (by decide) (by decide) (h.product lexemes (by omega)) ?_ ?_
  · intro before _ hbegins
    exact hbegins.join _ _ _ [] fun more tree hmore => ⟨tree, .term _ tree hmore⟩
  · rintro ahead tree rest rfl hne hphrase - -
    have hpositive := List.length_pos_iff.mpr hne
    rw [List.length_append] at hfuel
    exact h.sumTail (tokens ahead) tree rest (.term _ tree hphrase) (by omega)

theorem sumTail_succ (front : List Token) (first : Expr Decimal) (lexemes : List Lexeme)
    (hfirst : Phrase .sum front first) (hfuel : 5 * lexemes.length + 5 ≤ fuel + 1) :
    Fails finish .sum front (Refuses 5 fun fuel => Grammar.sumTail finish fuel first) lexemes
      (Grammar.sumTail finish (fuel + 1) first lexemes) := by
  rcases lexemes with _ | ⟨⟨token, offset, source⟩, rest⟩
  · exact Fails.ok _ _ _ _ _
  · rw [List.length_cons] at hfuel
    have htail : ∀ front first others, Phrase .sum front first → ¬ Calls front (tokens others) →
        others.length < rest.length → Fails finish .sum front
          (Refuses 5 fun fuel => Grammar.sumTail finish fuel first) others
          (Grammar.sumTail finish fuel first others) :=
      fun front first others hphrase _ hlength =>
        h.sumTail front first others hphrase (by omega)
    cases token with
    | operator op =>
        cases op with
        | add =>
            exact Fails.joined .sum front .product first .add offset source rest
              (fun fuel => Grammar.sumTail finish fuel) fuel 5 (by decide) (fun _ _ => rfl)
              (h.product rest (by omega)) (fun ts second => .plus front ts first second hfirst) htail
        | sub =>
            exact Fails.joined .sum front .product first .sub offset source rest
              (fun fuel => Grammar.sumTail finish fuel) fuel 5 (by decide) (fun _ _ => rfl)
              (h.product rest (by omega)) (fun ts second => .minus front ts first second hfirst) htail
        | _ => exact Fails.ok _ _ _ _ _
    | _ => exact Fails.ok _ _ _ _ _

theorem product_succ (lexemes : List Lexeme) (hfuel : 5 * lexemes.length + 4 ≤ fuel + 1) :
    Fails finish .product [] (Refuses 4 (Grammar.product finish)) lexemes
      (Grammar.product finish (fuel + 1) lexemes) := by
  refine Fails.sequence .product [] .signed [] lexemes (Grammar.product finish)
    (fun fuel => Grammar.productTail finish fuel) 1 4 4 fuel
    (fun _ _ _ => by rw [List.nil_append]; rfl) (by decide) (by decide)
    (h.signed lexemes (by omega)) ?_ ?_
  · intro before _ hbegins
    exact hbegins.join _ _ _ [] fun more tree hmore => ⟨tree, .factor _ tree hmore⟩
  · rintro ahead tree rest rfl hne hphrase hcalls -
    have hpositive := List.length_pos_iff.mpr hne
    rw [List.length_append] at hfuel
    exact h.productTail (tokens ahead) tree rest (.factor _ tree hphrase) hcalls (by omega)

/-- A factor that stands beside a product, and fails or is read. -/
theorem beside (front : List Token) (first : Expr Decimal) (lexemes : List Lexeme)
    (hfirst : Phrase .product front first) (hcalls : ¬ Calls front (tokens lexemes))
    (hfuel : 5 * lexemes.length + 4 ≤ fuel + 1) (token : Token)
    (hhead : (tokens lexemes).head? = some token) (hatom : beginsAtom token = true) :
    Fails finish .product front (Refuses 4 fun fuel => Grammar.productTail finish fuel first) lexemes
      (Grammar.productTail finish (fuel + 1) first lexemes) := by
  -- What begins like the lexemes is no difference and no call.
  have hbeside : ∀ ts second, Phrase .signed ts second → ts.head? = some token →
      Phrase .product (front ++ ts) (.binary .mul first second) := by
    intro ts second hsecond hts
    refine .beside front ts first second hfirst hsecond ?_ ?_
    · rw [hts, ne_eq, Option.some.injEq]
      rintro rfl
      cases hatom
    · rwa [Calls, hts, ← hhead]
  refine Fails.sequence .product front .signed [] lexemes
    (fun fuel => Grammar.productTail finish fuel first)
    (fun fuel second => Grammar.productTail finish fuel (.binary .mul first second)) 1 4 4 fuel
    (fun fuel other hother => productTail_beginsAtom finish fuel first other token
      (hother.trans hhead) hatom) (by decide) (by decide) (h.signed lexemes (by omega)) ?_ ?_
  · intro before hfront hbegins
    rw [tokens, List.map_nil, List.append_nil]
    rcases before with _ | ⟨lexeme, others⟩
    · -- Nothing of the factor has been read, and the product is one by itself.
      simpa using Rule.begins_of_phrase front .product first hfirst
    · refine hbegins.join _ _ _ _ fun more second hmore => ?_
      refine ⟨_, hbeside _ second hmore ?_⟩
      rcases hfront with ⟨behind, rfl⟩
      exact hhead
  · rintro ahead second others rfl hne hsecond hend -
    have hpositive := List.length_pos_iff.mpr hne
    have htokens : tokens ahead ≠ [] := by simpa using hne
    have hts : (tokens ahead).head? = some token := by
      rwa [tokens, List.map_append, List.head?_append_of_ne_nil _ htokens] at hhead
    rw [List.length_append] at hfuel
    rw [tokens, List.map_nil, List.append_nil]
    refine h.productTail _ _ others (hbeside _ second hsecond hts) ?_ (by omega)
    rwa [calls_append_left _ _ _ htokens]

theorem productTail_succ (front : List Token) (first : Expr Decimal) (lexemes : List Lexeme)
    (hfirst : Phrase .product front first) (hcalls : ¬ Calls front (tokens lexemes))
    (hfuel : 5 * lexemes.length + 4 ≤ fuel + 1) :
    Fails finish .product front (Refuses 4 fun fuel => Grammar.productTail finish fuel first) lexemes
      (Grammar.productTail finish (fuel + 1) first lexemes) := by
  rcases lexemes with _ | ⟨⟨token, offset, source⟩, rest⟩
  · exact Fails.ok _ _ _ _ _
  · have htail : ∀ front first others, Phrase .product front first →
        ¬ Calls front (tokens others) → others.length < rest.length → Fails finish .product front
          (Refuses 4 fun fuel => Grammar.productTail finish fuel first) others
          (Grammar.productTail finish fuel first others) := by
      intro front first others hphrase hend hlength
      rw [List.length_cons] at hfuel
      exact h.productTail front first others hphrase hend (by omega)
    have hrest : 5 * rest.length + 3 ≤ fuel := by
      rw [List.length_cons] at hfuel
      omega
    cases token with
    | operator op =>
        cases op with
        | mul =>
            exact Fails.joined .product front .signed first .mul offset source rest
              (fun fuel => Grammar.productTail finish fuel) fuel 4 (by decide) (fun _ _ => rfl)
              (h.signed rest hrest) (fun ts second => .times front ts first second hfirst) htail
        | div =>
            exact Fails.joined .product front .signed first .div offset source rest
              (fun fuel => Grammar.productTail finish fuel) fuel 4 (by decide) (fun _ _ => rfl)
              (h.signed rest hrest) (fun ts second => .dividedBy front ts first second hfirst) htail
        | _ => exact Fails.ok _ _ _ _ _
    | closing => exact Fails.ok _ _ _ _ _
    | _ => exact h.beside front first _ hfirst hcalls hfuel _ rfl rfl

theorem signed_succ (lexemes : List Lexeme) (hfuel : 5 * lexemes.length + 3 ≤ fuel + 1) :
    Fails finish .signed [] (Refuses 3 (Grammar.signed finish)) lexemes
      (Grammar.signed finish (fuel + 1) lexemes) := by
  by_cases hsign : (tokens lexemes).head? = some (.operator .sub)
  · rcases lexemes with _ | ⟨⟨token, offset, source⟩, rest⟩
    · cases hsign
    · have htoken : token = .operator .sub := Option.some.inj hsign
      subst htoken
      rw [List.length_cons] at hfuel
      refine Fails.sequence .signed [] .signed [⟨.operator .sub, offset, source⟩] rest
        (Grammar.signed finish) (fun _ operand rest => .ok (.negate operand, rest)) 1 3 0 fuel
        (fun _ _ _ => rfl) (by simp [Rule.calls]) (by simp) (h.signed rest (by omega)) ?_ ?_
      · intro before _ hbegins
        exact hbegins.join _ _ _ _ fun more operand hmore => ⟨_, .negative _ operand hmore⟩
      · intros
        exact Fails.ok _ _ _ _ _
  · -- Without a sign in front it is the power that fails, here and with other lexemes behind.
    rw [signed_of_head finish fuel lexemes hsign]
    refine (h.power lexemes (by omega)).imp _ _ _ .signed [] _ _ _ ?_ ?_
    · intro before _ hbegins
      exact hbegins.join _ _ _ [] fun more tree hmore => ⟨tree, .unsigned _ tree hmore⟩
    · intro other hhead hother fuel' hfuel'
      rcases fuel' with _ | fuel'
      · omega
      rw [signed_of_head finish fuel' other (hhead ▸ hsign)]
      exact hother fuel' (by omega)

/-- An exponent fails or is read, and where there is none nothing fails. -/
theorem powerTail (front : List Token) (base : Expr Decimal) (lexemes : List Lexeme)
    (hbase : Phrase .atom front base) (hfuel : 5 * lexemes.length ≤ fuel) :
    Fails finish .power front (Refuses 0 fun fuel => Grammar.powerTail finish fuel base) lexemes
      (Grammar.powerTail finish fuel base lexemes) := by
  unfold Grammar.powerTail
  split
  · next offset source rest =>
    rw [List.length_cons] at hfuel
    refine Fails.sequence .power front .signed [⟨.operator .pow, offset, source⟩] rest
      (fun fuel => Grammar.powerTail finish fuel base)
      (fun _ exponent others => .ok (.binary .pow base exponent, others)) 0 0 0 fuel
      (fun _ _ _ => rfl) (by simp [Rule.calls]) (by simp) (h.signed rest (by omega)) ?_ ?_
    · intro before _ hbegins
      refine hbegins.join _ _ _ _ fun more exponent hmore => ?_
      exact ⟨.binary .pow base exponent, by simpa using .raised front _ base exponent hbase hmore⟩
    · intros
      exact Fails.ok _ _ _ _ _
  · exact Fails.ok _ _ _ _ _

theorem power_succ (lexemes : List Lexeme) (hfuel : 5 * lexemes.length + 2 ≤ fuel + 1) :
    Fails finish .power [] (Refuses 2 (Grammar.power finish)) lexemes
      (Grammar.power finish (fuel + 1) lexemes) := by
  refine Fails.sequence .power [] .atom [] lexemes (Grammar.power finish)
    (fun fuel => Grammar.powerTail finish fuel) 1 2 0 fuel
    (fun _ _ _ => by rw [List.nil_append, Grammar.power]; rfl) (by decide) (by decide)
    (h.atom lexemes (by omega)) ?_ ?_
  · intro before _ hbegins
    exact hbegins.join _ _ _ [] fun more tree hmore => ⟨tree, .base _ tree hmore⟩
  · rintro ahead base rest rfl hne hbase - -
    have hpositive := List.length_pos_iff.mpr hne
    rw [List.length_append] at hfuel
    exact h.powerTail (tokens ahead) base rest hbase (by omega)

/-- A sum between parentheses fails or is read, and a parenthesis is missing or not. -/
theorem enclosed (function : Option String) (skipped inner : List Lexeme)
    (build : Expr Decimal → Expr Decimal) (hskipped : skipped ≠ [])
    (hfuel : 5 * (skipped ++ inner).length + 1 ≤ fuel + 1)
    (hrun : ∀ fuel other, Grammar.atom finish (fuel + 1) (skipped ++ other) = (do
      let (tree, rest) ← Grammar.sum finish fuel other
      let rest ← close finish function rest
      return (build tree, rest)))
    (hphrase : ∀ ts tree, Phrase .sum ts tree →
      Phrase .atom (tokens skipped ++ (ts ++ [.closing])) (build tree)) :
    Fails finish .atom [] (Refuses 1 (Grammar.atom finish)) (skipped ++ inner)
      (Grammar.atom finish (fuel + 1) (skipped ++ inner)) := by
  have hpositive := List.length_pos_iff.mpr hskipped
  rw [List.length_append] at hfuel
  have hbegins : ∀ before, Rule.sum.Begins (tokens before) →
      Rule.atom.Begins ([] ++ tokens skipped ++ tokens before) := by
    intro before hbegins
    refine hbegins.extend _ _ _ _ fun more tree hmore => ⟨[.closing], build tree, ?_⟩
    simpa using hphrase _ tree hmore
  refine Fails.sequence .atom [] .sum skipped inner (Grammar.atom finish)
    (fun _ tree rest => do
      let rest ← close finish function rest
      return (build tree, rest)) 1 1 0 fuel
    (fun fuel other _ => hrun fuel other) (by rw [Rule.calls]; omega) (by omega)
    (h.sum inner (by omega)) (fun before _ => hbegins before) ?_
  intro ahead tree rest _ _ htree _ hends
  exact Fails.close .atom _ _ function rest _ hends
    (hbegins ahead (Rule.begins_of_phrase _ .sum tree htree))

theorem atom_succ (lexemes : List Lexeme) (hfuel : 5 * lexemes.length + 1 ≤ fuel + 1) :
    Fails finish .atom [] (Refuses 1 (Grammar.atom finish)) lexemes
      (Grammar.atom finish (fuel + 1) lexemes) := by
  -- What begins no atom begins none in front of other lexemes either.
  have hunexpected : ∀ lexeme rest, beginsAtom lexeme.token = false →
      Fails finish .atom [] (Refuses 1 (Grammar.atom finish)) (lexeme :: rest)
        (Grammar.atom finish (fuel + 1) (lexeme :: rest)) := by
    rintro ⟨token, offset, source⟩ rest hatom
    have hrun : ∀ fuel other, Grammar.atom finish (fuel + 1) (⟨token, offset, source⟩ :: other) =
        .error ⟨.unexpected token, offset⟩ := by
      intro fuel other
      cases token <;> first | rfl | cases hatom
    rw [hrun]
    refine Fails.here .atom [] _ _ _ rfl (Rule.begins_nil .atom) ?_
    intro next after heq other fuel' hfuel'
    cases heq
    rcases fuel' with _ | fuel'
    · omega
    exact ⟨_, hrun fuel' other⟩
  rcases lexemes with _ | ⟨⟨token, offset, source⟩, rest⟩
  · refine Fails.here .atom [] _ [] _ rfl (Rule.begins_nil .atom) ?_
    intro next after heq
    cases heq
  · cases token with
    | number value => exact Fails.ok _ _ _ _ _
    | word name =>
        rcases rest with _ | ⟨⟨token, offset', source'⟩, inner⟩
        · exact Fails.ok _ _ _ _ _
        · cases token with
          | opening =>
              exact h.enclosed (some name)
                [⟨.word name, offset, source⟩, ⟨.opening, offset', source'⟩] inner (.call name)
                (List.cons_ne_nil _ _) hfuel (fun _ _ => rfl) fun ts tree => .call name ts tree
          | _ => exact Fails.ok _ _ _ _ _
    | opening =>
        exact h.enclosed none [⟨.opening, offset, source⟩] rest id (List.cons_ne_nil _ _) hfuel
          (fun _ _ => rfl) fun ts tree => .group ts tree
    | operator op => exact hunexpected _ rest rfl
    | closing => exact hunexpected _ rest rfl

/-- One more unit of fuel. -/
theorem succ : RulesFail finish (fuel + 1) where
  sum := h.sum_succ
  sumTail := h.sumTail_succ
  product := h.product_succ
  productTail := h.productTail_succ
  signed := h.signed_succ
  power := h.power_succ
  atom := h.atom_succ

end RulesFail

/-- All rules report errors where they show first. -/
theorem rulesFail (fuel : Nat) : RulesFail finish fuel := by
  induction fuel with
  | zero => exact .zero finish
  | succ fuel ih => exact ih.succ

/-- A formula fails where its sum does. -/
theorem formula_of_sum_error (lexemes : List Lexeme) (hne : lexemes ≠ []) (e : ParseError)
    (h : sum finish (fuelFor lexemes) lexemes = .error e) : formula finish lexemes = .error e := by
  rw [formula, List.isEmpty_eq_false_iff.mpr hne, h]
  rfl

/-- Nothing may stand behind the sum. -/
theorem formula_of_sum_trailing (lexemes : List Lexeme) (hne : lexemes ≠ [])
    (tree : Expr Decimal) (next : Lexeme) (after : List Lexeme)
    (h : sum finish (fuelFor lexemes) lexemes = .ok (tree, next :: after)) :
    formula finish lexemes = .error ⟨.trailing next.token, next.offset⟩ := by
  rw [formula, List.isEmpty_eq_false_iff.mpr hne, h]
  rfl

/-- These are the ways for tokens to be no formula. -/
theorem formula_error_cases (lexemes : List Lexeme) (hne : lexemes ≠ []) (e : ParseError)
    (h : formula finish lexemes = .error e) :
    sum finish (fuelFor lexemes) lexemes = .error e ∨
      ∃ tree next after, sum finish (fuelFor lexemes) lexemes = .ok (tree, next :: after) ∧
        e.offset = next.offset := by
  rcases hsum : sum finish (fuelFor lexemes) lexemes with e' | ⟨tree, rest⟩
  · rw [formula_of_sum_error finish lexemes hne e' hsum] at h
    cases h
    exact Or.inl rfl
  · rw [formula, List.isEmpty_eq_false_iff.mpr hne, hsum] at h
    rcases rest with _ | ⟨next, after⟩
    · cases h
    · cases h
      exact Or.inr ⟨tree, next, after, rfl, rfl⟩

/-- And so does reading a formula: what follows a whole sum is refused as well. -/
theorem formula_fails (lexemes : List Lexeme) (hne : lexemes ≠ []) (e : ParseError)
    (h : formula finish lexemes = .error e) :
    ∃ before rest, lexemes = before ++ rest ∧ e.offset = position finish rest ∧
      Rule.sum.Begins (tokens before) ∧ ∀ next after, rest = next :: after →
        ∀ other, ∃ e', formula finish (before ++ next :: other) = .error e' := by
  rcases formula_error_cases finish lexemes hne e h with hsum | ⟨tree, next, after, hsum, hoffset⟩
  · rcases (rulesFail finish (fuelFor lexemes)).sum lexemes (Nat.le_refl _) e hsum with
      ⟨before, rest, hsplit, hoffset, hbegins, hrefuses⟩
    refine ⟨before, rest, hsplit, hoffset, hbegins, fun next after hrest other => ?_⟩
    rcases hrefuses next after hrest other _ (Nat.le_refl _) with ⟨e', he'⟩
    exact ⟨e', formula_of_sum_error finish _ (by simp) e' he'⟩
  · rcases Rule.reads_again finish .sum (fuelFor lexemes) lexemes tree (next :: after) hsum with
      ⟨ahead, rfl, -, hphrase, -, -, hagain⟩
    refine ⟨ahead, next :: after, rfl, hoffset, Rule.begins_of_phrase _ .sum tree hphrase, ?_⟩
    rintro _ _ ⟨rfl, rfl⟩ other
    exact ⟨_, formula_of_sum_trailing finish _ (by simp) tree next other
      (hagain (next :: other) rfl _ (Nat.le_refl _))⟩

end Failing

/-- The offset of an error tells how far the tokens can be completed. -/
theorem formula_earliest_error (finish : Nat) (lexemes : List Lexeme) (hne : lexemes ≠ [])
    (e : ParseError) (h : formula finish lexemes = .error e) :
    (∃ before next after, lexemes = before ++ next :: after ∧ Completable (tokens before) ∧
      ¬ Completable (tokens (before ++ [next])) ∧ e.offset = next.offset) ∨
    Completable (tokens lexemes) ∧ e.offset = finish := by
  rcases formula_fails finish lexemes hne e h with
    ⟨before, rest, rfl, hoffset, hbegins, hrefuses⟩
  rw [← completable_iff] at hbegins
  rcases rest with _ | ⟨next, after⟩
  · exact Or.inr ⟨by rwa [List.append_nil], hoffset⟩
  · refine Or.inl ⟨before, next, after, rfl, hbegins, ?_, hoffset⟩
    rintro ⟨more, haccepts⟩
    rcases (accepts_iff _).mp haccepts with ⟨tree, hphrase⟩
    -- The tokens that complete it can stand anywhere behind the lexeme.
    rcases hrefuses next after rfl (placed more) with ⟨e', he'⟩
    have hread : formula finish (before ++ next :: placed more) = .ok tree := by
      refine formula_of_phrase finish _ tree ?_
      have htokens : tokens (before ++ next :: placed more) = tokens (before ++ [next]) ++ more := by
        simp [tokens, placed, Function.comp_def]
      rwa [htokens]
    rw [hread] at he'
    cases he'

end Grammar

open Grammar (Completable tokens)

/-- An error of a text that has tokens is reported at the first token with which no formula
    goes on, or at the end of the text if all tokens can be completed. -/
theorem Expr.read_earliest_error (text : String) (lexemes : List Lexeme) (e : ParseError)
    (hlexemes : Lexeme.ofChars (Subscript.flatten text).toList = .ok lexemes) (hne : lexemes ≠ [])
    (h : Expr.read text = .error e) :
    (∃ before next after, lexemes = before ++ next :: after ∧
      (∀ front, front <+: before → Completable (tokens front)) ∧
      ¬ Completable (tokens (before ++ [next])) ∧ e.offset = next.offset) ∨
    (∀ front, front <+: lexemes → Completable (tokens front)) ∧
      e.offset = (Subscript.flatten text).utf8ByteSize := by
  have hfronts : ∀ before : List Lexeme, Completable (tokens before) →
      ∀ front, front <+: before → Completable (tokens front) := by
    rintro before hbefore front ⟨behind, rfl⟩
    rw [tokens, List.map_append] at hbefore
    exact hbefore.of_append _ _
  rw [Expr.read, hlexemes] at h
  rcases Grammar.formula_earliest_error _ lexemes hne e h with
    ⟨before, next, after, hsplit, hbefore, hnext, hoffset⟩ | ⟨hall, hoffset⟩
  · exact Or.inl ⟨before, next, after, hsplit, hfronts before hbefore, hnext, hoffset⟩
  · refine Or.inr ⟨hfronts lexemes hall, ?_⟩
    rw [hoffset, Lexeme.byteLength_eq, String.ofList_toList]

/-- Behind the plus sign of `2 (x_(1) + ) y` no formula goes on with a parenthesis. -/
theorem Expr.read_earliest_error_operand :
    ∃ lexemes e, Lexeme.ofChars (Subscript.flatten "2 (x_(1) + ) y").toList = .ok lexemes ∧
      lexemes ≠ [] ∧ Expr.read "2 (x_(1) + ) y" = .error e ∧
      ∃ before next after, lexemes = before ++ next :: after ∧
        (∀ front, front <+: before → Completable (tokens front)) ∧
        ¬ Completable (tokens (before ++ [next])) ∧ e.offset = 9 ∧ next.offset = 9 := by
  have hlexemes : Lexeme.ofChars (Subscript.flatten "2 (x_(1) + ) y").toList = .ok
      [⟨.number ⟨2, 0⟩, 0, ['2']⟩, ⟨.opening, 2, ['(']⟩, ⟨.word "x_1", 3, ['x', '_', '1']⟩,
        ⟨.operator .add, 7, ['+']⟩, ⟨.closing, 9, [')']⟩, ⟨.word "y", 11, ['y']⟩] := by
    decide +kernel
  have hread : Expr.read "2 (x_(1) + ) y" = .error ⟨.unexpected .closing, 9⟩ := by decide +kernel
  refine ⟨_, _, hlexemes, List.cons_ne_nil _ _, hread, ?_⟩
  rcases Expr.read_earliest_error _ _ _ hlexemes (List.cons_ne_nil _ _) hread with
    ⟨before, next, after, hsplit, hbefore, hnext, hoffset⟩ | ⟨-, hoffset⟩
  · exact ⟨before, next, after, hsplit, hbefore, hnext, rfl, hoffset.symm⟩
  · exact absurd hoffset (by decide +kernel)

end Metrology
