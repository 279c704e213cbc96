import Metrology.Proofs.Expr.Phrase

/-!
# Reading phrases

The rules, which take one lexeme after another and never go back, read every phrase of
the grammar. A rule stops at a token with which its phrase cannot go on, so a phrase is
read when it stands in front of such a token: a factor stops everywhere but at the sign
of a power, a product also at what begins another factor, and a sum where it closes. A
sum or a product that has been read may still go on. It is left as the repetition that
the rule goes on with, which is how a longer repetition takes up a shorter one.

The fuel counts the calls that are made before a lexeme is taken, five at the most. Five
units for each lexeme and five more are enough, and from there on more fuel makes no
difference.

## Main definitions

* `Grammar.EndsFactor`, `Grammar.EndsProduct`, `Grammar.EndsSum`: What may stand behind
  a phrase.
* `Grammar.IsRead`: A phrase is read wherever it may stand.

## Theorems

* `Grammar.rulesSteady`: More fuel than the lexemes need makes no difference.
* `Grammar.isRead`: Every phrase is read.
* `Grammar.formula_of_phrase`, `Grammar.phrase_of_formula`: A list of lexemes is read as
  a formula when its tokens are a phrase.
* `Grammar.formula_eq_ok_iff`: The formulas are what the grammar derives, each with one
  tree.
-/

namespace Metrology.Grammar

/-- More fuel than a list of lexemes needs makes no difference. The numbers count the
    calls that are made before a lexeme is taken. -/
structure RulesSteady (finish fuel : Nat) : Prop where
  sum : ∀ lexemes, 5 * lexemes.length + 5 ≤ fuel →
    sum finish (fuel + 1) lexemes = sum finish fuel lexemes
  sumTail : ∀ first lexemes, 5 * lexemes.length + 5 ≤ fuel →
    sumTail finish (fuel + 1) first lexemes = sumTail finish fuel first lexemes
  product : ∀ lexemes, 5 * lexemes.length + 4 ≤ fuel →
    product finish (fuel + 1) lexemes = product finish fuel lexemes
  productTail : ∀ first lexemes, 5 * lexemes.length + 4 ≤ fuel →
    productTail finish (fuel + 1) first lexemes = productTail finish fuel first lexemes
  signed : ∀ lexemes, 5 * lexemes.length + 3 ≤ fuel →
    signed finish (fuel + 1) lexemes = signed finish fuel lexemes
  power : ∀ lexemes, 5 * lexemes.length + 2 ≤ fuel →
    power finish (fuel + 1) lexemes = power finish fuel lexemes
  atom : ∀ lexemes, 5 * lexemes.length + 1 ≤ fuel →
    atom finish (fuel + 1) lexemes = atom finish fuel lexemes

namespace RulesSteady

theorem zero (finish : Nat) : RulesSteady finish 0 where
  sum _ h := by omega
  sumTail _ _ h := by omega
  product _ h := by omega
  productTail _ _ h := by omega
  signed _ h := by omega
  power _ h := by omega
  atom _ h := by omega

variable {finish fuel : Nat} (h : RulesSteady finish fuel)

include h

theorem sum_succ (lexemes : List Lexeme) (hfuel : 5 * lexemes.length + 5 ≤ fuel + 1) :
    Grammar.sum finish (fuel + 2) lexemes = Grammar.sum finish (fuel + 1) lexemes := by
  rw [Grammar.sum, Grammar.sum]
  refine Outcome.bind_congr _ _ _ _ (h.product lexemes (by omega)) ?_
  rintro ⟨first, rest⟩ hfirst
  have hlength := ((rulesRead finish fuel).product lexemes).length_lt _ _ _ first rest hfirst
  exact h.sumTail first rest (by omega)

theorem sumTail_succ (first : Expr Decimal) (lexemes : List Lexeme)
    (hfuel : 5 * lexemes.length + 5 ≤ fuel + 1) :
    Grammar.sumTail finish (fuel + 2) first lexemes =
      Grammar.sumTail finish (fuel + 1) first lexemes := by
  have hjoined : ∀ op rest, rest.length < lexemes.length →
      (Grammar.product finish (fuel + 1) rest >>= fun step =>
          Grammar.sumTail finish (fuel + 1) (.binary op first step.1) step.2) =
        (Grammar.product finish fuel rest >>= fun step =>
          Grammar.sumTail finish fuel (.binary op first step.1) step.2) := by
    intro op rest hrest
    -- The sign has been taken, and the product takes a lexeme at least.
    refine Outcome.bind_congr _ _ _ _ (h.product rest (by omega)) ?_
    rintro ⟨second, others⟩ hsecond
    have hlength := ((rulesRead finish fuel).product rest).length_lt _ _ _ second others hsecond
    exact h.sumTail _ others (by omega)
  rcases lexemes with _ | ⟨⟨token, offset, source⟩, rest⟩
  · rfl
  · cases token with
    | operator op =>
        cases op with
        | add => exact hjoined .add rest (Nat.lt_succ_self _)
        | sub => exact hjoined .sub rest (Nat.lt_succ_self _)
        | _ => rfl
    | _ => rfl

theorem product_succ (lexemes : List Lexeme) (hfuel : 5 * lexemes.length + 4 ≤ fuel + 1) :
    Grammar.product finish (fuel + 2) lexemes = Grammar.product finish (fuel + 1) lexemes := by
  rw [Grammar.product, Grammar.product]
  refine Outcome.bind_congr _ _ _ _ (h.signed lexemes (by omega)) ?_
  rintro ⟨first, rest⟩ hfirst
  have hlength := ((rulesRead finish fuel).signed lexemes).length_lt _ _ _ first rest hfirst
  exact h.productTail first rest (by omega)

theorem productTail_succ (first : Expr Decimal) (lexemes : List Lexeme)
    (hfuel : 5 * lexemes.length + 4 ≤ fuel + 1) :
    Grammar.productTail finish (fuel + 2) first lexemes =
      Grammar.productTail finish (fuel + 1) first lexemes := by
  have hjoined : ∀ op rest, rest.length ≤ lexemes.length →
      (Grammar.signed finish (fuel + 1) rest >>= fun step =>
          Grammar.productTail finish (fuel + 1) (.binary op first step.1) step.2) =
        (Grammar.signed finish fuel rest >>= fun step =>
          Grammar.productTail finish fuel (.binary op first step.1) step.2) := by
    intro op rest hrest
    -- Beside a factor no sign is taken, but the next factor takes a lexeme.
    refine Outcome.bind_congr _ _ _ _ (h.signed rest (by omega)) ?_
    rintro ⟨second, others⟩ hsecond
    have hlength := ((rulesRead finish fuel).signed rest).length_lt _ _ _ second others hsecond
    exact h.productTail _ others (by omega)
  rcases lexemes with _ | ⟨⟨token, offset, source⟩, rest⟩
  · rfl
  · cases token with
    | operator op =>
        cases op with
        | mul => exact hjoined .mul rest (Nat.le_succ _)
        | div => exact hjoined .div rest (Nat.le_succ _)
        | _ => rfl
    | number _ | word _ | opening => exact hjoined .mul _ (Nat.le_refl _)
    | closing => rfl

theorem signed_succ (lexemes : List Lexeme) (hfuel : 5 * lexemes.length + 3 ≤ fuel + 1) :
    Grammar.signed finish (fuel + 2) lexemes = Grammar.signed finish (fuel + 1) lexemes := by
  have hpower := h.power lexemes (by omega)
  rcases lexemes with _ | ⟨⟨token, offset, source⟩, rest⟩
  · exact hpower
  · cases token with
    | operator op =>
        cases op with
        | sub =>
            rw [List.length_cons] at hfuel
            exact Outcome.bind_congr _ _ _ _ (h.signed rest (by omega)) fun _ _ => rfl
        | _ => exact hpower
    | _ => exact hpower

theorem power_succ (lexemes : List Lexeme) (hfuel : 5 * lexemes.length + 2 ≤ fuel + 1) :
    Grammar.power finish (fuel + 2) lexemes = Grammar.power finish (fuel + 1) lexemes := by
  rw [Grammar.power, Grammar.power]
  refine Outcome.bind_congr _ _ _ _ (h.atom lexemes (by omega)) ?_
  rintro ⟨base, rest⟩ hbase
  have hlength := ((rulesRead finish fuel).atom lexemes).length_lt _ _ _ base rest hbase
  simp only
  split
  · next offset source others =>
    rw [List.length_cons] at hlength
    exact Outcome.bind_congr _ _ _ _ (h.signed others (by omega)) fun _ _ => rfl
  · rfl

theorem atom_succ (lexemes : List Lexeme) (hfuel : 5 * lexemes.length + 1 ≤ fuel + 1) :
    Grammar.atom finish (fuel + 2) lexemes = Grammar.atom finish (fuel + 1) lexemes := by
  rcases lexemes with _ | ⟨⟨token, offset, source⟩, rest⟩
  · rfl
  · rw [List.length_cons] at hfuel
    cases token with
    | word name =>
        rcases rest with _ | ⟨⟨token, offset', source'⟩, others⟩
        · rfl
        · rw [List.length_cons] at hfuel
          cases token with
          | opening => exact Outcome.bind_congr _ _ _ _ (h.sum others (by omega)) fun _ _ => rfl
          | _ => rfl
    | opening => exact Outcome.bind_congr _ _ _ _ (h.sum rest (by omega)) fun _ _ => rfl
    | _ => rfl

/-- One more unit of fuel. -/
theorem succ : RulesSteady finish (fuel + 1) where
  sum := h.sum_succ
  sumTail := h.sumTail_succ
  product := h.product_succ
  productTail := h.productTail_succ
  signed := h.signed_succ
  power := h.power_succ
  atom := h.atom_succ

end RulesSteady

theorem rulesSteady (finish fuel : Nat) : RulesSteady finish fuel := by
  induction fuel with
  | zero => exact .zero finish
  | succ fuel ih => exact ih.succ

/-- A token with which no product goes on. -/
def endsProduct : Token → Bool
  | .operator .add | .operator .sub | .closing => true
  | .operator _ | .number _ | .word _ | .opening => false

/-- What may stand behind a factor. -/
def EndsFactor (rest : List Lexeme) : Prop := (tokens rest).head? ≠ some (.operator .pow)

/-- What may stand behind a product. -/
def EndsProduct (rest : List Lexeme) : Prop :=
  ∀ token, (tokens rest).head? = some token → endsProduct token = true

/-- What may stand behind a sum. -/
def EndsSum (rest : List Lexeme) : Prop :=
  ∀ token, (tokens rest).head? = some token → token = .closing

theorem EndsSum.endsProduct (rest : List Lexeme) (h : EndsSum rest) : EndsProduct rest := by
  intro token htoken
  rw [h token htoken]
  rfl

theorem EndsProduct.endsFactor (rest : List Lexeme) (h : EndsProduct rest) : EndsFactor rest := by
  intro hhead
  cases h _ hhead

/-- The lexemes of two lists of tokens with one more between them. -/
theorem exists_of_tokens_joined (lexemes : List Lexeme) (us vs : List Token) (mark : Token)
    (h : tokens lexemes = us ++ mark :: vs) :
    ∃ left offset source right, lexemes = left ++ ⟨mark, offset, source⟩ :: right ∧
      tokens left = us ∧ tokens right = vs := by
  rcases List.map_eq_append_iff.mp h with ⟨left, behind, rfl, hus, hbehind⟩
  rcases List.map_eq_cons_iff.mp hbehind with ⟨⟨token, offset, source⟩, right, rfl, rfl, hvs⟩
  exact ⟨left, offset, source, right, rfl, hus, hvs⟩

theorem length_lt_of_tokens (lexemes rest : List Lexeme) (ts : List Token)
    (h : tokens lexemes = ts) (hts : ts ≠ []) : rest.length < (lexemes ++ rest).length := by
  have hpositive : 0 < (tokens lexemes).length := by
    rw [h]
    exact List.length_pos_iff.mpr hts
  rw [List.length_map] at hpositive
  rw [List.length_append]
  omega

theorem calls_append_joined (us vs behind : List Token) (mark : Token) (hvs : vs ≠ []) :
    Calls (us ++ mark :: vs) behind ↔ Calls vs behind := by
  rw [calls_append_left us _ behind (List.cons_ne_nil mark vs), ← List.singleton_append,
    calls_append_left [mark] vs behind hvs]

section Complete

variable (finish : Nat)

/-- A product is over where no product goes on. -/
theorem productTail_ends (fuel : Nat) (t : Expr Decimal) (rest : List Lexeme)
    (h : EndsProduct rest) (hfuel : 0 < fuel) :
    productTail finish fuel t rest = .ok (t, rest) := by
  rcases fuel with _ | fuel
  · omega
  · rcases rest with _ | ⟨⟨token, offset, source⟩, others⟩
    · rfl
    · have htoken := h token rfl
      cases token with
      | operator op => cases op <;> first | rfl | cases htoken
      | closing => rfl
      | _ => cases htoken

/-- A sum is over at its end. -/
theorem sumTail_ends (fuel : Nat) (t : Expr Decimal) (rest : List Lexeme)
    (h : EndsSum rest) (hfuel : 0 < fuel) : sumTail finish fuel t rest = .ok (t, rest) := by
  rcases fuel with _ | fuel
  · omega
  · rcases rest with _ | ⟨⟨token, offset, source⟩, others⟩
    · rfl
    · have htoken : token = .closing := h token rfl
      rw [htoken]
      rfl

/-- An atom is a power where no exponent follows. -/
theorem power_unraised (fuel : Nat) (lexemes rest : List Lexeme) (t : Expr Decimal)
    (hatom : atom finish fuel lexemes = .ok (t, rest)) (hrest : EndsFactor rest) :
    power finish (fuel + 1) lexemes = .ok (t, rest) := by
  rw [power, hatom]
  rcases rest with _ | ⟨⟨token, offset, source⟩, others⟩
  · rfl
  · by_cases htoken : token = .operator .pow
    · exact absurd (congrArg some htoken) hrest
    · cases token with
      | operator op =>
          cases op with
          | pow => exact absurd rfl htoken
          | _ => rfl
      | _ => rfl

/-- A power has no minus sign in front, since no atom begins with one. -/
theorem signed_unsigned (fuel : Nat) (lexemes rest : List Lexeme) (t : Expr Decimal)
    (hpower : power finish (fuel + 2) lexemes = .ok (t, rest)) :
    signed finish (fuel + 3) lexemes = .ok (t, rest) := by
  rcases lexemes with _ | ⟨⟨token, offset, source⟩, others⟩
  · exact hpower
  · by_cases htoken : token = .operator .sub
    · rw [htoken, power] at hpower
      cases hpower
    · cases token with
      | operator op =>
          cases op with
          | sub => exact absurd rfl htoken
          | _ => exact hpower
      | _ => exact hpower

/-- A product goes on with whatever begins an atom. -/
theorem productTail_beginsAtom (fuel : Nat) (t : Expr Decimal) (lexemes : List Lexeme)
    (token : Token) (hhead : (tokens lexemes).head? = some token)
    (hatom : beginsAtom token = true) :
    productTail finish (fuel + 1) t lexemes = (do
      let (second, rest) ← signed finish fuel lexemes
      productTail finish fuel (.binary .mul t second) rest) := by
  rcases lexemes with _ | ⟨⟨first, offset, source⟩, others⟩
  · cases hhead
  · have hfirst : first = token := Option.some.inj hhead
    cases token with
    | operator op => cases hatom
    | closing => cases hatom
    | _ => rw [hfirst]; rfl

/-- A phrase is read when it stands in front of what may follow it, with the fuel that
    all lexemes together need. A sum and a product may still go on: they are left as what
    has been read so far. -/
def IsRead (ts : List Token) (t : Expr Decimal) (r : Rule) : Prop :=
  ∀ lexemes rest fuel, tokens lexemes = ts → ¬ Calls ts (tokens rest) →
    match r with
    | .sum => EndsProduct rest → 5 * (lexemes ++ rest).length + 5 ≤ fuel →
        sum finish fuel (lexemes ++ rest) = sumTail finish fuel t rest
    | .product => EndsFactor rest → 5 * (lexemes ++ rest).length + 4 ≤ fuel →
        product finish fuel (lexemes ++ rest) = productTail finish fuel t rest
    | .signed => EndsFactor rest → 5 * (lexemes ++ rest).length + 3 ≤ fuel →
        signed finish fuel (lexemes ++ rest) = .ok (t, rest)
    | .power => EndsFactor rest → 5 * (lexemes ++ rest).length + 2 ≤ fuel →
        power finish fuel (lexemes ++ rest) = .ok (t, rest)
    | .atom => 5 * (lexemes ++ rest).length + 1 ≤ fuel →
        atom finish fuel (lexemes ++ rest) = .ok (t, rest)

variable {finish}

/-- A sum goes on with a sign and a product. -/
theorem IsRead.joined (us vs : List Token) (t u : Expr Decimal) (op : BinaryOp)
    (hleft : IsRead finish us t .sum) (hright : IsRead finish vs u .product) (hvs : vs ≠ [])
    (hends : endsProduct (.operator op) = true)
    (hstep : ∀ fuel offset source behind,
      sumTail finish (fuel + 1) t (⟨.operator op, offset, source⟩ :: behind) = (do
        let (second, rest) ← product finish fuel behind
        sumTail finish fuel (.binary op t second) rest)) :
    IsRead finish (us ++ .operator op :: vs) (.binary op t u) .sum := by
  intro lexemes rest fuel htokens hcalls hrest hfuel
  rcases exists_of_tokens_joined lexemes us vs _ htokens with
    ⟨left, offset, source, right, rfl, hus, hvs'⟩
  simp only [List.append_assoc, List.cons_append, List.length_append, List.length_cons] at hfuel ⊢
  rcases fuel with _ | fuel
  · omega
  rw [calls_append_joined us vs _ _ hvs] at hcalls
  -- The left operand leaves its repetition in front of the sign.
  have hfirst : sum finish (fuel + 1) (left ++ ⟨.operator op, offset, source⟩ :: (right ++ rest)) =
      sumTail finish (fuel + 1) t (⟨.operator op, offset, source⟩ :: (right ++ rest)) := by
    refine hleft left _ (fuel + 1) hus (not_calls_of_head us _ _ Token.noConfusion) ?_ ?_
    · intro token htoken
      rwa [← Option.some.inj htoken]
    · simp only [List.length_append, List.length_cons]
      omega
  have hsecond : product finish fuel (right ++ rest) = .ok (u, rest) := by
    rw [hright right rest fuel hvs' hcalls hrest.endsFactor
      (by rw [List.length_append]; omega)]
    exact productTail_ends finish fuel u rest hrest (by omega)
  rw [hfirst, hstep, hsecond]
  exact ((rulesSteady finish fuel).sumTail _ rest (by omega)).symm

/-- A factor that has been read joins the product in front of it. -/
theorem IsRead.joins (vs : List Token) (t u : Expr Decimal) (op : BinaryOp) (fuel : Nat)
    (right rest : List Lexeme) (hright : IsRead finish vs u .signed) (hvs : tokens right = vs)
    (hcalls : ¬ Calls vs (tokens rest)) (hrest : EndsFactor rest)
    (hfuel : 5 * (right ++ rest).length + 4 ≤ fuel) :
    (do let (second, rest) ← signed finish fuel (right ++ rest)
        productTail finish fuel (.binary op t second) rest) =
      productTail finish (fuel + 1) (.binary op t u) rest := by
  rw [hright right rest fuel hvs hcalls hrest (by omega)]
  rw [List.length_append] at hfuel
  exact ((rulesSteady finish fuel).productTail _ rest (by omega)).symm

/-- A product goes on with a sign and a factor. -/
theorem IsRead.multiplied (us vs : List Token) (t u : Expr Decimal) (op : BinaryOp)
    (hleft : IsRead finish us t .product) (hright : IsRead finish vs u .signed) (hvs : vs ≠ [])
    (hop : op ≠ .pow)
    (hstep : ∀ fuel offset source behind,
      productTail finish (fuel + 1) t (⟨.operator op, offset, source⟩ :: behind) = (do
        let (second, rest) ← signed finish fuel behind
        productTail finish fuel (.binary op t second) rest)) :
    IsRead finish (us ++ .operator op :: vs) (.binary op t u) .product := by
  intro lexemes rest fuel htokens hcalls hrest hfuel
  rcases exists_of_tokens_joined lexemes us vs _ htokens with
    ⟨left, offset, source, right, rfl, hus, hvs'⟩
  simp only [List.append_assoc, List.cons_append, List.length_append, List.length_cons] at hfuel ⊢
  rcases fuel with _ | fuel
  · omega
  rw [calls_append_joined us vs _ _ hvs] at hcalls
  -- The sign behind the left operand is not the one of a power, which would be read first.
  have hfirst :
      product finish (fuel + 1) (left ++ ⟨.operator op, offset, source⟩ :: (right ++ rest)) =
        productTail finish (fuel + 1) t (⟨.operator op, offset, source⟩ :: (right ++ rest)) := by
    refine hleft left _ (fuel + 1) hus (not_calls_of_head us _ _ Token.noConfusion) ?_ ?_
    · intro hhead
      exact hop (Token.operator.inj (Option.some.inj hhead))
    · simp only [List.length_append, List.length_cons]
      omega
  rw [hfirst, hstep]
  exact hright.joins vs t u op fuel right rest hvs' hcalls hrest
    (by rw [List.length_append]; omega)

/-- A product goes on with a factor that stands beside it. -/
theorem IsRead.beside (us vs : List Token) (t u : Expr Decimal)
    (hleft : IsRead finish us t .product) (hright : IsRead finish vs u .signed) (husne : us ≠ [])
    (hphrase : Phrase .signed vs u) (hsign : vs.head? ≠ some (.operator .sub))
    (hcall : ¬ Calls us vs) : IsRead finish (us ++ vs) (.binary .mul t u) .product := by
  intro lexemes rest fuel htokens hcalls hrest hfuel
  rcases List.map_eq_append_iff.mp htokens with ⟨left, right, rfl, hus, hvs⟩
  rw [List.append_assoc] at hfuel ⊢
  rw [calls_append_left us vs _ hphrase.ne_nil] at hcalls
  rcases fuel with _ | fuel
  · omega
  -- The factor begins with no minus sign, so it begins with an atom.
  rcases hphrase.head with ⟨token, others, hothers, hbegins⟩
  have hatom : beginsAtom token = true := by
    refine hbegins.resolve_left fun heq => hsign ?_
    rw [hothers, heq, List.head?_cons]
  have hhead : (tokens (right ++ rest)).head? = some token := by
    rw [tokens, List.map_append, hvs, hothers, List.cons_append, List.head?_cons]
  have hfirst : product finish (fuel + 1) (left ++ (right ++ rest)) =
      productTail finish (fuel + 1) t (right ++ rest) := by
    refine hleft left _ (fuel + 1) hus ?_ ?_ hfuel
    · rwa [tokens, List.map_append, hvs, calls_append_right us vs _ hphrase.ne_nil]
    · -- No atom begins with the sign of a power.
      intro hpow
      rw [hhead, Option.some.injEq] at hpow
      rw [hpow] at hatom
      cases hatom
  rw [hfirst, productTail_beginsAtom finish fuel t _ token hhead hatom]
  rw [List.length_append] at hfuel
  refine hright.joins vs t u .mul fuel right rest hvs hcalls hrest ?_
  -- The left operand has at least one lexeme, which pays for the unit of fuel.
  have hpositive : 0 < left.length := by
    rw [← List.length_map Lexeme.token, hus]
    exact List.length_pos_iff.mpr husne
  rw [List.length_append] at hfuel ⊢
  omega

/-- An atom is raised to a factor. -/
theorem IsRead.raised (us vs : List Token) (t u : Expr Decimal)
    (hbase : IsRead finish us t .atom) (hexponent : IsRead finish vs u .signed) (hvs : vs ≠ []) :
    IsRead finish (us ++ .operator .pow :: vs) (.binary .pow t u) .power := by
  intro lexemes rest fuel htokens hcalls hrest hfuel
  rcases exists_of_tokens_joined lexemes us vs _ htokens with
    ⟨left, offset, source, right, rfl, hus, hvs'⟩
  simp only [List.append_assoc, List.cons_append, List.length_append, List.length_cons] at hfuel ⊢
  rcases fuel with _ | fuel
  · omega
  rw [calls_append_joined us vs _ _ hvs] at hcalls
  have hfirst : atom finish fuel (left ++ ⟨.operator .pow, offset, source⟩ :: (right ++ rest)) =
      .ok (t, ⟨.operator .pow, offset, source⟩ :: (right ++ rest)) := by
    refine hbase left _ fuel hus (not_calls_of_head us _ _ Token.noConfusion) ?_
    simp only [List.length_append, List.length_cons]
    omega
  have hsecond : signed finish fuel (right ++ rest) = .ok (u, rest) :=
    hexponent right rest fuel hvs' hcalls hrest (by rw [List.length_append]; omega)
  rw [power, hfirst]
  exact Outcome.bind_congr _ _ _ _ hsecond fun _ _ => rfl

/-- A sum between parentheses is read up to the one that closes. -/
theorem IsRead.closed (function : Option String) (ts : List Token) (t : Expr Decimal)
    (inner rest : List Lexeme) (fuel : Nat) (closing : Lexeme) (build : Expr Decimal → Expr Decimal)
    (h : IsRead finish ts t .sum) (hts : tokens inner = ts) (hclosing : closing.token = .closing)
    (hfuel : 5 * (inner ++ closing :: rest).length + 5 ≤ fuel) :
    (do let (group, rest) ← sum finish fuel (inner ++ closing :: rest)
        let rest ← close finish function rest
        return (build group, rest)) = .ok (build t, rest) := by
  have hends : EndsSum (closing :: rest) := by
    intro token htoken
    rw [← Option.some.inj htoken, hclosing]
  have hcalls : ¬ Calls ts (tokens (closing :: rest)) :=
    not_calls_of_head ts _ _ (hclosing ▸ Token.noConfusion)
  have hgroup : sum finish fuel (inner ++ closing :: rest) = .ok (t, closing :: rest) := by
    rw [h inner (closing :: rest) fuel hts hcalls hends.endsProduct hfuel]
    exact sumTail_ends finish fuel t _ hends (by omega)
  have hclose : close finish function (closing :: rest) = .ok rest := by
    rcases closing with ⟨token, offset, source⟩
    rw [show token = .closing from hclosing]
    rfl
  rw [hgroup]
  exact Outcome.bind_congr _ _ _ _ hclose fun _ _ => rfl

/-- Every phrase is read. -/
theorem isRead (r : Rule) (ts : List Token) (t : Expr Decimal) (h : Phrase r ts t) :
    IsRead finish ts t r := by
  induction h with
  | term ts t hphrase ih =>
      intro lexemes rest fuel htokens hcalls hrest hfuel
      rcases fuel with _ | fuel
      · omega
      have hlength := length_lt_of_tokens lexemes rest ts htokens hphrase.ne_nil
      -- The product is over, and what is left is the repetition of the sum.
      rw [sum, ih lexemes rest fuel htokens hcalls hrest.endsFactor (by omega),
        productTail_ends finish fuel t rest hrest (by omega)]
      exact ((rulesSteady finish fuel).sumTail t rest (by omega)).symm
  | plus us vs t u _ hright ihLeft ihRight =>
      exact ihLeft.joined us vs t u .add ihRight hright.ne_nil rfl fun _ _ _ _ => rfl
  | minus us vs t u _ hright ihLeft ihRight =>
      exact ihLeft.joined us vs t u .sub ihRight hright.ne_nil rfl fun _ _ _ _ => rfl
  | factor ts t hphrase ih =>
      intro lexemes rest fuel htokens hcalls hrest hfuel
      rcases fuel with _ | fuel
      · omega
      have hlength := length_lt_of_tokens lexemes rest ts htokens hphrase.ne_nil
      rw [product, ih lexemes rest fuel htokens hcalls hrest (by omega)]
      exact ((rulesSteady finish fuel).productTail t rest (by omega)).symm
  | times us vs t u _ hright ihLeft ihRight =>
      exact ihLeft.multiplied us vs t u .mul ihRight hright.ne_nil BinaryOp.noConfusion
        fun _ _ _ _ => rfl
  | dividedBy us vs t u _ hright ihLeft ihRight =>
      exact ihLeft.multiplied us vs t u .div ihRight hright.ne_nil BinaryOp.noConfusion
        fun _ _ _ _ => rfl
  | beside us vs t u hleft hright hsign hcall ihLeft ihRight =>
      exact ihLeft.beside us vs t u ihRight hleft.ne_nil hright hsign hcall
  | negative ts t hphrase ih =>
      intro lexemes rest fuel htokens hcalls hrest hfuel
      rcases List.map_eq_cons_iff.mp htokens with ⟨⟨token, offset, source⟩, right, rfl, rfl, hts⟩
      rcases fuel with _ | fuel
      · omega
      rw [← List.singleton_append, calls_append_left _ _ _ hphrase.ne_nil] at hcalls
      rw [List.cons_append, List.length_cons] at hfuel
      have hoperand := ih right rest fuel hts hcalls hrest (by omega)
      rw [List.cons_append, signed, hoperand]
      rfl
  | unsigned ts t hphrase ih =>
      intro lexemes rest fuel htokens hcalls hrest hfuel
      -- Two more calls are made before the atom is.
      rcases fuel with _ | _ | _ | fuel
      · omega
      · omega
      · omega
      exact signed_unsigned finish fuel _ rest t
        (ih lexemes rest (fuel + 2) htokens hcalls hrest (by omega))
  | base ts t hphrase ih =>
      intro lexemes rest fuel htokens hcalls hrest hfuel
      rcases fuel with _ | fuel
      · omega
      exact power_unraised finish fuel _ rest t
        (ih lexemes rest fuel htokens hcalls (by omega)) hrest
  | raised us vs t u _ hexponent ihBase ihExponent =>
      exact ihBase.raised us vs t u ihExponent hexponent.ne_nil
  | number value =>
      intro lexemes rest fuel htokens hcalls hfuel
      rcases fuel with _ | fuel
      · omega
      rcases List.map_eq_singleton_iff.mp htokens with ⟨⟨token, offset, source⟩, rfl, rfl⟩
      rfl
  | symbol name =>
      intro lexemes rest fuel htokens hcalls hfuel
      rcases fuel with _ | fuel
      · omega
      rcases List.map_eq_singleton_iff.mp htokens with ⟨⟨token, offset, source⟩, rfl, rfl⟩
      -- No parenthesis opens behind the name, or it would be called.
      rcases rest with _ | ⟨⟨token, offset', source'⟩, others⟩
      · rfl
      · by_cases htoken : token = .opening
        · refine absurd ⟨⟨name, rfl⟩, ?_⟩ hcalls
          rw [htoken]
          rfl
        · cases token with
          | opening => exact absurd rfl htoken
          | _ => rfl
  | call function ts t _ ih =>
      intro lexemes rest fuel htokens hcalls hfuel
      rcases fuel with _ | fuel
      · omega
      rcases List.map_eq_cons_iff.mp htokens with ⟨⟨token, offset, source⟩, others, rfl, rfl, h⟩
      rcases List.map_eq_cons_iff.mp h with ⟨⟨token', offset', source'⟩, right, rfl, rfl, hright⟩
      rcases exists_of_tokens_joined right ts [] _ hright with
        ⟨inner, offset, source, last, rfl, hinner, hlast⟩
      rw [List.map_eq_nil_iff.mp hlast] at hfuel ⊢
      simp only [List.append_assoc, List.cons_append, List.nil_append, List.length_cons] at hfuel ⊢
      exact IsRead.closed (some function) ts t inner rest fuel _ (.call function) ih hinner rfl
        (by simp only [List.length_append, List.length_cons] at hfuel ⊢; omega)
  | group ts t _ ih =>
      intro lexemes rest fuel htokens hcalls hfuel
      rcases fuel with _ | fuel
      · omega
      rcases List.map_eq_cons_iff.mp htokens with ⟨⟨token, offset, source⟩, right, rfl, rfl, hright⟩
      rcases exists_of_tokens_joined right ts [] _ hright with
        ⟨inner, offset, source, last, rfl, hinner, hlast⟩
      rw [List.map_eq_nil_iff.mp hlast] at hfuel ⊢
      simp only [List.append_assoc, List.cons_append, List.nil_append, List.length_cons] at hfuel ⊢
      exact IsRead.closed none ts t inner rest fuel _ id ih hinner rfl
        (by simp only [List.length_append, List.length_cons] at hfuel ⊢; omega)
end Complete

/-- A list of lexemes whose tokens are a sum is read as a formula. -/
theorem formula_of_phrase (finish : Nat) (lexemes : List Lexeme) (tree : Expr Decimal)
    (h : Phrase .sum (tokens lexemes) tree) : formula finish lexemes = .ok tree := by
  have hne : lexemes ≠ [] := by
    intro hnil
    exact h.ne_nil (by rw [hnil]; rfl)
  have hends : EndsSum [] := by
    intro token htoken
    cases htoken
  have hcalls : ¬ Calls (tokens lexemes) (tokens []) := by
    rintro ⟨-, hhead⟩
    cases hhead
  have hsum : sum finish (fuelFor lexemes) lexemes = .ok (tree, []) := by
    have hread : IsRead finish (tokens lexemes) tree .sum := isRead .sum _ tree h
    have htail := hread lexemes [] (fuelFor lexemes) rfl hcalls hends.endsProduct
    rw [List.append_nil] at htail
    rw [htail (Nat.le_refl _)]
    exact sumTail_ends finish _ tree [] hends (Nat.succ_pos _)
  rw [formula, List.isEmpty_eq_false_iff.mpr hne, hsum]
  rfl

/-- The tokens of a formula are a sum. -/
theorem phrase_of_formula (finish : Nat) (lexemes : List Lexeme) (tree : Expr Decimal)
    (h : formula finish lexemes = .ok tree) : Phrase .sum (tokens lexemes) tree := by
  by_cases hempty : lexemes.isEmpty = true
  · rw [formula, if_pos hempty] at h
    cases h
  · rw [formula, if_neg hempty] at h
    rcases (Outcome.bind_eq_ok _ _ _).mp h with ⟨-, -, h⟩
    rcases (Outcome.bind_eq_ok _ _ _).mp h with ⟨⟨first, rest⟩, hsum, hend⟩
    rcases (rulesRead finish _).sum lexemes first rest hsum with ⟨ts, htokens, hphrase, -⟩
    -- Nothing may be left behind the sum.
    rcases rest with _ | ⟨lexeme, others⟩
    · cases hend
      rwa [htokens, tokens, List.map_nil, List.append_nil]
    · cases hend

/-- A list of lexemes is read as a formula with a tree when the grammar derives its
    tokens with that tree, and the grammar derives no list of tokens with two trees. -/
theorem formula_eq_ok_iff (finish : Nat) (lexemes : List Lexeme) (tree : Expr Decimal) :
    (formula finish lexemes = .ok tree ↔ Phrase .sum (tokens lexemes) tree) ∧
      (Phrase .sum (tokens lexemes) tree →
        ∀ other, Phrase .sum (tokens lexemes) other → other = tree) := by
  refine ⟨⟨phrase_of_formula finish lexemes tree, formula_of_phrase finish lexemes tree⟩, ?_⟩
  intro htree other hother
  -- Both are what the one list is read as.
  have hread : Except.ok other = Except.ok tree :=
    (formula_of_phrase finish lexemes other hother).symm.trans
      (formula_of_phrase finish lexemes tree htree)
  exact Except.ok.inj hread

-- A power binds its base more closely than the minus sign in front of it.
example : formula 3 [⟨.operator .sub, 0, ['-']⟩, ⟨.word "x", 1, ['x']⟩,
    ⟨.operator .pow, 2, ['^']⟩, ⟨.word "n", 3, ['n']⟩] =
      .ok (.negate (.binary .pow (.symbol "x") (.symbol "n"))) := by
  rfl

end Metrology.Grammar
