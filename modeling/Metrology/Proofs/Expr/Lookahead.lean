import Metrology.Proofs.Expr.Descent

/-!
# What the rules look at

A rule takes the lexemes that it reads from the front, and it looks at the token behind them
to tell that its phrase is over: with that token the phrase does not go on. It looks at
nothing else. So what a rule has read it reads again with other lexemes behind it, as long
as the first of those has the same token.

## Main definitions

* `Grammar.Rule.run`, `Grammar.Rule.calls`, `Grammar.Rule.Ends`: The rules as functions, the
  fuel that they need, and what may stand behind their phrases.
* `Grammar.Leaves`: What a rule leaves when it has read a phrase.

## Theorems

* `Grammar.rulesLeave`: A rule leaves lexemes with which its phrase does not go on.
* `Grammar.Rule.run_of_phrase`: A phrase is read in front of any such lexemes.
* `Grammar.Rule.reads_again`: What has been read is read again in front of others.
-/

namespace Metrology.Grammar

section Leaving

/-- What may stand behind what a rule has read. -/
def Rule.Ends : Rule → List Lexeme → Prop
  | .sum => EndsSum
  | .product => EndsProduct
  | .signed => EndsFactor
  | .power => EndsFactor
  | .atom => fun _ => True

/-- What may stand behind a phrase shows in the first token. -/
theorem Rule.Ends.of_head (r : Rule) (rest other : List Lexeme) (h : r.Ends rest)
    (hhead : (tokens other).head? = (tokens rest).head?) : r.Ends other := by
  cases r <;> simp_all [Rule.Ends, EndsSum, EndsProduct, EndsFactor]

/-- A rule leaves the end of what it was given, and its phrase does not go on there. -/
def Leaves (ends : List Lexeme → Prop) (lexemes : List Lexeme) (parsed : Parsed) : Prop :=
  ∀ tree rest, parsed = .ok (tree, rest) → rest <:+ lexemes ∧ ends rest

namespace Leaves

variable (ends : List Lexeme → Prop)

theorem error (lexemes : List Lexeme) (e : ParseError) : Leaves ends lexemes (.error e) := by
  intro tree rest h
  cases h

theorem stop (lexemes : List Lexeme) (tree : Expr Decimal) (h : ends lexemes) :
    Leaves ends lexemes (.ok (tree, lexemes)) := by
  intro tree' rest hok
  cases hok
  exact ⟨List.suffix_rfl, h⟩

theorem bind (ends' : List Lexeme → Prop) (lexemes inner : List Lexeme) (x : Parsed)
    (f : Expr Decimal × List Lexeme → Parsed) (hinner : inner <:+ lexemes)
    (hx : Leaves ends' inner x) (hf : ∀ tree rest, ends' rest → Leaves ends rest (f (tree, rest))) :
    Leaves ends lexemes (x >>= f) := by
  intro tree rest h
  rcases (Outcome.bind_eq_ok _ _ _).mp h with ⟨⟨first, others⟩, hfirst, hothers⟩
  rcases hx first others hfirst with ⟨hsuffix, hends⟩
  rcases hf first others hends tree rest hothers with ⟨hsuffix', hends'⟩
  exact ⟨hsuffix'.trans (hsuffix.trans hinner), hends'⟩

/-- Behind a closing parenthesis an atom is over. -/
theorem close (finish : Nat) (function : Option String) (lexemes : List Lexeme)
    (build : List Lexeme → Expr Decimal × List Lexeme) (hbuild : ∀ rest, (build rest).2 = rest) :
    Leaves (Rule.Ends .atom) lexemes (do
      let rest ← Grammar.close finish function lexemes
      return build rest) := by
  intro tree rest h
  rcases (Outcome.bind_eq_ok _ _ _).mp h with ⟨others, hclose, heq⟩
  have hrest : rest = others := by
    rw [← hbuild others, (Outcome.pure_eq_ok _ _).mp heq]
  rw [close.eq_def] at hclose
  split at hclose
  · cases hclose
    rw [hrest]
    exact ⟨List.suffix_cons _ _, trivial⟩
  · cases hclose

end Leaves

/-- What all rules leave with some amount of fuel. -/
structure RulesLeave (finish fuel : Nat) : Prop where
  sum : ∀ lexemes, Leaves EndsSum lexemes (sum finish fuel lexemes)
  sumTail : ∀ first lexemes, EndsProduct lexemes →
    Leaves EndsSum lexemes (sumTail finish fuel first lexemes)
  product : ∀ lexemes, Leaves EndsProduct lexemes (product finish fuel lexemes)
  productTail : ∀ first lexemes, EndsFactor lexemes →
    Leaves EndsProduct lexemes (productTail finish fuel first lexemes)
  signed : ∀ lexemes, Leaves EndsFactor lexemes (signed finish fuel lexemes)
  power : ∀ lexemes, Leaves EndsFactor lexemes (power finish fuel lexemes)
  atom : ∀ lexemes, Leaves (Rule.Ends .atom) lexemes (atom finish fuel lexemes)

namespace RulesLeave

theorem zero (finish : Nat) : RulesLeave finish 0 where
  sum _ := by rw [Grammar.sum]; exact Leaves.error _ _ _
  sumTail _ _ _ := by rw [Grammar.sumTail]; exact Leaves.error _ _ _
  product _ := by rw [Grammar.product]; exact Leaves.error _ _ _
  productTail _ _ _ := by rw [Grammar.productTail]; exact Leaves.error _ _ _
  signed _ := by rw [Grammar.signed]; exact Leaves.error _ _ _
  power _ := by rw [Grammar.power]; exact Leaves.error _ _ _
  atom _ := by rw [Grammar.atom]; exact Leaves.error _ _ _

variable {finish fuel : Nat} (h : RulesLeave finish fuel)

include h

theorem sumTail_succ (first : Expr Decimal) (lexemes : List Lexeme) (hends : EndsProduct lexemes) :
    Leaves EndsSum lexemes (Grammar.sumTail finish (fuel + 1) first lexemes) := by
  have hjoined : ∀ op lexeme rest, Leaves EndsSum (lexeme :: rest)
      (Grammar.product finish fuel rest >>= fun step =>
        Grammar.sumTail finish fuel (.binary op first step.1) step.2) :=
    fun op lexeme rest => Leaves.bind _ _ _ rest _ _ (List.suffix_cons _ _) (h.product rest)
      fun second others hothers => h.sumTail _ others hothers
  rcases lexemes with _ | ⟨⟨token, offset, source⟩, rest⟩
  · exact Leaves.stop _ _ _ (by simp [EndsSum])
  · have htoken := hends token rfl
    cases token with
    | operator op =>
        cases op with
        | add => exact hjoined .add _ rest
        | sub => exact hjoined .sub _ rest
        | _ => cases htoken
    | closing => exact Leaves.stop _ _ _ (by simp [EndsSum])
    | _ => cases htoken

theorem productTail_succ (first : Expr Decimal) (lexemes : List Lexeme)
    (hends : EndsFactor lexemes) :
    Leaves EndsProduct lexemes (Grammar.productTail finish (fuel + 1) first lexemes) := by
  have hjoined : ∀ op rest, rest <:+ lexemes → Leaves EndsProduct lexemes
      (Grammar.signed finish fuel rest >>= fun step =>
        Grammar.productTail finish fuel (.binary op first step.1) step.2) :=
    fun op rest hrest => Leaves.bind _ _ _ rest _ _ hrest (h.signed rest)
      fun second others hothers => h.productTail _ others hothers
  rcases lexemes with _ | ⟨⟨token, offset, source⟩, rest⟩
  · exact Leaves.stop _ _ _ (by simp [EndsProduct])
  · have hrest : rest <:+ ⟨token, offset, source⟩ :: rest := List.suffix_cons _ _
    cases token with
    | operator op =>
        cases op with
        | mul => exact hjoined .mul rest hrest
        | div => exact hjoined .div rest hrest
        | pow => exact absurd rfl hends
        | _ => exact Leaves.stop _ _ _ (by simp [EndsProduct, endsProduct])
    | closing => exact Leaves.stop _ _ _ (by simp [EndsProduct, endsProduct])
    | _ => exact hjoined .mul _ List.suffix_rfl

theorem signed_succ (lexemes : List Lexeme) :
    Leaves EndsFactor lexemes (Grammar.signed finish (fuel + 1) lexemes) := by
  rw [Grammar.signed.eq_def]
  split
  · exact Leaves.error _ _ _
  · next heq =>
    cases heq
    exact Leaves.bind _ _ _ _ _ _ (List.suffix_cons _ _) (h.signed _) fun operand rest hrest =>
      Leaves.stop _ _ _ hrest
  · next heq _ =>
    cases heq
    exact h.power _

theorem power_succ (lexemes : List Lexeme) :
    Leaves EndsFactor lexemes (Grammar.power finish (fuel + 1) lexemes) := by
  rw [Grammar.power]
  refine Leaves.bind _ _ _ lexemes _ _ List.suffix_rfl (h.atom lexemes) fun base rest _ => ?_
  simp only
  split
  · exact Leaves.bind _ _ _ _ _ _ (List.suffix_cons _ _) (h.signed _) fun exponent others hothers =>
      Leaves.stop _ _ _ hothers
  · next hpow =>
    refine Leaves.stop _ _ _ (fun hhead => ?_)
    rcases rest with _ | ⟨⟨token, offset, source⟩, others⟩
    · cases hhead
    · have htoken : token = .operator .pow := Option.some.inj hhead
      exact hpow offset source others (by rw [htoken])

theorem atom_succ (lexemes : List Lexeme) :
    Leaves (Rule.Ends .atom) lexemes (Grammar.atom finish (fuel + 1) lexemes) := by
  have hsingle : ∀ lexeme rest tree,
      Leaves (Rule.Ends .atom) (lexeme :: rest) (.ok (tree, rest)) := by
    intro lexeme rest tree tree' rest' hok
    cases hok
    exact ⟨List.suffix_cons _ _, trivial⟩
  rw [Grammar.atom.eq_def]
  split
  · exact Leaves.error _ _ _
  · exact Leaves.error _ _ _
  · exact hsingle _ _ _
  · next heq =>
    cases heq
    exact Leaves.bind _ _ _ _ _ _ ((List.suffix_cons _ _).trans (List.suffix_cons _ _)) (h.sum _)
      fun argument rest _ => Leaves.close finish _ rest (fun rest => (_, rest)) fun _ => rfl
  · exact hsingle _ _ _
  · next heq =>
    cases heq
    exact Leaves.bind _ _ _ _ _ _ (List.suffix_cons _ _) (h.sum _)
      fun group rest _ => Leaves.close finish _ rest (fun rest => (_, rest)) fun _ => rfl
  · exact Leaves.error _ _ _
  · exact Leaves.error _ _ _

/-- One more unit of fuel. -/
theorem succ : RulesLeave finish (fuel + 1) where
  sum lexemes := by
    rw [Grammar.sum]
    exact Leaves.bind _ _ _ lexemes _ _ List.suffix_rfl (h.product lexemes) fun first rest hrest =>
      h.sumTail first rest hrest
  sumTail := h.sumTail_succ
  product lexemes := by
    rw [Grammar.product]
    exact Leaves.bind _ _ _ lexemes _ _ List.suffix_rfl (h.signed lexemes) fun first rest hrest =>
      h.productTail first rest hrest
  productTail := h.productTail_succ
  signed := h.signed_succ
  power := h.power_succ
  atom := h.atom_succ

end RulesLeave

/-- A rule leaves lexemes with which its phrase does not go on. -/
theorem rulesLeave (finish fuel : Nat) : RulesLeave finish fuel := by
  induction fuel with
  | zero => exact .zero finish
  | succ fuel ih => exact ih.succ

end Leaving

section Rules

variable (finish : Nat)

/-- The rules as functions. -/
def Rule.run : Rule → (fuel : Nat) → List Lexeme → Parsed
  | .sum => Grammar.sum finish
  | .product => Grammar.product finish
  | .signed => Grammar.signed finish
  | .power => Grammar.power finish
  | .atom => Grammar.atom finish

/-- The calls that are made before a lexeme is taken. -/
def Rule.calls : Rule → Nat
  | .sum => 5
  | .product => 4
  | .signed => 3
  | .power => 2
  | .atom => 1

/-- Enough fuel for a rule to read a list of lexemes. -/
def Rule.Suffices (r : Rule) (lexemes : List Lexeme) (fuel : Nat) : Prop :=
  5 * lexemes.length + r.calls ≤ fuel

/-- A phrase is read in front of any lexemes with which it does not go on. -/
theorem Rule.run_of_phrase (r : Rule) (lexemes rest : List Lexeme) (tree : Expr Decimal)
    (h : Phrase r (tokens lexemes) tree) (hcalls : ¬ Calls (tokens lexemes) (tokens rest))
    (hends : r.Ends rest) (fuel : Nat) (hfuel : r.Suffices (lexemes ++ rest) fuel) :
    r.run finish fuel (lexemes ++ rest) = .ok (tree, rest) := by
  have hread := @isRead finish r _ tree h lexemes rest fuel rfl hcalls
  unfold Rule.Suffices at hfuel
  cases r with
  | sum =>
      refine (hread hends.endsProduct hfuel).trans (sumTail_ends finish fuel tree rest hends ?_)
      simp only [Rule.calls] at hfuel
      omega
  | product =>
      refine (hread hends.endsFactor hfuel).trans (productTail_ends finish fuel tree rest hends ?_)
      simp only [Rule.calls] at hfuel
      omega
  | signed => exact hread hends hfuel
  | power => exact hread hends hfuel
  | atom => exact hread hfuel

/-- What a rule has read, and that it reads it again in front of other lexemes that begin with
    the same token. -/
theorem Rule.reads_again (r : Rule) (fuel : Nat) (lexemes : List Lexeme) (tree : Expr Decimal)
    (rest : List Lexeme) (h : r.run finish fuel lexemes = .ok (tree, rest)) :
    ∃ ahead, lexemes = ahead ++ rest ∧ ahead ≠ [] ∧ Phrase r (tokens ahead) tree ∧
      ¬ Calls (tokens ahead) (tokens rest) ∧ r.Ends rest ∧
      ∀ other, (tokens other).head? = (tokens rest).head? → ∀ fuel,
        r.Suffices (ahead ++ other) fuel →
          r.run finish fuel (ahead ++ other) = .ok (tree, other) := by
  have hreads : Reads r [] lexemes (r.run finish fuel lexemes) := by
    cases r
    · exact (rulesRead finish fuel).sum lexemes
    · exact (rulesRead finish fuel).product lexemes
    · exact (rulesRead finish fuel).signed lexemes
    · exact (rulesRead finish fuel).power lexemes
    · exact (rulesRead finish fuel).atom lexemes
  have hleaves : Leaves r.Ends lexemes (r.run finish fuel lexemes) := by
    cases r
    · exact (rulesLeave finish fuel).sum lexemes
    · exact (rulesLeave finish fuel).product lexemes
    · exact (rulesLeave finish fuel).signed lexemes
    · exact (rulesLeave finish fuel).power lexemes
    · exact (rulesLeave finish fuel).atom lexemes
  rcases hreads tree rest h with ⟨ts, htokens, hphrase, hcalls⟩
  rcases hleaves tree rest h with ⟨⟨ahead, rfl⟩, hends⟩
  have hts : ts = tokens ahead := by
    rw [tokens, List.map_append] at htokens
    exact (List.append_cancel_right htokens).symm
  rw [List.nil_append, hts] at hphrase hcalls
  refine ⟨ahead, rfl, ?_, hphrase, hcalls, hends, ?_⟩
  · intro hnil
    exact hphrase.ne_nil (by rw [hnil]; rfl)
  · intro other hhead fuel hfuel
    refine r.run_of_phrase finish ahead other tree hphrase ?_ (hends.of_head r rest other hhead) fuel
      hfuel
    rwa [Calls, hhead]

end Rules

end Metrology.Grammar
