import Mathlib.Data.List.Basic
import Metrology.Expr.Grammar
import Metrology.Proofs.Outcome

/-!
# Phrases of the grammar

What the grammar of formulas derives, said of lists of tokens and without looking at
how they are read. A phrase of a rule is a list of tokens with the tree that it stands
for. A repetition such as `product (('+' | '-') product)*` is built up from the left, a
shorter repetition being the left operand of a longer one, so the operations group to
the left; a power takes its exponent from the rule for signs, so powers group to the
right and bind more closely than a sign in front of them.

Two factors that stand side by side are the one place where the rules alone leave a
choice, and two conditions take it away. The second factor begins with no minus sign,
which would make a difference. And it begins with no parenthesis that opens directly
behind a name, which would make a call.

Whatever a rule of the grammar reads is such a phrase, with as much or as little fuel
as it is given.

## Main definitions

* `Grammar.Rule`: The rules of the grammar.
* `Grammar.Calls`: Where one phrase ends and the next begins, a call begins.
* `Grammar.Phrase`: The phrases of a rule, with their trees.
* `Grammar.Reads`: A rule that reads a phrase.

## Theorems

* `Grammar.Phrase.ne_nil`, `Grammar.Phrase.head`: A phrase has a first token, and
  which ones begin one.
* `Grammar.rulesRead`: What the rules read are phrases.
* `Grammar.Reads.length_lt`: A rule leaves less than it was given.
-/

namespace Metrology.Grammar

/-- The rules of the grammar. -/
inductive Rule where
  | sum
  | product
  | signed
  | power
  | atom
  deriving DecidableEq, Repr

/-- The first tokens end in a name, and those behind them open a parenthesis: a call,
    which begins in the one list and goes on in the other. -/
def Calls (front behind : List Token) : Prop :=
  (∃ name, front.getLast? = some (.word name)) ∧ behind.head? = some .opening

/-- The phrases of a rule, with their trees. -/
inductive Phrase : Rule → List Token → Expr Decimal → Prop
  | term (ts : List Token) (t : Expr Decimal) (h : Phrase .product ts t) : Phrase .sum ts t
  | plus (us vs : List Token) (t u : Expr Decimal) (hleft : Phrase .sum us t)
      (hright : Phrase .product vs u) :
      Phrase .sum (us ++ .operator .add :: vs) (.binary .add t u)
  | minus (us vs : List Token) (t u : Expr Decimal) (hleft : Phrase .sum us t)
      (hright : Phrase .product vs u) :
      Phrase .sum (us ++ .operator .sub :: vs) (.binary .sub t u)
  | factor (ts : List Token) (t : Expr Decimal) (h : Phrase .signed ts t) : Phrase .product ts t
  | times (us vs : List Token) (t u : Expr Decimal) (hleft : Phrase .product us t)
      (hright : Phrase .signed vs u) :
      Phrase .product (us ++ .operator .mul :: vs) (.binary .mul t u)
  | dividedBy (us vs : List Token) (t u : Expr Decimal) (hleft : Phrase .product us t)
      (hright : Phrase .signed vs u) :
      Phrase .product (us ++ .operator .div :: vs) (.binary .div t u)
  /-- Side by side, and neither a difference nor a call. -/
  | beside (us vs : List Token) (t u : Expr Decimal) (hleft : Phrase .product us t)
      (hright : Phrase .signed vs u) (hsign : vs.head? ≠ some (.operator .sub))
      (hcall : ¬ Calls us vs) :
      Phrase .product (us ++ vs) (.binary .mul t u)
  | negative (ts : List Token) (t : Expr Decimal) (h : Phrase .signed ts t) :
      Phrase .signed (.operator .sub :: ts) (.negate t)
  | unsigned (ts : List Token) (t : Expr Decimal) (h : Phrase .power ts t) : Phrase .signed ts t
  | base (ts : List Token) (t : Expr Decimal) (h : Phrase .atom ts t) : Phrase .power ts t
  | raised (us vs : List Token) (t u : Expr Decimal) (hbase : Phrase .atom us t)
      (hexponent : Phrase .signed vs u) :
      Phrase .power (us ++ .operator .pow :: vs) (.binary .pow t u)
  | number (value : Decimal) : Phrase .atom [.number value] (.number value)
  | symbol (name : String) : Phrase .atom [.word name] (.symbol name)
  | call (function : String) (ts : List Token) (t : Expr Decimal) (h : Phrase .sum ts t) :
      Phrase .atom (.word function :: .opening :: (ts ++ [.closing])) (.call function t)
  | group (ts : List Token) (t : Expr Decimal) (h : Phrase .sum ts t) :
      Phrase .atom (.opening :: (ts ++ [.closing])) t

/-- The tokens that begin a number, a symbol, a call or a group. -/
def beginsAtom : Token → Bool
  | .number _ | .word _ | .opening => true
  | .operator _ | .closing => false

namespace Phrase

variable {r : Rule} {ts : List Token} {t : Expr Decimal}

/-- A phrase begins with a minus sign or with an atom. -/
theorem head (h : Phrase r ts t) :
    ∃ first rest, ts = first :: rest ∧ (first = .operator .sub ∨ beginsAtom first = true) := by
  induction h with
  | term _ _ _ ih | factor _ _ _ ih | unsigned _ _ _ ih | base _ _ _ ih => exact ih
  | plus us _ _ _ _ _ ih _ | minus us _ _ _ _ _ ih _ | times us _ _ _ _ _ ih _
  | dividedBy us _ _ _ _ _ ih _ | beside us _ _ _ _ _ _ _ ih _ | raised us _ _ _ _ _ ih _ =>
      -- What begins the left operand begins the whole.
      rcases ih with ⟨first, rest, rfl, hfirst⟩
      exact ⟨first, _, rfl, hfirst⟩
  | negative ts t _ _ => exact ⟨_, ts, rfl, Or.inl rfl⟩
  | number value => exact ⟨_, [], rfl, Or.inr rfl⟩
  | symbol name => exact ⟨_, [], rfl, Or.inr rfl⟩
  | call function ts t _ _ => exact ⟨_, _, rfl, Or.inr rfl⟩
  | group ts t _ _ => exact ⟨_, _, rfl, Or.inr rfl⟩

theorem ne_nil (h : Phrase r ts t) : ts ≠ [] := by
  rcases h.head with ⟨first, rest, rfl, -⟩
  exact List.cons_ne_nil first rest

end Phrase

/-- The tokens of a list of lexemes. -/
abbrev tokens (lexemes : List Lexeme) : List Token := lexemes.map Lexeme.token

theorem getLast?_append_of_ne_nil (us vs : List Token) (hvs : vs ≠ []) :
    (us ++ vs).getLast? = vs.getLast? := by
  rw [List.getLast?_append]
  cases h : vs.getLast? with
  | none => exact absurd (List.getLast?_eq_none_iff.mp h) hvs
  | some last => rfl

/-- A call that begins at the end of two lists begins at the end of the second. -/
theorem calls_append_left (us vs behind : List Token) (hvs : vs ≠ []) :
    Calls (us ++ vs) behind ↔ Calls vs behind := by
  rw [Calls, getLast?_append_of_ne_nil us vs hvs, Calls]

/-- Where a call begins shows in the first token that follows. -/
theorem calls_append_right (us vs behind : List Token) (hvs : vs ≠ []) :
    Calls us (vs ++ behind) ↔ Calls us vs := by
  rw [Calls, Calls, List.head?_append_of_ne_nil vs hvs]

theorem not_calls_of_head (us : List Token) (first : Token) (rest : List Token)
    (h : first ≠ .opening) : ¬ Calls us (first :: rest) := by
  rintro ⟨-, hhead⟩
  exact h (Option.some.inj hhead)

theorem not_calls_closing (us behind : List Token) : ¬ Calls (us ++ [.closing]) behind := by
  rintro ⟨⟨name, hlast⟩, -⟩
  rw [List.getLast?_concat] at hlast
  cases hlast

theorem startsFactor_iff (lexemes : List Lexeme) :
    startsFactor lexemes = true ↔
      ∃ lexeme rest, lexemes = lexeme :: rest ∧ beginsAtom lexeme.token = true := by
  rcases lexemes with _ | ⟨⟨token, offset, source⟩, rest⟩
  · simp [startsFactor]
  · cases token <;> simp [startsFactor, beginsAtom]

/-- A rule that reads a phrase, of which the first tokens may have been read before. No
    call begins where it stops. -/
def Reads (r : Rule) (front : List Token) (lexemes : List Lexeme) (parsed : Parsed) : Prop :=
  ∀ tree rest, parsed = .ok (tree, rest) →
    ∃ ts, tokens lexemes = ts ++ tokens rest ∧ Phrase r (front ++ ts) tree ∧
      ¬ Calls (front ++ ts) (tokens rest)

namespace Reads

variable (r r' : Rule) (front : List Token)

theorem error (lexemes : List Lexeme) (e : ParseError) : Reads r front lexemes (.error e) := by
  intro tree rest h
  cases h

/-- Nothing more is read. -/
theorem stop (lexemes : List Lexeme) (tree : Expr Decimal) (h : Phrase r front tree)
    (hcalls : ¬ Calls front (tokens lexemes)) : Reads r front lexemes (.ok (tree, lexemes)) := by
  intro tree' rest hok
  cases hok
  exact ⟨[], rfl, by rwa [List.append_nil], by rwa [List.append_nil]⟩

/-- A single lexeme is read. -/
theorem single (lexeme : Lexeme) (rest : List Lexeme) (tree : Expr Decimal)
    (h : Phrase .atom [lexeme.token] tree) (hcalls : ¬ Calls [lexeme.token] (tokens rest)) :
    Reads .atom [] (lexeme :: rest) (.ok (tree, rest)) := by
  intro tree' rest' hok
  cases hok
  exact ⟨[lexeme.token], rfl, h, hcalls⟩

/-- A phrase is read, some tokens further on, and then what follows it. -/
theorem bind (skipped : List Token) (lexemes inner : List Lexeme) (x : Parsed)
    (f : Expr Decimal × List Lexeme → Parsed) (hskip : tokens lexemes = skipped ++ tokens inner)
    (hx : Reads r' [] inner x)
    (hf : ∀ ts tree rest, Phrase r' ts tree → ¬ Calls ts (tokens rest) →
      tokens inner = ts ++ tokens rest → Reads r (front ++ skipped ++ ts) rest (f (tree, rest))) :
    Reads r front lexemes (x >>= f) := by
  intro tree rest h
  rcases (Outcome.bind_eq_ok _ _ _).mp h with ⟨⟨first, others⟩, hfirst, hothers⟩
  rcases hx first others hfirst with ⟨ts, htokens, hphrase, hcalls⟩
  rcases hf ts first others hphrase hcalls htokens tree rest hothers with
    ⟨vs, hrest, hwhole, hend⟩
  refine ⟨skipped ++ ts ++ vs, ?_, ?_, ?_⟩
  · rw [hskip, htokens, hrest]
    simp only [List.append_assoc]
  · simpa only [List.append_assoc] using hwhole
  · simpa only [List.append_assoc] using hend

/-- A phrase up to a closing parenthesis. -/
theorem close (finish : Nat) (function : Option String) (lexemes : List Lexeme)
    (tree : Expr Decimal) (h : Phrase .atom (front ++ [.closing]) tree) :
    Reads .atom front lexemes (do
      let rest ← Grammar.close finish function lexemes
      return (tree, rest)) := by
  intro tree' rest hok
  rcases (Outcome.bind_eq_ok _ _ _).mp hok with ⟨others, hclose, heq⟩
  cases heq
  rw [close.eq_def] at hclose
  split at hclose
  · cases hclose
    exact ⟨[.closing], rfl, h, not_calls_closing front _⟩
  · cases hclose

/-- Another operand joins the phrase behind the sign of an operation. -/
theorem joined (op : BinaryOp) (offset : Nat) (source : List Char) (lexemes : List Lexeme)
    (first : Expr Decimal) (operand : List Lexeme → Parsed)
    (tail : Expr Decimal → List Lexeme → Parsed)
    (hop : ∀ ts second, Phrase r' ts second →
      Phrase r (front ++ .operator op :: ts) (.binary op first second))
    (hoperand : Reads r' [] lexemes (operand lexemes))
    (htail : ∀ front first lexemes, Phrase r front first → ¬ Calls front (tokens lexemes) →
      Reads r front lexemes (tail first lexemes)) :
    Reads r front (⟨.operator op, offset, source⟩ :: lexemes) (do
      let (second, rest) ← operand lexemes
      tail (.binary op first second) rest) := by
  refine bind r r' front [.operator op] _ lexemes _ _ rfl hoperand ?_
  intro ts second rest hsecond hend _
  rw [List.append_assoc, List.singleton_append]
  refine htail _ _ _ (hop ts second hsecond) ?_
  -- The phrase ends with the operand, so no call begins behind it either.
  rwa [calls_append_left _ _ _ (List.cons_ne_nil _ _), ← List.singleton_append,
    calls_append_left _ _ _ hsecond.ne_nil]

end Reads

/-- What all rules read with some amount of fuel are phrases. -/
structure RulesRead (finish fuel : Nat) : Prop where
  sum : ∀ lexemes, Reads .sum [] lexemes (sum finish fuel lexemes)
  sumTail : ∀ front first lexemes, Phrase .sum front first → ¬ Calls front (tokens lexemes) →
    Reads .sum front lexemes (sumTail finish fuel first lexemes)
  product : ∀ lexemes, Reads .product [] lexemes (product finish fuel lexemes)
  productTail : ∀ front first lexemes, Phrase .product front first →
    ¬ Calls front (tokens lexemes) →
      Reads .product front lexemes (productTail finish fuel first lexemes)
  signed : ∀ lexemes, Reads .signed [] lexemes (signed finish fuel lexemes)
  power : ∀ lexemes, Reads .power [] lexemes (power finish fuel lexemes)
  atom : ∀ lexemes, Reads .atom [] lexemes (atom finish fuel lexemes)

namespace RulesRead

theorem zero (finish : Nat) : RulesRead finish 0 where
  sum lexemes := by
    rw [Grammar.sum]
    exact Reads.error _ _ _ _
  sumTail front first lexemes _ _ := by
    rw [Grammar.sumTail]
    exact Reads.error _ _ _ _
  product lexemes := by
    rw [Grammar.product]
    exact Reads.error _ _ _ _
  productTail front first lexemes _ _ := by
    rw [Grammar.productTail]
    exact Reads.error _ _ _ _
  signed lexemes := by
    rw [Grammar.signed]
    exact Reads.error _ _ _ _
  power lexemes := by
    rw [Grammar.power]
    exact Reads.error _ _ _ _
  atom lexemes := by
    rw [Grammar.atom]
    exact Reads.error _ _ _ _

variable {finish fuel : Nat} (h : RulesRead finish fuel)

include h

theorem sumTail_succ (front : List Token) (first : Expr Decimal) (lexemes : List Lexeme)
    (hfirst : Phrase .sum front first) (hcalls : ¬ Calls front (tokens lexemes)) :
    Reads .sum front lexemes (Grammar.sumTail finish (fuel + 1) first lexemes) := by
  rw [Grammar.sumTail.eq_def]
  split
  · exact Reads.error _ _ _ _
  · next heq =>
    cases heq
    exact Reads.joined _ _ front .add _ _ _ _ _ _ (fun ts second => .plus front ts _ _ hfirst)
      (h.product _) h.sumTail
  · next heq =>
    cases heq
    exact Reads.joined _ _ front .sub _ _ _ _ _ _ (fun ts second => .minus front ts _ _ hfirst)
      (h.product _) h.sumTail
  · exact Reads.stop _ _ _ _ hfirst hcalls

theorem productTail_succ (front : List Token) (first : Expr Decimal) (lexemes : List Lexeme)
    (hfirst : Phrase .product front first) (hcalls : ¬ Calls front (tokens lexemes)) :
    Reads .product front lexemes (Grammar.productTail finish (fuel + 1) first lexemes) := by
  rw [Grammar.productTail.eq_def]
  split
  · exact Reads.error _ _ _ _
  · next heq =>
    cases heq
    exact Reads.joined _ _ front .mul _ _ _ _ _ _ (fun ts second => .times front ts _ _ hfirst)
      (h.signed _) h.productTail
  · next heq =>
    cases heq
    exact Reads.joined _ _ front .div _ _ _ _ _ _
      (fun ts second => .dividedBy front ts _ _ hfirst) (h.signed _) h.productTail
  · next heq _ _ =>
    cases heq
    split
    · next hstarts =>
      -- The factor begins with the first lexeme, which is no minus sign and begins no call.
      rcases (startsFactor_iff _).mp hstarts with ⟨lexeme, others, rfl, hbegins⟩
      refine Reads.bind _ .signed _ [] _ _ _ _ rfl (h.signed _) ?_
      intro ts second rest hsecond hend htokens
      rcases hsecond.head with ⟨token, ts', rfl, -⟩
      have htoken : lexeme.token = token := (List.cons.inj htokens).1
      rw [List.append_nil]
      refine h.productTail _ _ _ (.beside front _ _ second hfirst hsecond ?_ ?_) ?_
      · rintro hsign
        rw [htoken, Option.some.inj hsign] at hbegins
        cases hbegins
      · rintro ⟨hname, hopening⟩
        exact hcalls ⟨hname, (congrArg some htoken).trans hopening⟩
      · rwa [calls_append_left _ _ _ (List.cons_ne_nil _ _)]
    · exact Reads.stop _ _ _ _ hfirst hcalls

theorem signed_succ (lexemes : List Lexeme) :
    Reads .signed [] lexemes (Grammar.signed finish (fuel + 1) lexemes) := by
  rw [Grammar.signed.eq_def]
  split
  · exact Reads.error _ _ _ _
  · next heq =>
    cases heq
    refine Reads.bind _ .signed _ [.operator .sub] _ _ _ _ rfl (h.signed _) ?_
    intro ts operand rest hoperand hend _
    refine Reads.stop _ _ _ _ (.negative ts operand hoperand) ?_
    rwa [List.nil_append, calls_append_left _ _ _ hoperand.ne_nil]
  · next heq _ =>
    cases heq
    intro tree rest hok
    rcases h.power _ tree rest hok with ⟨ts, htokens, hphrase, hend⟩
    exact ⟨ts, htokens, .unsigned ts tree hphrase, hend⟩

theorem power_succ (lexemes : List Lexeme) :
    Reads .power [] lexemes (Grammar.power finish (fuel + 1) lexemes) := by
  rw [Grammar.power]
  refine Reads.bind _ .atom _ [] _ _ _ _ rfl (h.atom _) ?_
  intro us base rest hbase hcalls _
  rw [List.append_nil, List.nil_append]
  simp only
  split
  · refine Reads.bind _ .signed _ [.operator .pow] _ _ _ _ rfl (h.signed _) ?_
    intro vs exponent rest hexponent hend _
    rw [List.append_assoc, List.singleton_append]
    refine Reads.stop _ _ _ _ (.raised us vs base exponent hbase hexponent) ?_
    rwa [calls_append_left _ _ _ (List.cons_ne_nil _ _), ← List.singleton_append,
      calls_append_left _ _ _ hexponent.ne_nil]
  · exact Reads.stop _ _ _ _ (.base us base hbase) hcalls

theorem atom_succ (lexemes : List Lexeme) :
    Reads .atom [] lexemes (Grammar.atom finish (fuel + 1) lexemes) := by
  rw [Grammar.atom.eq_def]
  split
  · exact Reads.error _ _ _ _
  · exact Reads.error _ _ _ _
  · refine Reads.single _ _ _ (.number _) ?_
    rintro ⟨⟨name, hlast⟩, -⟩
    cases hlast
  · next heq =>
    cases heq
    refine Reads.bind _ .sum _ [.word _, .opening] _ _ _ _ rfl (h.sum _) ?_
    intro ts argument rest hargument _ _
    exact Reads.close _ finish _ _ _ (.call _ ts argument hargument)
  · next name offset source rest hopening heq =>
    -- What follows is no parenthesis that opens, or the name would have been called.
    refine Reads.single _ _ _ (.symbol _) ?_
    rintro ⟨-, hhead⟩
    rcases rest with _ | ⟨⟨token, offset', source'⟩, others⟩
    · cases hhead
    · have htoken : token = .opening := Option.some.inj hhead
      exact hopening offset' source' others (by rw [htoken])
  · next heq =>
    cases heq
    refine Reads.bind _ .sum _ [.opening] _ _ _ _ rfl (h.sum _) ?_
    intro ts group rest hgroup _ _
    exact Reads.close _ finish _ _ _ (.group ts group hgroup)
  · exact Reads.error _ _ _ _
  · exact Reads.error _ _ _ _

/-- One more unit of fuel. -/
theorem succ : RulesRead finish (fuel + 1) where
  sum lexemes := by
    rw [Grammar.sum]
    refine Reads.bind _ .product _ [] _ _ _ _ rfl (h.product lexemes) ?_
    intro ts first rest hfirst hcalls _
    exact h.sumTail ts first rest (.term ts first hfirst) hcalls
  sumTail := h.sumTail_succ
  product lexemes := by
    rw [Grammar.product]
    refine Reads.bind _ .signed _ [] _ _ _ _ rfl (h.signed lexemes) ?_
    intro ts first rest hfirst hcalls _
    exact h.productTail ts first rest (.factor ts first hfirst) hcalls
  productTail := h.productTail_succ
  signed := h.signed_succ
  power := h.power_succ
  atom := h.atom_succ

end RulesRead

/-- What the rules read are phrases. -/
theorem rulesRead (finish fuel : Nat) : RulesRead finish fuel := by
  induction fuel with
  | zero => exact .zero finish
  | succ fuel ih => exact ih.succ

/-- A rule that has read a phrase leaves less than it was given. -/
theorem Reads.length_lt (r : Rule) (lexemes : List Lexeme) (parsed : Parsed)
    (h : Reads r [] lexemes parsed) (tree : Expr Decimal) (rest : List Lexeme)
    (hok : parsed = .ok (tree, rest)) : rest.length < lexemes.length := by
  rcases h tree rest hok with ⟨ts, htokens, hphrase, -⟩
  have hlength := congrArg List.length htokens
  have hpositive : 0 < ts.length := List.length_pos_iff.mpr hphrase.ne_nil
  simp only [tokens, List.length_append, List.length_map] at hlength
  omega

end Metrology.Grammar
