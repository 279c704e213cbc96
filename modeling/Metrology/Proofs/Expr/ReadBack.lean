import Metrology.Proofs.Expr.Cut
import Metrology.Proofs.Expr.Descent

/-!
# Canonical texts are read back

The canonical text of a tree goes through four layers when it is read: subscripts are
flattened, the characters are cut into lexemes, and the rules take up the lexemes. The
text of a tree is cut into the tokens of an atom, since every operation stands in
parentheses of its own, and an atom can stand wherever a formula can. So the four layers
put the tree together again.

The names have to be such as the scan cuts off. A function may not end in an underscore,
or flattening would take its argument for a subscript. And the literals have to be finite
and without a sign: the text of infinity is a word, and the ones of negative numbers and
of the negative zero hold a minus sign, which is read as an operation.

## Main definitions

* `Expr.AllFunctions`: What holds of all functions that a tree calls.
* `Expr.IsReadable`: A tree whose text is read back.

## Theorems

* `Grammar.Phrase.operation`: An operation between atoms is a sum.
* `Expr.flattenChars_canonical`: Flattening leaves a canonical text.
* `Expr.exists_source`: The decimal tree that a canonical text is cut into.
* `Expr.read_canonical`: A canonical text is read back.
-/

namespace Metrology

namespace Grammar

namespace Phrase

variable {us vs : List Token} {t u : Expr Decimal}

theorem signed_of_atom (h : Phrase .atom us t) : Phrase .signed us t :=
  .unsigned us t (.base us t h)

theorem product_of_atom (h : Phrase .atom us t) : Phrase .product us t :=
  .factor us t h.signed_of_atom

theorem sum_of_atom (h : Phrase .atom us t) : Phrase .sum us t := .term us t h.product_of_atom

/-- An operation between atoms is a sum. -/
theorem operation (op : BinaryOp) (ht : Phrase .atom us t) (hu : Phrase .atom vs u) :
    Phrase .sum (us ++ .operator op :: vs) (.binary op t u) := by
  cases op with
  | add => exact .plus us vs t u ht.sum_of_atom hu.product_of_atom
  | sub => exact .minus us vs t u ht.sum_of_atom hu.product_of_atom
  | mul => exact .term _ _ (.times us vs t u ht.product_of_atom hu.signed_of_atom)
  | div => exact .term _ _ (.dividedBy us vs t u ht.product_of_atom hu.signed_of_atom)
  | pow =>
      exact .term _ _ (.factor _ _ (.unsigned _ _ (.raised us vs t u ht hu.signed_of_atom)))

/-- A minus sign in front of an atom is a sum. -/
theorem negation (h : Phrase .atom us t) : Phrase .sum (.operator .sub :: us) (.negate t) :=
  .term _ _ (.factor _ _ (.negative us t h.signed_of_atom))

end Phrase

end Grammar

namespace Expr

open Grammar (Phrase)
open Lexeme (CutInto)

/-- What holds of all functions that a tree calls. -/
def AllFunctions {α : Type} (p : String → Prop) : Expr α → Prop
  | number _ => True
  | symbol _ => True
  | binary _ left right => left.AllFunctions p ∧ right.AllFunctions p
  | negate operand => operand.AllFunctions p
  | call function argument => p function ∧ argument.AllFunctions p

/-- A tree whose canonical text is read back. -/
structure IsReadable (tree : Expr Float) : Prop where
  names : tree.AllNames Token.IsWord
  functions : tree.AllFunctions fun function => function.toList.getLast? ≠ some '_'
  literals : tree.AllLiterals Double.IsUnsigned

namespace IsReadable

theorem left {op : BinaryOp} {left right : Expr Float} (h : IsReadable (binary op left right)) :
    left.IsReadable := ⟨h.names.1, h.functions.1, h.literals.1⟩

theorem right {op : BinaryOp} {left right : Expr Float} (h : IsReadable (binary op left right)) :
    right.IsReadable := ⟨h.names.2, h.functions.2, h.literals.2⟩

theorem operand {operand : Expr Float} (h : IsReadable (negate operand)) : operand.IsReadable :=
  ⟨h.names, h.functions, h.literals⟩

theorem argument {function : String} {argument : Expr Float}
    (h : IsReadable (call function argument)) : argument.IsReadable :=
  ⟨h.names.2, h.functions.2, h.literals⟩

end IsReadable

theorem canonical_binary_append (op : BinaryOp) (left right : Expr Float) (rest : List Char) :
    (binary op left right).canonical.toList ++ rest = '(' :: (left.canonical.toList ++
      ' ' :: op.sign :: ' ' :: (right.canonical.toList ++ ')' :: rest)) := by
  rw [toList_canonical, lead, List.nil_append, body_binary_append]

theorem canonical_negate_append (operand : Expr Float) (rest : List Char) :
    (negate operand).canonical.toList ++ rest =
      '(' :: '-' :: ' ' :: (operand.canonical.toList ++ ')' :: rest) := by
  rw [toList_canonical, lead, List.nil_append, body_negate_append]

theorem canonical_call_append (function : String) (argument : Expr Float) (rest : List Char) :
    (call function argument).canonical.toList ++ rest =
      function.toList ++ '(' :: (argument.canonical.toList ++ ')' :: rest) := by
  rw [toList_canonical, lead, List.append_assoc, body_call_append]

/-- No subscript begins in a name or a number that stands in front of an end of a tree. -/
theorem flattenChars_ended (cs rest : List Char) (hopening : '(' ∉ cs) (hrest : EndsTree rest) :
    Subscript.flattenChars false (cs ++ rest) = cs ++ Subscript.flattenChars false rest := by
  refine Subscript.flattenChars_run cs rest hopening fun _ hhead => ?_
  rcases hrest '(' hhead with h | h <;> cases h

/-- Flattening leaves a canonical text, since no subscript begins in it. -/
theorem flattenChars_canonical (tree : Expr Float) (h : tree.IsReadable) : ∀ rest, EndsTree rest →
    Subscript.flattenChars false (tree.canonical.toList ++ rest) =
      tree.canonical.toList ++ Subscript.flattenChars false rest := by
  have hword : ∀ name, Token.IsWord name → '(' ∉ name.toList := fun name hname =>
    Token.not_mem_of_isWord name hname _ (Token.not_continuesWord _ (by decide))
  have hplain : ∀ c rest, c ≠ '_' → Subscript.flattenChars false (c :: rest) =
      c :: Subscript.flattenChars false rest := fun c rest hc =>
    Subscript.flattenChars_cons c rest fun heq => absurd heq hc
  induction tree with
  | number x =>
      intro rest hrest
      rcases Double.literalText_of_isUnsigned x h.literals with ⟨shape, hchars, -⟩
      rw [canonical, hchars]
      exact flattenChars_ended _ _ (shape.not_mem_chars _ (by decide) (by decide)) hrest
  | symbol name =>
      intro rest hrest
      exact flattenChars_ended _ _ (hword name h.names) hrest
  | binary op left right ihLeft ihRight =>
      intro rest hrest
      have hsign : op.sign ≠ '_' := by cases op <;> decide
      rw [canonical_binary_append, hplain _ _ (by decide), ihLeft h.left _ (endsTree_blank _),
        hplain _ _ (by decide), hplain _ _ hsign, hplain _ _ (by decide),
        ihRight h.right _ (endsTree_closing _), hplain _ _ (by decide), canonical_binary_append]
  | negate operand ih =>
      intro rest hrest
      rw [canonical_negate_append, hplain _ _ (by decide), hplain _ _ (by decide),
        hplain _ _ (by decide), ih h.operand _ (endsTree_closing _), hplain _ _ (by decide),
        canonical_negate_append]
  | call function argument ih =>
      intro rest hrest
      -- Here a parenthesis opens behind a name, which ends in no underscore.
      rw [canonical_call_append, Subscript.flattenChars_run _ _ (hword function h.names.1)
        (fun hlast => absurd hlast h.functions.1), hplain _ _ (by decide),
        ih h.argument _ (endsTree_closing _), hplain _ _ (by decide), canonical_call_append]

/-- The decimal tree that a canonical text is cut into. -/
theorem exists_source (tree : Expr Float) (h : tree.IsReadable) :
    ∃ source ts, ofDecimals source = tree ∧ Phrase .atom ts source ∧
      ∀ rest us, EndsTree rest → CutInto rest us →
        CutInto (tree.canonical.toList ++ rest) (ts ++ us) := by
  have hends : ∀ rest, EndsTree rest → ∀ c, rest.head? = some c → ends c = true := by
    intro rest hrest c hc
    rcases hrest c hc with rfl | rfl <;> rfl
  induction tree with
  | number x =>
      rcases Double.literalText_of_isUnsigned x h.literals with ⟨shape, hchars, hback⟩
      refine ⟨.number shape.denotes, [.number shape.denotes], ?_, .number _, ?_⟩
      · exact congrArg number hback
      · intro rest us hrest hcut
        rw [canonical, hchars]
        refine CutInto.numeral rest us hcut shape fun c hc => ?_
        rcases hrest c hc with rfl | rfl <;> decide
  | symbol name =>
      refine ⟨.symbol name, [.word name], rfl, .symbol name, ?_⟩
      intro rest us hrest hcut
      exact CutInto.word rest us hcut name h.names fun c hc =>
        continuesWord_of_ends c (hends rest hrest c hc)
  | binary op left right ihLeft ihRight =>
      rcases ihLeft h.left with ⟨t, ts, ht, hphrase, hleft⟩
      rcases ihRight h.right with ⟨u, vs, hu, hphrase', hright⟩
      refine ⟨.binary op t u, .opening :: (ts ++ .operator op :: vs ++ [.closing]), ?_,
        .group _ _ (hphrase.operation op hphrase'), ?_⟩
      · rw [← ht, ← hu]
        rfl
      · intro rest us hrest hcut
        have hsign : Text.isBlank op.sign = false ∧
            Token.ofSign? op.sign = some (.operator op) := by cases op <;> decide
        -- From the end of the text to its start.
        have hclosed : CutInto (')' :: rest) (.closing :: us) := hcut.sign _ _ ')' _ rfl rfl
        have hbehind := (hright _ _ (endsTree_closing rest) hclosed).blank
        have hjoined := (hbehind.sign _ _ op.sign _ hsign.1 hsign.2).blank
        have hinside := hleft _ _ (endsTree_blank _) hjoined
        have hwhole := hinside.sign _ _ '(' _ rfl rfl
        simpa only [canonical_binary_append, List.cons_append, List.append_assoc,
          List.nil_append] using hwhole
  | negate operand ih =>
      rcases ih h.operand with ⟨t, ts, ht, hphrase, hoperand⟩
      refine ⟨.negate t, .opening :: (.operator .sub :: ts ++ [.closing]), ?_,
        .group _ _ hphrase.negation, ?_⟩
      · rw [← ht]
        rfl
      · intro rest us hrest hcut
        have hclosed : CutInto (')' :: rest) (.closing :: us) := hcut.sign _ _ ')' _ rfl rfl
        have hinside := (hoperand _ _ (endsTree_closing rest) hclosed).blank
        have hwhole := (hinside.sign _ _ '-' (.operator .sub) rfl rfl).sign _ _ '(' _ rfl rfl
        simpa only [canonical_negate_append, List.cons_append, List.append_assoc,
          List.nil_append] using hwhole
  | call function argument ih =>
      rcases ih h.argument with ⟨t, ts, ht, hphrase, hargument⟩
      refine ⟨.call function t, .word function :: .opening :: (ts ++ [.closing]), ?_,
        .call function ts t hphrase.sum_of_atom, ?_⟩
      · rw [← ht]
        rfl
      · intro rest us hrest hcut
        have hclosed : CutInto (')' :: rest) (.closing :: us) := hcut.sign _ _ ')' _ rfl rfl
        have hinside := (hargument _ _ (endsTree_closing rest) hclosed).sign _ _ '(' _ rfl rfl
        have hwhole := hinside.word _ _ function h.names.1 fun c hc => by
          rw [← Option.some.inj hc]
          exact Token.not_continuesWord _ (by decide)
        simpa only [canonical_call_append, List.cons_append, List.append_assoc,
          List.nil_append] using hwhole

/-- A canonical text is read as its tree. -/
theorem exists_read_canonical (tree : Expr Float) (h : tree.IsReadable) :
    ∃ source, read tree.canonical = .ok source ∧ ofDecimals source = tree := by
  rcases exists_source tree h with ⟨source, ts, hsource, hphrase, hcut⟩
  have hnil : EndsTree [] := by
    intro c hc
    cases hc
  have hflat : (Subscript.flatten tree.canonical).toList = tree.canonical.toList := by
    have hflatten := flattenChars_canonical tree h [] hnil
    rw [List.append_nil, Subscript.flattenChars, List.append_nil] at hflatten
    rw [Subscript.flatten, hflatten, String.toList_ofList]
  rcases hcut [] [] hnil CutInto.nil 0 with ⟨lexemes, hscan, htokens⟩
  rw [List.append_nil] at hscan htokens
  refine ⟨source, ?_, hsource⟩
  rw [read, hflat, Lexeme.ofChars, hscan]
  exact Grammar.formula_of_phrase _ lexemes source (htokens ▸ hphrase.sum_of_atom)

/-- The canonical text of a tree is read as the tree. So no other tree has the text, and
    what is read has it again. -/
theorem read_canonical (tree : Expr Float) (h : tree.IsReadable) :
    (read tree.canonical).map ofDecimals = .ok tree ∧
      (∀ other : Expr Float, other.IsReadable → other.canonical = tree.canonical → other = tree) ∧
      (read tree.canonical).map (fun source => (ofDecimals source : Expr Float).canonical) =
        .ok tree.canonical := by
  rcases exists_read_canonical tree h with ⟨source, hread, hsource⟩
  refine ⟨?_, ?_, ?_⟩
  · rw [hread, Except.map, hsource]
  · intro other hother htext
    rcases exists_read_canonical other hother with ⟨source', hread', hsource'⟩
    rw [htext, hread] at hread'
    rw [← hsource, ← hsource', Except.ok.inj hread']
  · rw [hread, Except.map, hsource]

/-- The logarithm of a difference, with a subscript and a literal. -/
theorem read_canonical_logarithm :
    (call "ln" (binary .sub (negate (symbol "x_1")) (number 2.5))).IsReadable ∧
      (read (call "ln" (binary .sub (negate (symbol "x_1")) (number (2.5 : Float)))).canonical).map
        ofDecimals = .ok (call "ln" (binary .sub (negate (symbol "x_1")) (number 2.5))) := by
  have hreadable :
      (call "ln" (binary .sub (negate (symbol "x_1")) (number 2.5))).IsReadable := by
    refine ⟨⟨⟨'l', ['n'], rfl, ?_, ?_⟩, ⟨'x', ['_', '1'], rfl, ?_, ?_⟩, trivial⟩,
      ⟨by decide, trivial, trivial⟩, trivial, ⟨5629499534213120, -51, by decide +kernel⟩⟩
    · decide +kernel
    · exact List.all_eq_true.mp (by decide +kernel : ['n'].all Token.continuesWord = true)
    · decide +kernel
    · exact List.all_eq_true.mp (by decide +kernel : ['_', '1'].all Token.continuesWord = true)
  exact ⟨hreadable, (read_canonical _ hreadable).1⟩

end Expr

end Metrology
