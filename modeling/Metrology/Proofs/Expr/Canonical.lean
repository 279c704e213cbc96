import Metrology.Proofs.Expr.Words
import Metrology.Proofs.Scalar.Literal

/-!
# What the canonical text of a formula tells

The canonical text is read from the left. Numbers and names hold no blank and no
parenthesis, so each ends where the next of them stands. A parenthesis behind a name
opens the argument of a call. Any other one opens an operation, which is a sign if
a minus is next, since no formula begins with a minus. In front of the end of a text, a
blank or a closing parenthesis, a tree can so be told from all others.

The one exception is a literal beyond the largest double. It becomes infinity, and the
text of infinity is `inf`, a word that may be the name of a symbol. Two formulas have
one canonical text exactly if they agree up to that.

## Main definitions

* `Token.besideWords`: Characters that are in no name.
* `Expr.AllLiterals`: What holds of all literals in a tree.
* `Expr.IsFormula`: A tree with the names and literals that a formula can have.
* `Expr.named`: A tree with the symbol `inf` in place of infinity.

## Theorems

* `Expr.isFormula_read`: Formulas that are read are such trees.
* `Expr.named_eq_of_chars`: What stands in front of an end is told by its text.
* `Expr.canonical_eq_iff`: The canonical text tells a formula up to infinity.
-/

namespace Metrology

open Double (IsLiteral)

/-- A letter or an underscore may also stand inside of a name. -/
theorem Token.continuesWord_of_startsWord (c : Char) (h : startsWord c = true) :
    continuesWord c = true := by
  rw [startsWord, Bool.or_eq_true] at h
  rw [continuesWord, Text.isAlphanumeric, Bool.or_eq_true, Bool.or_eq_true]
  exact h.imp_left .inl

/-- No letter is a digit. -/
theorem Token.startsWord_of_isDigit (c : Char) (h : c.isDigit = true) : startsWord c = false := by
  have hbounds : c.toNat ≤ 57 := by
    simp only [Char.isDigit, Bool.and_eq_true, decide_eq_true_eq] at h
    exact h.2
  have hranges : ∀ range ∈ Text.letterRanges, 57 < range.1 := by decide +kernel
  have hletter : Text.isLetter c = false := by
    rw [Text.isLetter, Text.inRanges, List.any_eq_false]
    intro range hmem
    have hrange := hranges range hmem
    simp only [Bool.and_eq_true, decide_eq_true_eq, not_and]
    omega
  have hunderscore : c ≠ '_' := by
    rintro rfl
    cases h
  rw [startsWord, hletter, Bool.false_or, decide_eq_false hunderscore]

/-- A name holds no other characters. -/
theorem Token.not_mem_of_isWord (name : String) (h : IsWord name) (c : Char)
    (hc : continuesWord c = false) : c ∉ name.toList := by
  rcases h with ⟨first, rest, hname, hfirst, hrest⟩
  intro hmem
  have hcontinues : continuesWord c = true := by
    rw [hname, List.mem_cons] at hmem
    rcases hmem with rfl | hmem
    · exact continuesWord_of_startsWord c hfirst
    · exact hrest c hmem
  exact Bool.false_ne_true (hc.symm.trans hcontinues)

/-- Signs, brackets, blanks, the point and the null character: none of them is in a name. -/
def Token.besideWords : List Char :=
  ['+', '-', '−', '*', '·', '×', '/', '^', '(', ')', ' ', '.', '\x00']

theorem Token.not_continuesWord (c : Char) (hc : c ∈ besideWords) : continuesWord c = false := by
  have hall : (besideWords.all fun c => !continuesWord c) = true := by decide +kernel
  simpa only [Bool.not_eq_true'] using List.all_eq_true.mp hall c hc

theorem Token.not_startsWord (c : Char) (hc : c ∈ besideWords) : startsWord c = false := by
  rw [← Bool.not_eq_true]
  intro hstarts
  exact Bool.false_ne_true
    ((not_continuesWord c hc).symm.trans (continuesWord_of_startsWord c hstarts))

/-- The text of infinity is a name. -/
theorem Token.isWord_inf : IsWord "inf" :=
  ⟨'i', ['n', 'f'], rfl, by decide,
    List.all_eq_true.mp (by decide : ['n', 'f'].all continuesWord = true)⟩

namespace Expr

/-- What holds of all literals in a tree. -/
def AllLiterals {α : Type} (p : α → Prop) : Expr α → Prop
  | number value => p value
  | symbol _ => True
  | binary _ left right => left.AllLiterals p ∧ right.AllLiterals p
  | negate operand => operand.AllLiterals p
  | call _ argument => argument.AllLiterals p

/-- A tree with the names and literals that a formula can have. -/
structure IsFormula (tree : Expr Float) : Prop where
  names : tree.AllNames Token.IsWord
  literals : tree.AllLiterals IsLiteral

theorem allLiterals_ofDecimals (tree : Expr Decimal) :
    (ofDecimals tree : Expr Float).AllLiterals IsLiteral := by
  induction tree with
  | number value => exact Double.isLiteral_toFloat value
  | symbol name => trivial
  | binary op left right ihLeft ihRight => exact ⟨ihLeft, ihRight⟩
  | negate operand ih => exact ih
  | call function argument ih => exact ih

namespace IsFormula

theorem left {op : BinaryOp} {left right : Expr Float} (h : IsFormula (binary op left right)) :
    left.IsFormula := ⟨h.names.1, h.literals.1⟩

theorem right {op : BinaryOp} {left right : Expr Float} (h : IsFormula (binary op left right)) :
    right.IsFormula := ⟨h.names.2, h.literals.2⟩

theorem operand {operand : Expr Float} (h : IsFormula (negate operand)) : operand.IsFormula :=
  ⟨h.names, h.literals⟩

theorem argument {function : String} {argument : Expr Float} (h : IsFormula (call function argument)) :
    argument.IsFormula := ⟨h.names.2, h.literals⟩

end IsFormula

/-- Formulas that are read are such trees. -/
theorem isFormula_read (text : String) (tree : Expr Decimal) (h : Expr.read text = .ok tree) :
    (ofDecimals tree : Expr Float).IsFormula :=
  ⟨allNames_map _ _ tree (allNames_read text tree h), allLiterals_ofDecimals tree⟩

/-- The tree with the symbol `inf` in place of infinity, whose text is the same. -/
def named : Expr Float → Expr Float
  | number x => if Binary64.ofFloat x = .infinite false then symbol "inf" else number x
  | symbol name => symbol name
  | binary op left right => binary op left.named right.named
  | negate operand => negate operand.named
  | call function argument => call function argument.named

theorem named_eq_self (tree : Expr Float)
    (h : tree.AllLiterals fun x => Binary64.ofFloat x ≠ .infinite false) : tree.named = tree := by
  induction tree with
  | number x => rw [named, if_neg h]
  | symbol name => rfl
  | binary op left right ihLeft ihRight => rw [named, ihLeft h.1, ihRight h.2]
  | negate operand ih => rw [named, ih h]
  | call function argument ih => rw [named, ih h]

theorem canonical_named (tree : Expr Float) (h : tree.AllLiterals IsLiteral) :
    tree.named.canonical = tree.canonical := by
  induction tree with
  | number x =>
      rcases Double.literalText_cases x h with ⟨hinfinite, htext⟩ | ⟨hfinite, -⟩
      · rw [named, if_pos hinfinite, canonical, canonical, htext]
      · rw [named, if_neg hfinite]
  | symbol name => rfl
  | binary op left right ihLeft ihRight =>
      rw [named, canonical, canonical, ihLeft h.1, ihRight h.2]
  | negate operand ih => rw [named, canonical, canonical, ih h]
  | call function argument ih => rw [named, canonical, canonical, ih h]

section Reading

/-- The characters that end a number or a name. -/
def ends (c : Char) : Bool := c = ' ' || c = '(' || c = ')'

/-- What may stand behind a tree: nothing, a blank or a closing parenthesis. -/
def EndsTree (rest : List Char) : Prop := ∀ c, rest.head? = some c → c = ' ' ∨ c = ')'

/-- The number or name with which the text of a tree begins. -/
def lead : Expr Float → List Char
  | number x => (literalText x).toList
  | symbol name => name.toList
  | binary _ _ _ => []
  | negate _ => []
  | call function _ => function.toList

/-- The text of a tree behind its first number or name. -/
def body : Expr Float → List Char
  | number _ => []
  | symbol _ => []
  | binary op left right =>
    '(' :: (left.canonical.toList ++ ' ' :: op.sign :: ' ' :: (right.canonical.toList ++ [')']))
  | negate operand => '(' :: '-' :: ' ' :: (operand.canonical.toList ++ [')'])
  | call _ argument => '(' :: (argument.canonical.toList ++ [')'])

theorem body_binary_append (op : BinaryOp) (left right : Expr Float) (rest : List Char) :
    (binary op left right).body ++ rest = '(' :: (left.canonical.toList ++
      ' ' :: op.sign :: ' ' :: (right.canonical.toList ++ ')' :: rest)) := by
  simp [body]

theorem body_negate_append (operand : Expr Float) (rest : List Char) :
    (negate operand).body ++ rest =
      '(' :: '-' :: ' ' :: (operand.canonical.toList ++ ')' :: rest) := by
  simp [body]

theorem body_call_append (function : String) (argument : Expr Float) (rest : List Char) :
    (call function argument).body ++ rest = '(' :: (argument.canonical.toList ++ ')' :: rest) := by
  simp [body]

theorem toList_canonical (tree : Expr Float) : tree.canonical.toList = tree.lead ++ tree.body := by
  cases tree <;> simp [canonical, lead, body]

theorem ends_cases (c : Char) (h : ends c = true) : c = ' ' ∨ c = '(' ∨ c = ')' := by
  rw [ends, Bool.or_eq_true, Bool.or_eq_true, decide_eq_true_eq, decide_eq_true_eq,
    decide_eq_true_eq, or_assoc] at h
  exact h

theorem continuesWord_of_ends (c : Char) (h : ends c = true) : Token.continuesWord c = false := by
  rcases ends_cases c h with rfl | rfl | rfl <;> exact Token.not_continuesWord _ (by decide)

theorem not_ends_of_mem_word (name : String) (h : Token.IsWord name) (c : Char)
    (hc : c ∈ name.toList) : ends c = false := by
  rw [← Bool.not_eq_true]
  exact fun hends => Token.not_mem_of_isWord name h c (continuesWord_of_ends c hends) hc

/-- The first number or name holds no end of it. -/
theorem not_ends_of_mem_lead (tree : Expr Float) (h : tree.IsFormula) (c : Char)
    (hc : c ∈ tree.lead) : ends c = false := by
  cases tree with
  | number x =>
      rcases Double.literalText_cases x h.literals with ⟨-, htext⟩ | ⟨-, shape, hchars, -⟩
      · rw [lead, htext] at hc
        exact not_ends_of_mem_word "inf" Token.isWord_inf c hc
      · rw [lead, hchars] at hc
        rw [← Bool.not_eq_true]
        intro hends
        rcases ends_cases c hends with rfl | rfl | rfl
        · exact shape.not_mem_chars ' ' (by decide) (by decide) hc
        · exact shape.not_mem_chars '(' (by decide) (by decide) hc
        · exact shape.not_mem_chars ')' (by decide) (by decide) hc
  | symbol name => exact not_ends_of_mem_word name h.names c hc
  | binary op left right => cases hc
  | negate operand => cases hc
  | call function argument => exact not_ends_of_mem_word function h.names.1 c hc

theorem head_body (tree : Expr Float) (c : Char) (h : tree.body.head? = some c) : c = '(' := by
  cases tree with
  | number x => cases h
  | symbol name => cases h
  | binary op left right => exact (Option.some.inj h).symm
  | negate operand => exact (Option.some.inj h).symm
  | call function argument => exact (Option.some.inj h).symm

/-- Two trees with one text in front of an end begin with one number or name. -/
theorem lead_body_of_chars (tree other : Expr Float) (htree : tree.IsFormula)
    (hother : other.IsFormula) (rest rest' : List Char) (hrest : EndsTree rest)
    (hrest' : EndsTree rest')
    (h : tree.canonical.toList ++ rest = other.canonical.toList ++ rest') :
    tree.lead = other.lead ∧ tree.body ++ rest = other.body ++ rest' := by
  have hends : ∀ (t : Expr Float) (r : List Char), EndsTree r →
      ∀ c, (t.body ++ r).head? = some c → (!ends c) = false := by
    intro t r hr c hc
    rw [ends]
    rw [List.head?_append] at hc
    cases hbody : t.body.head? with
    | none =>
        rw [hbody, Option.none_or] at hc
        rcases hr c hc with rfl | rfl <;> rfl
    | some first =>
        rw [hbody, Option.some_or] at hc
        rw [← Option.some.inj hc, head_body t first hbody]
        rfl
  have hinside : ∀ t : Expr Float, t.IsFormula → ∀ c ∈ t.lead, (!ends c) = true :=
    fun t ht c hc => by rw [not_ends_of_mem_lead t ht c hc, Bool.not_false]
  rw [toList_canonical, toList_canonical, List.append_assoc, List.append_assoc] at h
  exact Text.eq_of_runs (fun c => !ends c) _ _ (hinside tree htree) (hends tree rest hrest) _ _
    (hinside other hother) (hends other rest' hrest') h

/-- No name is a numeral. -/
theorem chars_ne_of_isWord (shape : Numeral.Shape) (name : String) (h : Token.IsWord name) :
    shape.chars ≠ name.toList := by
  rcases shape.head_chars with ⟨c, rest, hchars, hdigit⟩
  rcases h with ⟨c', rest', hname, hstarts, -⟩
  intro heq
  rw [hchars, hname, List.cons_eq_cons] at heq
  rw [← heq.1, Token.startsWord_of_isDigit c hdigit] at hstarts
  cases hstarts

/-- The text of a literal tells it, but for infinity. -/
theorem named_number_of_literalText (x y : Float) (hx : IsLiteral x) (hy : IsLiteral y)
    (h : literalText x = literalText y) : (number x).named = (number y).named := by
  rcases Double.literalText_cases x hx with ⟨hinfinite, htext⟩ | ⟨hfinite, shape, hchars, hback⟩
  · rcases Double.literalText_cases y hy with ⟨hinfinite', -⟩ | ⟨-, shape', hchars', -⟩
    · rw [named, named, if_pos hinfinite, if_pos hinfinite']
    · rw [← h, htext] at hchars'
      exact absurd hchars'.symm (chars_ne_of_isWord shape' "inf" Token.isWord_inf)
  · rcases Double.literalText_cases y hy with ⟨-, htext'⟩ | ⟨-, shape', hchars', hback'⟩
    · rw [h, htext'] at hchars
      exact absurd hchars.symm (chars_ne_of_isWord shape "inf" Token.isWord_inf)
    · have hshape : some shape.denotes = some shape'.denotes := by
        rw [← shape.unsigned?_chars, ← shape'.unsigned?_chars, ← hchars, ← hchars', h]
      rw [hback, hback', Option.some.inj hshape]

/-- Only infinity is written as a name. -/
theorem named_number_of_word (x : Float) (name : String) (hx : IsLiteral x)
    (hname : Token.IsWord name) (h : literalText x = name) :
    (number x).named = (symbol name).named := by
  rcases Double.literalText_cases x hx with ⟨hinfinite, htext⟩ | ⟨-, shape, hchars, -⟩
  · rw [named, if_pos hinfinite, named, ← h, htext]
  · rw [h] at hchars
    exact absurd hchars.symm (chars_ne_of_isWord shape name hname)

/-- A text begins with no minus sign. -/
theorem minus_ne_canonical (tree : Expr Float) (h : tree.IsFormula) (rest rest' : List Char) :
    '-' :: rest ≠ tree.canonical.toList ++ rest' := by
  have hword : ∀ name, Token.IsWord name → ∀ behind, '-' :: rest ≠ name.toList ++ behind := by
    rintro name ⟨c, others, hname, hstarts, -⟩ behind heq
    rw [hname, List.cons_append, List.cons_eq_cons] at heq
    rw [← heq.1, Token.not_startsWord '-' (by decide)] at hstarts
    cases hstarts
  rw [toList_canonical, List.append_assoc]
  cases tree with
  | number x =>
      rcases Double.literalText_cases x h.literals with ⟨-, htext⟩ | ⟨-, shape, hchars, -⟩
      · rw [lead, htext]
        exact fun heq => absurd (List.cons_eq_cons.mp heq).1 (by decide)
      · rcases shape.head_chars with ⟨c, others, hhead, hdigit⟩
        rw [lead, hchars, hhead]
        intro heq
        rw [← (List.cons_eq_cons.mp heq).1] at hdigit
        cases hdigit
  | symbol name => exact hword name h.names _
  | binary op left right => exact fun heq => absurd (List.cons_eq_cons.mp heq).1 (by decide)
  | negate operand => exact fun heq => absurd (List.cons_eq_cons.mp heq).1 (by decide)
  | call function argument => exact hword function h.names.1 _

theorem toList_ne_nil (name : String) (h : Token.IsWord name) : name.toList ≠ [] := by
  rcases h with ⟨c, rest, hname, -⟩
  rw [hname]
  exact List.cons_ne_nil _ _

theorem sign_injective (op op' : BinaryOp) (h : op.sign = op'.sign) : op = op' := by
  revert h
  cases op <;> cases op' <;> decide

theorem endsTree_closing (rest : List Char) : EndsTree (')' :: rest) := by
  intro c hc
  exact .inr (Option.some.inj hc).symm

theorem endsTree_blank (rest : List Char) : EndsTree (' ' :: rest) := by
  intro c hc
  exact .inl (Option.some.inj hc).symm

theorem ne_opening_of_endsTree (rest opened : List Char) (h : EndsTree rest) :
    rest ≠ '(' :: opened := by
  intro heq
  rcases h '(' (by rw [heq]; rfl) with hc | hc <;> cases hc

/-- A tree in front of an end is told by its text. -/
theorem named_eq_of_chars (tree : Expr Float) : ∀ (other : Expr Float) (rest rest' : List Char),
    tree.IsFormula → other.IsFormula → EndsTree rest → EndsTree rest' →
      tree.canonical.toList ++ rest = other.canonical.toList ++ rest' →
        tree.named = other.named ∧ rest = rest' := by
  -- What follows is kept general: the operands of an operation stand in front of more text.
  induction tree with
  | number x =>
      intro other rest rest' htree hother hrest hrest' h
      rcases lead_body_of_chars _ other htree hother rest rest' hrest hrest' h with ⟨hlead, hbody⟩
      cases other with
      | number y =>
          exact ⟨named_number_of_literalText x y htree.literals hother.literals
            (String.toList_inj.mp hlead), hbody⟩
      | symbol name =>
          exact ⟨named_number_of_word x name htree.literals hother.names
            (String.toList_inj.mp hlead), hbody⟩
      -- Nothing that stands behind a tree begins with a parenthesis that opens.
      | binary op left right => exact absurd hbody (ne_opening_of_endsTree _ _ hrest)
      | negate operand => exact absurd hbody (ne_opening_of_endsTree _ _ hrest)
      | call function argument => exact absurd hbody (ne_opening_of_endsTree _ _ hrest)
  | symbol name =>
      intro other rest rest' htree hother hrest hrest' h
      rcases lead_body_of_chars _ other htree hother rest rest' hrest hrest' h with ⟨hlead, hbody⟩
      cases other with
      | number y =>
          exact ⟨(named_number_of_word y name hother.literals htree.names
            (String.toList_inj.mp hlead).symm).symm, hbody⟩
      | symbol name' => exact ⟨by rw [String.toList_inj.mp hlead], hbody⟩
      | binary op left right => exact absurd hbody (ne_opening_of_endsTree _ _ hrest)
      | negate operand => exact absurd hbody (ne_opening_of_endsTree _ _ hrest)
      | call function argument => exact absurd hbody (ne_opening_of_endsTree _ _ hrest)
  | binary op left right ihLeft ihRight =>
      intro other rest rest' htree hother hrest hrest' h
      rcases lead_body_of_chars _ other htree hother rest rest' hrest hrest' h with ⟨hlead, hbody⟩
      cases other with
      | number y => exact absurd hbody.symm (ne_opening_of_endsTree _ _ hrest')
      | symbol name => exact absurd hbody.symm (ne_opening_of_endsTree _ _ hrest')
      | binary op' left' right' =>
          rw [body_binary_append, body_binary_append] at hbody
          rcases ihLeft left' _ _ htree.left hother.left (endsTree_blank _) (endsTree_blank _)
            (List.cons.inj hbody).2 with ⟨hleft, hbehind⟩
          rcases List.cons.inj (List.cons.inj hbehind).2 with ⟨hsign, hoperand⟩
          rcases ihRight right' _ _ htree.right hother.right (endsTree_closing _)
            (endsTree_closing _) (List.cons.inj hoperand).2 with ⟨hright, hend⟩
          rw [named, named, hleft, hright, sign_injective op op' hsign]
          exact ⟨rfl, (List.cons.inj hend).2⟩
      | negate operand =>
          -- The left operand would have to begin with the minus sign.
          rw [body_binary_append, body_negate_append] at hbody
          exact absurd (List.cons.inj hbody).2.symm (minus_ne_canonical left htree.left _ _)
      | call function argument => exact absurd hlead.symm (toList_ne_nil function hother.names.1)
  | negate operand ih =>
      intro other rest rest' htree hother hrest hrest' h
      rcases lead_body_of_chars _ other htree hother rest rest' hrest hrest' h with ⟨hlead, hbody⟩
      cases other with
      | number y => exact absurd hbody.symm (ne_opening_of_endsTree _ _ hrest')
      | symbol name => exact absurd hbody.symm (ne_opening_of_endsTree _ _ hrest')
      | binary op left right =>
          rw [body_negate_append, body_binary_append] at hbody
          exact absurd (List.cons.inj hbody).2 (minus_ne_canonical left hother.left _ _)
      | negate operand' =>
          rw [body_negate_append, body_negate_append] at hbody
          rcases ih operand' _ _ htree.operand hother.operand (endsTree_closing _)
            (endsTree_closing _) (List.cons.inj (List.cons.inj (List.cons.inj hbody).2).2).2
            with ⟨hoperand, hend⟩
          rw [named, named, hoperand]
          exact ⟨rfl, (List.cons.inj hend).2⟩
      | call function argument => exact absurd hlead.symm (toList_ne_nil function hother.names.1)
  | call function argument ih =>
      intro other rest rest' htree hother hrest hrest' h
      rcases lead_body_of_chars _ other htree hother rest rest' hrest hrest' h with ⟨hlead, hbody⟩
      cases other with
      | number y => exact absurd hbody.symm (ne_opening_of_endsTree _ _ hrest')
      | symbol name => exact absurd hbody.symm (ne_opening_of_endsTree _ _ hrest')
      | binary op left right => exact absurd hlead (toList_ne_nil function htree.names.1)
      | negate operand => exact absurd hlead (toList_ne_nil function htree.names.1)
      | call function' argument' =>
          rw [body_call_append, body_call_append] at hbody
          rcases ih argument' _ _ htree.argument hother.argument (endsTree_closing _)
            (endsTree_closing _) (List.cons.inj hbody).2 with ⟨hargument, hend⟩
          rw [named, named, hargument, String.toList_inj.mp hlead]
          exact ⟨rfl, (List.cons.inj hend).2⟩

end Reading

/-- The canonical text tells a formula, but for infinity and the symbol `inf`. -/
theorem canonical_eq_iff (tree other : Expr Float) (htree : tree.IsFormula)
    (hother : other.IsFormula) : tree.canonical = other.canonical ↔ tree.named = other.named := by
  constructor
  · intro h
    have hnil : EndsTree [] := by
      intro c hc
      cases hc
    exact (named_eq_of_chars tree other [] [] htree hother hnil hnil (by rw [h])).1
  · intro h
    rw [← canonical_named tree htree.literals, ← canonical_named other hother.literals, h]

/-- No canonical text holds a null character. -/
theorem null_not_mem_canonical (tree : Expr Float) (h : tree.IsFormula) :
    '\x00' ∉ tree.canonical.toList := by
  have hword : ∀ name, Token.IsWord name → '\x00' ∉ name.toList := fun name hname =>
    Token.not_mem_of_isWord name hname _ (Token.not_continuesWord _ (by decide))
  induction tree with
  | number x =>
      rw [canonical]
      rcases Double.literalText_cases x h.literals with ⟨-, htext⟩ | ⟨-, shape, hchars, -⟩
      · rw [htext]
        decide
      · rw [hchars]
        exact shape.not_mem_chars _ (by decide) (by decide)
  | symbol name => exact hword name h.names
  | binary op left right ihLeft ihRight =>
      have hsign : op.sign ≠ '\x00' := by cases op <;> decide
      rw [toList_canonical]
      simp [lead, body, ihLeft h.left, ihRight h.right, hsign.symm]
  | negate operand ih =>
      rw [toList_canonical]
      simp [lead, body, ih h.operand]
  | call function argument ih =>
      rw [toList_canonical]
      simp [lead, body, ih h.argument, hword function h.names.1]

end Expr

end Metrology
