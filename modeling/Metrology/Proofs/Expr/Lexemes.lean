import Metrology.Proofs.Decimal.ByteScan
import Metrology.Proofs.Expr.Cut

/-!
# A text and its lexemes

The scan neither loses nor invents anything. A text is laid out by its lexemes, one behind the
other with nothing but blanks between them, and every lexeme takes as much as its kind can take
there. If something is left over at the end that begins no lexeme, this is the error.

There is only one way to lay a text out. A sign, a number and a name begin with different
characters, and none of them begins with a blank, so what stands next in the text decides what
comes next. The scan follows whatever layout there is, and every text has one.

## Main definitions

* `Lexeme.Piece`: Characters that are a token and as much of the text as it can take.
* `Lexeme.Stuck`: Characters that no lexeme begins with, and why.
* `Lexeme.Tiles`: Lexemes that lay out the beginning of a text.
* `Lexeme.StopsAt`: Where the layout of a text comes to an end too early.
* `Lexeme.Placed`: Lexemes that stand in a text where they say.

## Theorems

* `Lexeme.scan_piece`, `Lexeme.scan_tiles`: The scan follows the layout.
* `Lexeme.exists_tiles`: Every text is laid out as far as that goes.
* `Lexeme.Tiles.placed`: Lexemes of a layout stand where they say.
* `Lexeme.ofChars_tiles`: The lexemes, or the error, of a text.
-/

namespace Metrology.Lexeme

open Numeral (IsLiteral IsLongest BeginsLiteral)
open Text (isBlank)

/-- Characters that are a token, and take as much of the text as their kind can: a sign, a
    number that no longer beginning of the text is, or a name that does not go on. -/
inductive Piece : Token → List Char → List Char → Prop
  | sign (c : Char) (token : Token) (behind : List Char) (hsign : Token.ofSign? c = some token) :
      Piece token [c] behind
  | number (source behind : List Char) (value : Decimal)
      (hlongest : IsLongest IsLiteral (source ++ behind) source.length) (hsome : source ≠ [])
      (hvalue : Numeral.unsigned? source = some value) : Piece (.number value) source behind
  | word (c : Char) (others behind : List Char) (hstarts : Token.startsWord c = true)
      (hothers : ∀ d ∈ others, Token.continuesWord d = true)
      (hends : ∀ d, behind.head? = some d → Token.continuesWord d = false) :
      Piece (.word (String.ofList (c :: others))) (c :: others) behind

/-- Characters that no lexeme begins with, and why: the first one can begin no token, or it is a
    point without a digit behind it. -/
inductive Stuck : ParseFailure → List Char → Prop
  | stray (c : Char) (rest : List Char) (hblank : isBlank c = false)
      (hsign : Token.ofSign? c = none) (hnumber : Token.startsNumber c = false)
      (hword : Token.startsWord c = false) : Stuck (.stray c) (c :: rest)
  | literal (rest : List Char) (hdigits : ∀ d, rest.head? = some d → d.isDigit = false) :
      Stuck (.badLiteral (('.' :: rest).take (Token.literalLength ('.' :: rest)))) ('.' :: rest)

/-- Lexemes that lay out what stands in front of the rest of a text, from an offset on. The
    characters between them are blanks. -/
inductive Tiles (rest : List Char) : ℕ → List Char → List Lexeme → Prop
  | nil (offset : ℕ) : Tiles rest offset [] []
  | cons (offset : ℕ) (gap source front : List Char) (token : Token) (lexemes : List Lexeme)
      (hgap : ∀ c ∈ gap, isBlank c = true) (hpiece : Piece token source (front ++ rest))
      (hfront : Tiles rest (offset + byteLength gap + byteLength source) front lexemes) :
      Tiles rest offset (gap ++ source ++ front)
        (⟨token, offset + byteLength gap, source⟩ :: lexemes)

/-- No character of a name is a blank. -/
theorem not_isBlank_of_continuesWord (c : Char) (h : Token.continuesWord c = true) :
    isBlank c = false := by
  rw [Token.continuesWord, Text.isAlphanumeric, Bool.or_eq_true, Bool.or_eq_true,
    decide_eq_true_eq] at h
  rcases h with (hletter | hnumeric) | rfl
  · exact Token.not_isBlank_of_startsWord c (by rw [Token.startsWord, hletter, Bool.true_or])
  · exact Text.inRanges_eq_false Text.numericRanges Text.blankRanges c (by decide +kernel) hnumeric
  · decide

/-- No blank is a sign. -/
theorem ofSign?_of_isBlank (c : Char) (h : isBlank c = true) : Token.ofSign? c = none := by
  have hother : ∀ d : Char, isBlank d = false → c ≠ d := by
    rintro d hd rfl
    exact Bool.false_ne_true (hd.symm.trans h)
  simp [Token.ofSign?, hother '+' (by decide), hother '-' (by decide), hother '−' (by decide),
    hother '*' (by decide), hother '·' (by decide), hother '×' (by decide), hother '/' (by decide),
    hother '^' (by decide), hother '(' (by decide), hother ')' (by decide)]

/-- No sign is a number. -/
theorem ofSign?_ne_number (c : Char) (value : Decimal) :
    Token.ofSign? c ≠ some (.number value) := by
  rw [Token.ofSign?]
  split_ifs <;> simp

theorem not_isBlank_of_ofSign? (c : Char) (token : Token) (h : Token.ofSign? c = some token) :
    isBlank c = false := by
  rw [← Bool.not_eq_true]
  intro hblank
  rw [ofSign?_of_isBlank c hblank] at h
  cases h

/-- A digit or a point is neither a blank nor a sign, and a number can begin with it. -/
theorem of_isDigit_or_point (c : Char) (h : c.isDigit = true ∨ c = '.') :
    isBlank c = false ∧ Token.ofSign? c = none ∧ Token.startsNumber c = true := by
  rcases h with hdigit | rfl
  · have hword := Token.continuesWord_of_isDigit c hdigit
    exact ⟨not_isBlank_of_continuesWord c hword, Token.ofSign?_eq_none c hword, by
      rw [Token.startsNumber, hdigit, Bool.true_or]⟩
  · decide

/-- There is one longest literal at the start of a text. -/
theorem literalLength_eq_of_isLongest (source behind : List Char) (hsome : source ≠ [])
    (h : IsLongest IsLiteral (source ++ behind) source.length) :
    Token.literalLength (source ++ behind) = source.length := by
  have hpositive := List.length_pos_iff.mpr hsome
  have hliteral : IsLiteral source := by
    have hattained := h.attained hpositive.ne'
    rwa [List.take_left] at hattained
  have hprefix := List.prefix_append source behind
  have hscanned := Numeral.isLongest_literalLength _
    (Numeral.beginsLiteral_of_isLiteral _ source hprefix hliteral)
  have hlow := hscanned.bounded source hprefix hliteral
  have hhigh := h.bounded _ (List.take_prefix _ _) (hscanned.attained (by omega))
  rw [List.length_take, Nat.min_eq_left hscanned.inside] at hhigh
  omega

section Pieces

variable (token : Token) (source behind : List Char) (h : Piece token source behind)

include h

theorem Piece.ne_nil : source ≠ [] := by
  cases h with
  | sign => exact List.cons_ne_nil _ _
  | number _ _ _ _ hsome => exact hsome
  | word => exact List.cons_ne_nil _ _

/-- No lexeme holds a blank. -/
theorem Piece.not_isBlank : ∀ c ∈ source, isBlank c = false := by
  cases h with
  | sign c _ _ hsign =>
      intro d hd
      rw [List.mem_singleton.mp hd]
      exact not_isBlank_of_ofSign? c token hsign
  | number _ _ value _ _ hvalue =>
      have hliteral := Numeral.isLiteral_of_unsigned? source value hvalue
      intro c hc
      have hmarks : ∀ d ∈ ['.', 'e', 'E', '+', '-'], isBlank d = false := by
        simp only [List.forall_mem_cons, List.not_mem_nil, false_implies, implies_true, and_true]
        refine ⟨?_, ?_, ?_, ?_, ?_⟩ <;> decide
      rcases Numeral.mem_isSigned source ⟨[], source, Or.inl rfl, hliteral, rfl⟩ c hc with
        hdigit | hmark
      · exact Token.not_isBlank_of_isDigit c hdigit
      · exact hmarks c hmark
  | word c others _ hstarts hothers _ =>
      refine List.forall_mem_cons.mpr ⟨Token.not_isBlank_of_startsWord c hstarts, ?_⟩
      exact fun d hd => not_isBlank_of_continuesWord d (hothers d hd)

/-- What is a lexeme at the start of a text is cut off, and what stands behind it is scanned. -/
theorem scan_piece (offset : ℕ) : scan offset 0 (source ++ behind) =
    (⟨token, offset, source⟩ :: ·) <$> scan (offset + byteLength source) 0 behind := by
  cases h with
  | sign c _ _ hsign =>
      rw [List.singleton_append, scan, not_isBlank_of_ofSign? c token hsign,
        if_neg Bool.false_ne_true, hsign, byteLength_cons]
      exact bind_pure_comp _ (scan (offset + c.utf8Size) 0 behind)
  | number _ _ value hlongest hsome hvalue =>
      have hlength := literalLength_eq_of_isLongest source behind hsome hlongest
      have hliteral := Numeral.isLiteral_of_unsigned? source value hvalue
      rcases Numeral.head_of_isLiteral source hliteral with ⟨c, others, rfl, hc⟩
      rcases of_isDigit_or_point c hc with ⟨hblank, hsign, hstarts⟩
      rw [List.cons_append] at hlength ⊢
      rw [scan, hblank, if_neg Bool.false_ne_true, hsign]
      simp only
      -- The first character is scanned here, the others of the lexeme are stepped over.
      rw [hstarts, if_pos rfl, hlength, ← List.cons_append, List.take_left, hvalue]
      simp only [List.length_cons, Nat.add_sub_cancel, scan_skip, byteLength_cons, Nat.add_assoc]
      exact bind_pure_comp _ _
  | word c others _ hstarts hothers hends =>
      rw [List.cons_append, scan, Token.not_isBlank_of_startsWord c hstarts,
        if_neg Bool.false_ne_true,
        Token.ofSign?_eq_none c (Token.continuesWord_of_startsWord c hstarts)]
      simp only
      rw [Token.not_startsNumber_of_startsWord c hstarts, if_neg Bool.false_ne_true,
        if_pos hstarts, Text.takeWhile_run _ _ _ hothers hends]
      simp only [List.length_cons, Nat.add_sub_cancel, scan_skip, byteLength_cons, Nat.add_assoc]
      exact bind_pure_comp _ _

end Pieces

/-- Blanks are stepped over. -/
theorem scan_gap (gap rest : List Char) (hgap : ∀ c ∈ gap, isBlank c = true) (offset : ℕ) :
    scan offset 0 (gap ++ rest) = scan (offset + byteLength gap) 0 rest := by
  induction gap generalizing offset with
  | nil => rfl
  | cons c others ih =>
      rw [List.cons_append, scan, if_pos (hgap c List.mem_cons_self),
        ih (fun d hd => hgap d (List.mem_cons_of_mem _ hd)), byteLength_cons, Nat.add_assoc]

/-- Where no lexeme begins, the scan fails. -/
theorem scan_stuck (failure : ParseFailure) (rest : List Char) (h : Stuck failure rest)
    (offset : ℕ) : scan offset 0 rest = .error ⟨failure, offset⟩ := by
  cases h with
  | stray c rest hblank hsign hnumber hword =>
      rw [scan, hblank, if_neg Bool.false_ne_true, hsign]
      simp only
      rw [hnumber, if_neg Bool.false_ne_true, hword, if_neg Bool.false_ne_true]
  | literal rest hdigits =>
      -- What is cut off begins with the point, and no digit stands behind it.
      have hnone : Numeral.unsigned? (('.' :: rest).take (Token.literalLength ('.' :: rest))) =
          none := by
        rw [← Option.not_isSome_iff_eq_none, Numeral.unsigned?_isSome_iff]
        intro hliteral
        rcases Numeral.beginsLiteral_of_isLiteral _ _ (List.take_prefix _ _) hliteral with
          ⟨c, behind, heq, hc⟩
        cases heq
        rcases hc with hc | ⟨-, d, hd, hdigit⟩
        · cases hc
        · exact Bool.false_ne_true ((hdigits d hd).symm.trans hdigit)
      rw [scan, if_neg (by decide)]
      simp only [show Token.ofSign? '.' = none by decide]
      rw [if_pos (by decide), hnone]

/-- The scan follows the layout of a text. -/
theorem scan_tiles (rest front : List Char) (offset : ℕ) (lexemes : List Lexeme)
    (h : Tiles rest offset front lexemes) : scan offset 0 (front ++ rest) =
      (lexemes ++ ·) <$> scan (offset + byteLength front) 0 rest := by
  induction h with
  | nil offset => exact (id_map _).symm
  | cons offset gap source front token lexemes hgap hpiece _ ih =>
      rw [List.append_assoc, List.append_assoc, scan_gap gap _ hgap,
        scan_piece token source _ hpiece, ih, byteLength_append, byteLength_append, Functor.map_map,
        Nat.add_assoc, Nat.add_assoc, Nat.add_assoc]
      rfl

/-- What stands behind blanks is nothing, a lexeme, or what no lexeme begins with. -/
theorem piece_or_stuck (c : Char) (rest : List Char) (hblank : isBlank c = false) :
    (∃ token source behind, Piece token source behind ∧ c :: rest = source ++ behind) ∨
      ∃ failure, Stuck failure (c :: rest) := by
  rcases hsign : Token.ofSign? c with _ | token
  · by_cases hnumber : Token.startsNumber c = true
    · by_cases hbegins : BeginsLiteral (c :: rest)
      · -- What begins as a literal goes on as far as the longest one.
        have hlongest := Numeral.isLongest_literalLength _ hbegins
        have hliteral := Numeral.isLiteral_literalLength _ hbegins
        rcases Option.isSome_iff_exists.mp ((Numeral.unsigned?_isSome_iff _).mpr hliteral) with
          ⟨value, hvalue⟩
        have hlength : ((c :: rest).take (Token.literalLength (c :: rest))).length =
            Token.literalLength (c :: rest) := by
          rw [List.length_take, Nat.min_eq_left hlongest.inside]
        refine Or.inl ⟨_, _, (c :: rest).drop (Token.literalLength (c :: rest)),
          .number _ _ value ?_ ?_ hvalue, (List.take_append_drop _ _).symm⟩
        · rw [List.take_append_drop, hlength]
          exact hlongest
        · rcases Numeral.head_of_isLiteral _ hliteral with ⟨d, others, hcons, -⟩
          rw [hcons]
          exact List.cons_ne_nil _ _
      · rw [Token.startsNumber, Bool.or_eq_true, decide_eq_true_eq] at hnumber
        rcases hnumber with hdigit | rfl
        · exact absurd ⟨c, rest, rfl, Or.inl hdigit⟩ hbegins
        · refine Or.inr ⟨_, .literal rest fun d hd => ?_⟩
          rw [← Bool.not_eq_true]
          exact fun hdigit => hbegins ⟨'.', rest, rfl, Or.inr ⟨rfl, d, hd, hdigit⟩⟩
    · by_cases hword : Token.startsWord c = true
      · refine Or.inl ⟨_, c :: rest.takeWhile Token.continuesWord,
          rest.dropWhile Token.continuesWord, .word c _ _ hword ?_ ?_, ?_⟩
        · exact fun d hd => List.mem_takeWhile_imp hd
        · exact Text.head_dropWhile _ rest
        · rw [List.cons_append, List.takeWhile_append_dropWhile]
      · exact Or.inr ⟨_, .stray c rest hblank hsign (Bool.not_eq_true _ ▸ hnumber)
          (Bool.not_eq_true _ ▸ hword)⟩
  · exact Or.inl ⟨token, [c], rest, .sign c token rest hsign, rfl⟩

/-- Every text is laid out up to its end or up to characters that no lexeme begins with. -/
theorem exists_tiles (text : List Char) (offset : ℕ) : ∃ lexemes front gap rest,
    text = front ++ (gap ++ rest) ∧ Tiles (gap ++ rest) offset front lexemes ∧
      (∀ c ∈ gap, isBlank c = true) ∧ (rest = [] ∨ ∃ failure, Stuck failure rest) := by
  induction hn : text.length using Nat.strong_induction_on generalizing text offset with
  | _ n ih =>
    have hgap : ∀ c ∈ text.takeWhile isBlank, isBlank c = true := fun c hc =>
      List.mem_takeWhile_imp hc
    have htext : text.takeWhile isBlank ++ text.dropWhile isBlank = text :=
      List.takeWhile_append_dropWhile
    rcases hrest : text.dropWhile isBlank with _ | ⟨c, others⟩
    · exact ⟨[], [], _, [], by rw [hrest] at htext; exact htext.symm, .nil offset, hgap, Or.inl rfl⟩
    have hblank := Text.head_dropWhile isBlank text c (by rw [hrest]; rfl)
    rw [hrest] at htext
    rcases piece_or_stuck c others hblank with
      ⟨token, source, behind, hpiece, heq⟩ | ⟨failure, hstuck⟩
    · -- What stands behind the lexeme is shorter, so it is laid out already.
      have hsource := List.length_pos_iff.mpr (hpiece.ne_nil token source behind)
      have hlength := congrArg List.length htext
      rw [heq, List.length_append, List.length_append] at hlength
      rcases ih behind.length (by omega) behind
        (offset + byteLength (text.takeWhile isBlank) + byteLength source) rfl with
        ⟨lexemes, front, gap, rest, rfl, htiles, hgap', hend⟩
      refine ⟨_, _, gap, rest, ?_, .cons offset _ source front token lexemes hgap hpiece htiles,
        hgap', hend⟩
      rw [heq] at htext
      simpa only [List.append_assoc] using htext.symm
    · exact ⟨[], [], _, _, htext.symm, .nil offset, hgap, Or.inr ⟨failure, hstuck⟩⟩

/-- Where the layout of a text comes to an end too early: the lexemes in front of that, why no
    lexeme begins there, and the offset of it. -/
def StopsAt (text : List Char) (lexemes : List Lexeme) (e : ParseError) : Prop :=
  ∃ front gap rest, text = front ++ (gap ++ rest) ∧ Tiles (gap ++ rest) 0 front lexemes ∧
    (∀ c ∈ gap, isBlank c = true) ∧ Stuck e.failure rest ∧ e.offset = byteLength (front ++ gap)

/-- Lexemes that stand in a text where they say. -/
structure Placed (text : List Char) (lexemes : List Lexeme) : Prop where
  slice : ∀ lexeme ∈ lexemes, ∃ before behind, text = before ++ (lexeme.source ++ behind) ∧
    lexeme.offset = byteLength before ∧ Piece lexeme.token lexeme.source behind
  increasing : lexemes.Pairwise fun lexeme next => lexeme.offset < next.offset
  disjoint : lexemes.Pairwise fun lexeme next =>
    lexeme.offset + byteLength lexeme.source ≤ next.offset

namespace Tiles

variable {rest : List Char} {offset : ℕ} {front : List Char} {lexemes : List Lexeme}
  (h : Tiles rest offset front lexemes)

include h

/-- A layout holds all that is not blank, once and in its order. -/
theorem flatMap_source : lexemes.flatMap source = front.filter fun c => !isBlank c := by
  induction h with
  | nil => rfl
  | cons _ gap source front token lexemes hgap hpiece _ ih =>
      have hblank : (gap.filter fun c => !isBlank c) = [] :=
        List.filter_eq_nil_iff.mpr fun c hc => by rw [hgap c hc]; decide
      have hsource : (source.filter fun c => !isBlank c) = source :=
        List.filter_eq_self.mpr fun c hc => by
          rw [hpiece.not_isBlank token source _ c hc]
          rfl
      rw [List.flatMap_cons, List.filter_append, List.filter_append, hblank, hsource, ih,
        List.nil_append]

/-- No lexeme of a layout stands in front of its offset. -/
theorem offset_le : ∀ lexeme ∈ lexemes, offset ≤ lexeme.offset := by
  induction h with
  | nil => exact fun lexeme hlexeme => absurd hlexeme List.not_mem_nil
  | cons offset gap source _ _ _ _ _ _ ih =>
      refine List.forall_mem_cons.mpr ⟨Nat.le_add_right _ _, fun lexeme hlexeme => ?_⟩
      have hle := ih lexeme hlexeme
      omega

/-- Lexemes of a layout stand where they say, whatever stands in front of it. -/
theorem placed (before : List Char) (hoffset : offset = byteLength before) :
    Placed (before ++ (front ++ rest)) lexemes := by
  induction h generalizing before with
  | nil => exact ⟨fun _ h => absurd h List.not_mem_nil, .nil, .nil⟩
  | cons offset gap source front token lexemes hgap hpiece htiles ih =>
      -- For the lexemes behind it, the gap and the lexeme are part of what stands in front.
      have hbehind := ih (before ++ gap ++ source) (by
        rw [byteLength_append, byteLength_append, hoffset])
      have htext : before ++ gap ++ source ++ (front ++ rest) =
          before ++ (gap ++ source ++ front ++ rest) := by
        simp only [List.append_assoc]
      rw [htext] at hbehind
      have hpositive := byteLength_pos source (hpiece.ne_nil token source _)
      have hle := htiles.offset_le
      refine ⟨List.forall_mem_cons.mpr ⟨⟨before ++ gap, front ++ rest, ?_, ?_, hpiece⟩,
        hbehind.slice⟩, .cons (fun next hnext => ?_) hbehind.increasing,
        .cons (fun next hnext => hle next hnext) hbehind.disjoint⟩
      · simp only [List.append_assoc]
      · rw [byteLength_append, hoffset]
      · have := hle next hnext
        simp only
        omega

end Tiles

/-- The scan stops where the layout of a text comes to an end too early. -/
theorem ofChars_stopsAt (text : List Char) (lexemes : List Lexeme) (e : ParseError)
    (h : StopsAt text lexemes e) : ofChars text = .error e := by
  rcases h with ⟨front, gap, rest, rfl, htiles, hgap, hstuck, hoffset⟩
  rw [ofChars, scan_tiles _ front 0 lexemes htiles, scan_gap gap rest hgap,
    scan_stuck e.failure rest hstuck, Nat.zero_add, ← byteLength_append, ← hoffset]
  rfl

namespace Placed

variable {text : List Char} {lexemes : List Lexeme} (h : Placed text lexemes)

include h

/-- Every lexeme begins where a character of the text does. -/
theorem isValid : ∀ lexeme ∈ lexemes,
    (String.Pos.Raw.mk lexeme.offset).IsValid (String.ofList text) := by
  intro lexeme hlexeme
  rcases h.slice lexeme hlexeme with ⟨before, behind, rfl, hoffset, -⟩
  rw [hoffset]
  exact Text.isValid_byteLength before _

/-- Looked for in the bytes of the text, the end of a number is where its lexeme ends. -/
theorem literalEnd_eq : ∀ lexeme ∈ lexemes, ∀ value, lexeme.token = .number value →
    ByteScan.literalEnd (Text.bytes text) lexeme.offset =
      lexeme.offset + byteLength lexeme.source := by
  intro lexeme hlexeme value htoken
  rcases h.slice lexeme hlexeme with ⟨before, behind, rfl, hoffset, hpiece⟩
  rw [htoken] at hpiece
  generalize lexeme.source = source at hpiece ⊢
  cases hpiece with
  | sign c _ _ hsign => exact absurd hsign (ofSign?_ne_number c value)
  | number _ _ _ hlongest hsome hvalue =>
      have hliteral := Numeral.isLiteral_of_unsigned? source value hvalue
      have hascii := ByteScan.toNat_lt_of_isSigned source ⟨[], source, Or.inl rfl, hliteral, rfl⟩
      rw [hoffset, ByteScan.literalEnd_eq _ _ _ (Text.stands_append before (source ++ behind)),
        literalLength_eq_of_isLongest source behind hsome hlongest,
        Text.byteLength_ascii source hascii]

end Placed

/-- The lexemes of a text lay it out to its end, with nothing but blanks between them and behind
    the last one. An error is reported at the one place where a layout of the text comes to an
    end too early. -/
theorem ofChars_tiles (text : String) : Outcome.Yields
    (fun lexemes => (∃ front gap, text.toList = front ++ gap ∧ Tiles gap 0 front lexemes ∧
        ∀ c ∈ gap, isBlank c = true) ∧
      Placed text.toList lexemes ∧
      (∀ lexeme ∈ lexemes, (String.Pos.Raw.mk lexeme.offset).IsValid text) ∧
      (∀ lexeme ∈ lexemes, ∀ value, lexeme.token = .number value →
        ByteScan.literalEnd text.toUTF8.data.toList lexeme.offset =
          lexeme.offset + byteLength lexeme.source) ∧
      lexemes.flatMap source = text.toList.filter fun c => !isBlank c)
    (fun e => (∃ lexemes, StopsAt text.toList lexemes e ∧ Placed text.toList lexemes) ∧
      (∀ lexemes' e', StopsAt text.toList lexemes' e' → e' = e) ∧
      (String.Pos.Raw.mk e.offset).IsValid text ∧ e.offset < text.utf8ByteSize)
    (ofChars text.toList) := by
  rcases exists_tiles text.toList 0 with ⟨lexemes, front, gap, rest, htext, htiles, hgap, hend⟩
  have hplaced := htiles.placed [] rfl
  rw [List.nil_append, ← htext] at hplaced
  rcases hend with rfl | ⟨failure, hstuck⟩
  · rw [List.append_nil] at htext htiles
    have hscan : ofChars text.toList = .ok lexemes := by
      rw [ofChars, htext, scan_tiles gap front 0 lexemes htiles, ← List.append_nil gap,
        scan_gap gap [] hgap, scan]
      exact congrArg Except.ok (List.append_nil lexemes)
    have hgapNone : (gap.filter fun c => !isBlank c) = [] :=
      List.filter_eq_nil_iff.mpr fun c hc => by rw [hgap c hc]; decide
    have hvalid := hplaced.isValid
    rw [String.ofList_toList] at hvalid
    rw [hscan, Text.toList_toUTF8]
    refine ⟨⟨front, gap, htext, htiles, hgap⟩, hplaced, hvalid, hplaced.literalEnd_eq, ?_⟩
    rw [htext, List.filter_append, hgapNone, List.append_nil, htiles.flatMap_source]
  · -- The scan has one outcome, so there is no second place where it could stop.
    have hstops : StopsAt text.toList lexemes ⟨failure, byteLength (front ++ gap)⟩ :=
      ⟨front, gap, rest, htext, htiles, hgap, hstuck, rfl⟩
    have hvalid := Text.isValid_byteLength (front ++ gap) rest
    rw [List.append_assoc, ← htext, String.ofList_toList] at hvalid
    rw [ofChars_stopsAt _ _ _ hstops]
    refine ⟨⟨lexemes, hstops, hplaced⟩, fun lexemes' e' hstops' => ?_, hvalid, ?_⟩
    · have hsame := (ofChars_stopsAt _ _ _ hstops').symm.trans (ofChars_stopsAt _ _ _ hstops)
      exact Except.error.inj hsame
    · have hrest : rest ≠ [] := by
        rintro rfl
        cases hstuck
      have hsize : text.utf8ByteSize = byteLength (front ++ gap) + byteLength rest := by
        rw [← byteLength_append, List.append_assoc, ← htext, byteLength_eq, String.ofList_toList]
      rw [hsize]
      exact Nat.lt_add_of_pos_right (byteLength_pos rest hrest)

/-- Without digits behind it, the letter `e` is left for a name. -/
example : ofChars "2e".toList =
    .ok [⟨.number ⟨2, 0⟩, 0, ['2']⟩, ⟨.word "e", 1, ['e']⟩] := by decide +kernel

end Metrology.Lexeme
