import Metrology.Proofs.Decimal.Digits
import Metrology.Proofs.Outcome
import Metrology.Proofs.Text.Split
import Metrology.Proofs.Unit.Symbol
import Metrology.Proofs.Unit.WellFormed

/-!
# Scanning written products

What the reader makes of the text of a product: symbols with their powers, one
blank between two of them. A written factor is read to its end because a known
symbol is a run of letters, a power a run of digits behind a sign, and what
follows a factor is a blank or nothing.

All statements keep what follows as a parameter, so that they chain: the text of
a unit is one product, or two with a slash between them.

## Main definitions

* `CompoundUnit.productText`: Factors with blanks between them.
* `UnitReader.Closes`: What may follow a factor.

## Theorems

* `UnitReader.writtenPower?_powerText`: A written power is read back.
* `UnitReader.scan_factor`: A written factor is merged.
* `UnitReader.scan_product`: The factors of a written product are merged one
  after the other.
-/

namespace Metrology

namespace CompoundUnit

variable {α : Type}

/-- Factors with blanks between them. -/
def productText (factors : List (UnitFactor α)) : String :=
  " ".intercalate (factors.map fun factor => factorText factor.symbol factor.power)

theorem toList_productText_singleton (factor : UnitFactor α) :
    (productText [factor]).toList = (factorText factor.symbol factor.power).toList := by
  rw [productText, List.map_singleton, String.intercalate_singleton]

theorem toList_productText_cons (factor next : UnitFactor α) (rest : List (UnitFactor α)) :
    (productText (factor :: next :: rest)).toList =
      (factorText factor.symbol factor.power).toList ++
        ' ' :: (productText (next :: rest)).toList := by
  simp only [productText, List.map_cons, String.intercalate_cons_cons, String.toList_append,
    List.append_assoc, List.append_cancel_left_eq]
  rfl

/-- The power behind a symbol, as it is written. -/
def powerText (power : Int) : List Char :=
  if power = 1 then [] else '^' :: (toString power).toList

theorem toList_factorText (symbol : String) (power : Int) :
    (factorText symbol power).toList = symbol.toList ++ powerText power := by
  rw [factorText, powerText]
  split
  · rw [List.append_nil]
  · rw [String.toList_append, String.toList_append, List.append_assoc]
    rfl

end CompoundUnit

namespace UnitReader

open CompoundUnit (factorText powerText productText inWord)
open Decimal (digitsValue_toDigits toList_toString_ofNat toList_toString_neg)

/-- What may follow a factor: a blank, or nothing. -/
def Closes (rest : List Char) : Prop := ∀ c, rest.head? = some c → c = ' '

theorem closes_nil : Closes [] := by
  intro c h
  exact absurd h (by simp)

theorem closes_blank (rest : List Char) : Closes (' ' :: rest) := by
  intro c h
  rw [List.head?_cons, Option.some.injEq] at h
  exact h.symm

/-- A run ends where a factor ends. -/
theorem takeWhile_append_closes (p : Char → Bool) (run rest : List Char)
    (hrun : ∀ c ∈ run, p c = true) (hblank : p ' ' = false) (hrest : Closes rest) :
    (run ++ rest).takeWhile p = run :=
  Text.takeWhile_run p run rest hrun fun c hc => by rw [hrest c hc, hblank]

/-- Digits in front of what follows a factor are read as their number. -/
theorem takeWhile_toDigits (n : Nat) (rest : List Char) (hrest : Closes rest) :
    (Nat.toDigits 10 n ++ rest).takeWhile Char.isDigit = Nat.toDigits 10 n :=
  takeWhile_append_closes Char.isDigit _ rest (Decimal.isDigit_of_mem_toDigits n) (by decide) hrest

/-- A digit is no sign. -/
theorem head?_toDigits_ne (n : Nat) (rest : List Char) (sign : Char)
    (hsign : sign.isDigit = false) : (Nat.toDigits 10 n ++ rest).head? ≠ some sign := by
  intro h
  cases hdigits : Nat.toDigits 10 n with
  | nil => exact Nat.toDigits_ne_nil hdigits
  | cons d digits =>
      rw [hdigits, List.cons_append, List.head?_cons, Option.some.injEq] at h
      have hd : d.isDigit = true :=
        Decimal.isDigit_of_mem_toDigits n d (hdigits ▸ List.mem_cons_self)
      rw [h, hsign] at hd
      exact Bool.false_ne_true hd

/-- Without a caret the power is one. -/
theorem writtenPower?_other (cs : List Char) (h : ∀ rest, cs ≠ '^' :: rest) :
    writtenPower? cs = some (1, 0) := by
  unfold writtenPower?
  split
  · next rest => exact absurd rfl (h rest)
  · rfl

/-- A written power is read back, with the number of its characters. -/
theorem writtenPower?_powerText (power : Int) (rest : List Char) (hword : inWord power = true)
    (hrest : Closes rest) :
    writtenPower? (powerText power ++ rest) = some (power, (powerText power).length) := by
  rw [powerText]
  by_cases hone : power = 1
  · rw [if_pos hone, List.nil_append, hone, List.length_nil]
    cases rest with
    | nil => rfl
    | cons c rest =>
        have hc : c = ' ' := hrest c rfl
        rw [hc]
        rfl
  · -- The digits are those of the absolute value, behind a sign if there is one.
    rw [if_neg hone]
    by_cases hsign : 0 ≤ power
    · obtain ⟨n, hn⟩ := Int.eq_ofNat_of_zero_le hsign
      have hminus := head?_toDigits_ne n rest '-' (by decide)
      have hplus := head?_toDigits_ne n rest '+' (by decide)
      rw [hn, toList_toString_ofNat, List.cons_append, writtenPower?]
      simp only [hminus, hplus, or_self, if_false, List.drop_zero, takeWhile_toDigits n rest hrest,
        digitsValue_toDigits, ← hn, hword, List.isEmpty_iff, Nat.toDigits_ne_nil, Bool.not_true,
        Bool.or_false, Nat.add_zero, List.length_cons, Option.some.injEq, Prod.mk.injEq, true_and]
      omega
    · obtain ⟨n, hn⟩ := Int.eq_ofNat_of_zero_le (show 0 ≤ -power by omega)
      have hneg : power = -(n : Int) := by omega
      rw [hneg, toList_toString_neg n (by omega), List.cons_append, writtenPower?, ← hneg]
      simp only [List.cons_append, List.head?_cons, true_or, if_true, List.drop_one, List.tail_cons,
        takeWhile_toDigits n rest hrest, digitsValue_toDigits, ← hneg, hword, List.isEmpty_iff,
        Nat.toDigits_ne_nil, Bool.not_true, Bool.or_false, List.length_cons, if_false,
        Option.some.injEq, Prod.mk.injEq, true_and]
      omega

variable {α : Type} [Scalar α]

/-- Characters of a symbol merged already are passed over. -/
theorem scan_skip (source : String) (divide : Bool) (unit : CompoundUnit α) (skipped : List Char) :
    ∀ rest, scan source skipped.length divide unit (skipped ++ rest) =
      scan source 0 divide unit rest := by
  induction skipped with
  | nil => intro rest; rfl
  | cons c skipped ih => intro rest; exact ih rest

/-- The power that a factor gets: behind a slash it is turned. -/
def effective (divide : Bool) (power : Int) : Int := if divide then -power else power

omit [Scalar α] in
/-- A small power can be turned. -/
theorem effectivePower_eq_ok (divide : Bool) (power : Int) (hlow : -128 ≤ power)
    (hhigh : power ≤ 128) :
    effectivePower divide power = (.ok (effective divide power) : Except (UnitError α) Int) := by
  have hword : inWord (-power) = true := by
    rw [inWord, Bool.and_eq_true, decide_eq_true_eq, decide_eq_true_eq]
    omega
  unfold effectivePower effective turned
  by_cases hdivide : divide = true
  · rw [if_pos hdivide, if_pos hdivide, if_pos hword]
  · rw [if_neg hdivide, if_neg hdivide]

/-- A written factor is merged, and its characters are passed over. -/
theorem scan_factor (source : String) (divide : Bool) (unit : CompoundUnit α)
    (factor : UnitFactor α) (rest : List Char) (hknown : CompoundUnit.Known factor)
    (hlow : -128 ≤ factor.power) (hhigh : factor.power ≤ 128) (hrest : Closes rest) :
    scan source 0 divide unit ((factorText factor.symbol factor.power).toList ++ rest) =
      unit.push { factor with power := effective divide factor.power } >>= fun next =>
        scan source 0 false next rest := by
  rcases eq_cons_of_isSpelled _ (Catalog.isSpelled_of_lookup _ _ hknown) with
    ⟨c, tail, hsymbol, hopens, htail⟩
  have hword : inWord factor.power = true := by
    rw [inWord, Bool.and_eq_true, decide_eq_true_eq, decide_eq_true_eq]
    omega
  have hsplit : (factorText factor.symbol factor.power).toList ++ rest =
      c :: (tail ++ (powerText factor.power ++ rest)) := by
    rw [CompoundUnit.toList_factorText, hsymbol, List.append_assoc, List.cons_append]
  -- The run of letters ends with the symbol: a power begins with a caret.
  have hrun : (tail ++ (powerText factor.power ++ rest)).takeWhile continuesSymbol = tail := by
    rw [powerText]
    split
    · exact takeWhile_append_closes _ tail rest htail (by decide +kernel) hrest
    · rw [List.takeWhile_append_of_pos htail, List.cons_append,
        List.takeWhile_cons_of_neg (by decide +kernel), List.append_nil]
  have hname : String.ofList (c :: tail) = factor.symbol := by
    rw [← hsymbol, String.ofList_toList]
  have hpower : effectivePower divide factor.power =
      (.ok (effective divide factor.power) : Except (UnitError α) Int) :=
    effectivePower_eq_ok divide factor.power hlow hhigh
  simp only [opensSymbol, Bool.and_eq_true, Bool.not_eq_true', Bool.or_eq_false_iff,
    decide_eq_false_iff_not] at hopens
  rcases hopens with ⟨hstarts, ⟨⟨⟨hblank, hstar⟩, hdot⟩, hslash⟩, hdigit⟩
  -- None of the earlier branches of a step is taken, and the symbol is known.
  rw [hsplit, scan]
  simp only [hblank, hstar, hdot, hslash, hdigit, hstarts, hrun, hname, List.drop_left,
    decide_false, Bool.or_self, Bool.false_eq_true, false_and, if_false, if_true,
    show Catalog.lookup factor.symbol = some (factor.dimension, factor.scale) from hknown,
    writtenPower?_powerText factor.power rest hword hrest, hpower]
  refine congrArg (unit.push { factor with power := effective divide factor.power } >>= ·)
    (funext fun next => ?_)
  rw [← List.append_assoc, ← List.length_append, scan_skip]

/-- A blank between two factors is passed over. -/
theorem scan_blank (source : String) (divide : Bool) (unit : CompoundUnit α) (rest : List Char) :
    scan source 0 divide unit (' ' :: rest) = scan source 0 divide unit rest := by
  rw [scan, if_pos (by decide)]

/-- The factors of a written product are merged one after the other. -/
theorem scan_product (source : String) (factors : List (UnitFactor α)) (hne : factors ≠ [])
    (hknown : ∀ factor ∈ factors, CompoundUnit.Known factor)
    (hbounded : ∀ factor ∈ factors, -128 ≤ factor.power ∧ factor.power ≤ 128) (rest : List Char)
    (hrest : Closes rest) :
    ∀ unit : CompoundUnit α, scan source 0 false unit ((productText factors).toList ++ rest) =
      unit.pushAll factors >>= fun next => scan source 0 false next rest := by
  induction factors with
  | nil => exact absurd rfl hne
  | cons factor others ih =>
      intro unit
      have hfirst := hbounded factor List.mem_cons_self
      -- The last factor is followed by `rest`, every other one by a blank.
      cases others with
      | nil =>
          rw [CompoundUnit.toList_productText_singleton, scan_factor source false unit factor rest
            (hknown factor List.mem_cons_self) hfirst.1 hfirst.2 hrest]
          rw [CompoundUnit.pushAll, List.foldlM_cons, bind_assoc]
          rfl
      | cons next others =>
          rw [CompoundUnit.toList_productText_cons, List.append_assoc, List.cons_append,
            scan_factor source false unit factor _ (hknown factor List.mem_cons_self) hfirst.1
              hfirst.2 (closes_blank _)]
          rw [CompoundUnit.pushAll, List.foldlM_cons, bind_assoc]
          congr 1
          funext merged
          rw [scan_blank]
          exact ih (by simp) (fun f hf => hknown f (List.mem_cons_of_mem _ hf))
            (fun f hf => hbounded f (List.mem_cons_of_mem _ hf)) merged

end UnitReader

end Metrology
