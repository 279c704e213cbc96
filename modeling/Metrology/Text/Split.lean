/-!
# Cutting texts at separators

A text with separators in it is a list of pieces, one more than there are
separators. Pieces may be empty.

## Main definitions

* `Text.splitChars`: The pieces between the separators.
* `Text.splitAt`: The pieces of a text between occurrences of one character.
* `Text.cutOnce?`: What stands before and behind the first separator.

## Theorems

* `Text.splitChars_ne_nil`: There is at least one piece.
* `Text.intercalate_splitChars`: Joined by the separator, the pieces give the
  text again.
-/

namespace Metrology.Text

/-- The pieces of a list between the characters that separate. -/
def splitChars (separates : Char → Bool) : List Char → List (List Char)
  | [] => [[]]
  | c :: rest =>
    let pieces := splitChars separates rest
    if separates c then [] :: pieces
    else
      match pieces with
      | [] => [[c]]
      | piece :: others => (c :: piece) :: others

/-- The pieces of a text between occurrences of a character. -/
def splitAt (separator : Char) (text : String) : List String :=
  (splitChars (· = separator) text.toList).map String.ofList

/-- What stands before and behind the first occurrence of a character. -/
def cutOnce? (separator : Char) (text : String) : Option (String × String) :=
  let head := text.toList.takeWhile (· ≠ separator)
  match text.toList.dropWhile (· ≠ separator) with
  | [] => none
  | _ :: tail => some (String.ofList head, String.ofList tail)

theorem splitChars_ne_nil (separates : Char → Bool) (cs : List Char) :
    splitChars separates cs ≠ [] := by
  induction cs with
  | nil => simp [splitChars]
  | cons c rest ih =>
    rw [splitChars]
    split
    · simp
    · cases hpieces : splitChars separates rest with
      | nil => exact absurd hpieces ih
      | cons piece others => simp

theorem intercalate_splitChars (separator : Char) (cs : List Char) :
    [separator].intercalate (splitChars (· = separator) cs) = cs := by
  induction cs with
  | nil => rfl
  | cons c rest ih =>
    rw [splitChars]
    cases hpieces : splitChars (· = separator) rest with
    | nil => exact absurd hpieces (splitChars_ne_nil _ rest)
    | cons piece others =>
      rw [hpieces] at ih
      by_cases hc : c = separator
      · subst hc
        simp only [decide_true, if_true]
        rw [List.intercalate] at ih ⊢
        simp only [List.intersperse, List.flatten_cons, List.nil_append] at ih ⊢
        simpa using ih
      · simp only [hc, decide_false, Bool.false_eq_true, if_false]
        rw [List.intercalate] at ih ⊢
        cases others <;> simpa [List.intersperse] using ih

end Metrology.Text
