import Metrology.Text.Split

/-!
# Joined pieces are found again

Pieces without the separator that are joined by it are what cutting at the
separator finds. Cutting goes from left to right, so the pieces are found one by
one, and the last one may hold separators of its own.

A run of characters of one kind is told in the same way from what stands behind it, if
that does not begin with another such character.

## Theorems

* `Text.takeWhile_run`, `Text.dropWhile_run`: A run and what stands behind it.
* `Text.eq_of_runs`: One text begins with one run.
* `Text.head_dropWhile`: What stands behind the longest run.
* `Text.splitAt_join_cons`: The first of several pieces is found.
* `Text.splitAt_join`: All pieces are found.
* `Text.join_splitAt`: Joining the pieces of a text gives the text.
* `Text.not_mem_of_mem_splitAt`: A piece does not hold the separator.
* `Text.cutOnce?_append`: The first separator is found.
-/

namespace Metrology.Text

section Runs

variable (p : Char → Bool) (run rest : List Char) (hrun : ∀ c ∈ run, p c = true)
  (hrest : ∀ c, rest.head? = some c → p c = false)

include hrun hrest

theorem takeWhile_run : (run ++ rest).takeWhile p = run := by
  rw [List.takeWhile_append_of_pos hrun]
  cases rest with
  | nil => rw [List.takeWhile_nil, List.append_nil]
  | cons c others =>
      rw [List.takeWhile_cons_of_neg (by rw [hrest c rfl]; exact Bool.false_ne_true),
        List.append_nil]

theorem dropWhile_run : (run ++ rest).dropWhile p = rest := by
  rw [List.dropWhile_append_of_pos hrun]
  cases rest with
  | nil => rfl
  | cons c others =>
      rw [List.dropWhile_cons_of_neg (by rw [hrest c rfl]; exact Bool.false_ne_true)]

/-- One text begins with one run. -/
theorem eq_of_runs (run' rest' : List Char) (hrun' : ∀ c ∈ run', p c = true)
    (hrest' : ∀ c, rest'.head? = some c → p c = false) (h : run ++ rest = run' ++ rest') :
    run = run' ∧ rest = rest' := by
  have htake := congrArg (List.takeWhile p) h
  have hdrop := congrArg (List.dropWhile p) h
  rw [takeWhile_run p run rest hrun hrest, takeWhile_run p run' rest' hrun' hrest'] at htake
  rw [dropWhile_run p run rest hrun hrest, dropWhile_run p run' rest' hrun' hrest'] at hdrop
  exact ⟨htake, hdrop⟩

end Runs

section Characters

variable (separator : Char)

theorem splitChars_append (piece rest : List Char) (h : separator ∉ piece) :
    splitChars (· = separator) (piece ++ separator :: rest) =
      piece :: splitChars (· = separator) rest := by
  induction piece with
  | nil => simp [splitChars]
  | cons c others ih =>
      rw [List.mem_cons, not_or] at h
      rw [List.cons_append, splitChars, ih h.2]
      simp [Ne.symm h.1]

theorem splitChars_self (piece : List Char) (h : separator ∉ piece) :
    splitChars (· = separator) piece = [piece] := by
  induction piece with
  | nil => rfl
  | cons c others ih =>
      rw [List.mem_cons, not_or] at h
      rw [splitChars, ih h.2]
      simp [Ne.symm h.1]

theorem not_mem_of_mem_splitChars (cs piece : List Char)
    (h : piece ∈ splitChars (· = separator) cs) : separator ∉ piece := by
  induction cs generalizing piece with
  | nil =>
      rw [splitChars, List.mem_singleton] at h
      rw [h]
      exact List.not_mem_nil
  | cons c rest ih =>
      rw [splitChars] at h
      cases hpieces : splitChars (· = separator) rest with
      | nil => exact absurd hpieces (splitChars_ne_nil _ rest)
      | cons first others =>
          rw [hpieces] at h ih
          by_cases hc : c = separator
          · simp only [hc, decide_true, if_true] at h
            rcases List.mem_cons.mp h with rfl | hmem
            · exact List.not_mem_nil
            · exact ih piece hmem
          · simp only [hc, decide_false, Bool.false_eq_true, if_false] at h
            rcases List.mem_cons.mp h with rfl | hmem
            · rw [List.mem_cons, not_or]
              exact ⟨Ne.symm hc, ih first List.mem_cons_self⟩
            · exact ih piece (List.mem_cons_of_mem _ hmem)

end Characters

/-- What stands behind the longest run does not begin with another such character. -/
theorem head_dropWhile (p : Char → Bool) (cs : List Char) (c : Char)
    (hc : (cs.dropWhile p).head? = some c) : p c = false := by
  have hnot := List.head?_dropWhile_not p cs
  rw [hc] at hnot
  simpa using hnot

/-- Pieces with a separator between every two of them. -/
abbrev join (separator : Char) (pieces : List String) : String :=
  (String.singleton separator).intercalate pieces

section Pieces

variable (separator : Char)

theorem toList_join_cons (piece : String) (others : List String) (hothers : others ≠ []) :
    (join separator (piece :: others)).toList =
      piece.toList ++ separator :: (join separator others).toList := by
  cases others with
  | nil => exact absurd rfl hothers
  | cons next rest =>
      simp [String.toList_intercalate, List.intercalate]

/-- The first of several pieces is found, if it holds no separator. -/
theorem splitAt_join_cons (piece : String) (others : List String) (hothers : others ≠ [])
    (h : separator ∉ piece.toList) :
    splitAt separator (join separator (piece :: others)) =
      piece :: splitAt separator (join separator others) := by
  rw [splitAt, toList_join_cons separator piece others hothers, splitChars_append separator _ _ h,
    List.map_cons, String.ofList_toList, splitAt]

/-- A text without separators is one piece. -/
theorem splitAt_self (piece : String) (h : separator ∉ piece.toList) :
    splitAt separator piece = [piece] := by
  rw [splitAt, splitChars_self separator _ h, List.map_singleton, String.ofList_toList]

theorem join_singleton (piece : String) : join separator [piece] = piece := by
  simp [join]

/-- All pieces are found, if none of them holds a separator. -/
theorem splitAt_join (pieces : List String) (hpieces : pieces ≠ [])
    (h : ∀ piece ∈ pieces, separator ∉ piece.toList) :
    splitAt separator (join separator pieces) = pieces := by
  induction pieces with
  | nil => exact absurd rfl hpieces
  | cons piece others ih =>
      have hpiece := h piece List.mem_cons_self
      cases others with
      | nil => rw [join_singleton, splitAt_self separator piece hpiece]
      | cons next rest =>
          rw [splitAt_join_cons separator piece _ (List.cons_ne_nil _ _) hpiece,
            ih (List.cons_ne_nil _ _) fun other hother => h other (List.mem_cons_of_mem _ hother)]

/-- Joining the pieces of a text gives the text. -/
theorem join_splitAt (text : String) : join separator (splitAt separator text) = text := by
  have htexts : (String.toList ∘ String.ofList) = id := by
    funext cs
    exact String.toList_ofList
  rw [← String.toList_inj, String.toList_intercalate, splitAt, List.map_map, htexts, List.map_id,
    String.toList_singleton, intercalate_splitChars]

/-- A piece does not hold the separator. -/
theorem not_mem_of_mem_splitAt (text piece : String) (h : piece ∈ splitAt separator text) :
    separator ∉ piece.toList := by
  rcases List.mem_map.mp h with ⟨cs, hcs, rfl⟩
  rw [String.toList_ofList]
  exact not_mem_of_mem_splitChars separator _ _ hcs

/-- A text is cut at its first separator. -/
theorem cutOnce?_append (head tail : String) (h : separator ∉ head.toList) :
    cutOnce? separator (head ++ String.singleton separator ++ tail) = some (head, tail) := by
  have hhead : ∀ c ∈ head.toList, decide (c ≠ separator) = true := by
    intro c hc
    exact decide_eq_true fun heq => h (heq ▸ hc)
  rw [cutOnce?, String.toList_append, String.toList_append, String.toList_singleton,
    List.append_assoc, List.takeWhile_append_of_pos hhead, List.dropWhile_append_of_pos hhead]
  simp

end Pieces

end Metrology.Text
