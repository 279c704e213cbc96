import Mathlib.Data.List.Basic
import Mathlib.Data.Option.Basic
import Metrology.Unit.Reader

/-!
# Spelling of unit symbols

Why a known unit symbol is read to its end and no further. The reader takes the
longest run of letters and degree signs as one symbol, and skips blanks,
multiplication signs and a `1` in front of a slash before it looks for one. So a
symbol that begins with one of the skipped characters, or holds anything but
letters and degree signs, would never be read as a whole.

`Catalog.lookup` knows a symbol when it is a name of the table, another spelling
of one, or a prefix with either behind it. All of these are lists of plain
texts, so the spelling is checked on the lists, and a prefixed symbol inherits
it from its two parts.

## Main definitions

* `UnitReader.opensSymbol`: The characters that begin a symbol wherever they are
  met.
* `UnitReader.isSpelled`: The texts that are read as one symbol.

## Theorems

* `Catalog.isSpelled_of_lookup`: Every known symbol is read as one symbol.
-/

namespace Metrology

namespace UnitReader

/-- Whether a character begins a symbol wherever it is met: it may, and it is
    none of those that the reader treats otherwise. -/
def opensSymbol (c : Char) : Bool :=
  startsSymbol c && !(Text.isBlank c || c = '*' || c = '·' || c = '/' || c = '1')

/-- Whether a text is read as one symbol. -/
def isSpelled (cs : List Char) : Bool :=
  (cs.head?.any opensSymbol) && cs.all continuesSymbol

theorem isSpelled_append (first second : List Char) (hfirst : isSpelled first = true)
    (hsecond : second.all continuesSymbol = true) : isSpelled (first ++ second) = true := by
  simp only [isSpelled, Bool.and_eq_true] at hfirst ⊢
  refine ⟨?_, ?_⟩
  · cases first with
    | nil => exact absurd hfirst.1 (by simp)
    | cons c cs => exact hfirst.1
  · rw [List.all_append, hfirst.2, hsecond, Bool.and_self]

/-- The first character of a symbol and the others. -/
theorem eq_cons_of_isSpelled (cs : List Char) (h : isSpelled cs = true) :
    ∃ c rest, cs = c :: rest ∧ opensSymbol c = true ∧ ∀ d ∈ rest, continuesSymbol d = true := by
  cases cs with
  | nil => exact absurd h (by simp [isSpelled])
  | cons c rest =>
    simp only [isSpelled, List.head?_cons, Option.any_some, List.all_cons, Bool.and_eq_true,
      List.all_eq_true] at h
    exact ⟨c, rest, rfl, h.1, h.2.2⟩

end UnitReader

namespace Catalog

open UnitReader (isSpelled continuesSymbol)

/-- The names of the table and their other spellings. -/
def names : List String :=
  ["m", "g", "s", "A", "K", "mol", "cd", "N", "J", "W", "Pa", "Hz", "C", "V", "Ω", "S", "F", "T",
   "Wb", "H", "L", "min", "h", "rad", "deg", "in", "ft", "bar", "eV", "ohm", "°", "l"]

theorem isSpelled_of_mem_names (name : String) (h : name ∈ names) :
    isSpelled name.toList = true := by
  have hall : names.all (fun name => isSpelled name.toList) = true := by decide +kernel
  exact List.all_eq_true.mp hall name h

theorem isSpelled_of_mem_prefixes (entry : String × Int) (h : entry ∈ prefixes) :
    isSpelled entry.1.toList = true := by
  have hall : prefixes.all (fun entry => isSpelled entry.1.toList) = true := by decide
  exact List.all_eq_true.mp hall entry h

variable {α : Type} [Scalar α]

/-- A symbol with an entry is a name of the table or another spelling. -/
theorem mem_names_of_entry (symbol : String) (entry : Entry α)
    (h : entry? symbol = some entry) : symbol ∈ names := by
  unfold entry? at h
  -- Another spelling is on the list, and a name is that of the entry found.
  by_cases halias : symbol ∈ aliases.map Prod.fst
  · have hsub : ∀ name ∈ aliases.map Prod.fst, name ∈ names := by decide
    exact hsub symbol halias
  · have hplain : aliases.lookup symbol = none := by
      rw [List.lookup_eq_none_iff]
      intro pair hpair
      rw [bne_iff_ne]
      intro heq
      exact halias (List.mem_map.mpr ⟨pair, hpair, heq.symm⟩)
    rw [hplain, Option.getD_none] at h
    have hsymbol : entry.symbol = symbol := by simpa using List.find?_some h
    have hmem : entry.symbol ∈ (entries (α := α)).map (·.symbol) :=
      List.mem_map.mpr ⟨entry, List.mem_of_find?_eq_some h, rfl⟩
    have hsub : ∀ name ∈ (entries (α := α)).map (·.symbol), name ∈ names := by
      simp only [entries, List.map_cons, List.map_nil]
      decide
    rw [← hsymbol]
    exact hsub _ hmem

/-- Every known symbol is read as one symbol. -/
theorem isSpelled_of_lookup (symbol : String) (meaning : Dimension × α)
    (h : lookup symbol = some meaning) : isSpelled symbol.toList = true := by
  unfold lookup at h
  cases hentry : entry? (α := α) symbol with
  | some entry => exact isSpelled_of_mem_names symbol (mem_names_of_entry symbol entry hentry)
  | none =>
    -- A prefix and the name behind it are both spelled as symbols.
    rw [hentry] at h
    rcases List.exists_of_findSome?_eq_some h with ⟨⟨unitPrefix, power⟩, hmem, hfound⟩
    simp only [prefixed?, Option.bind_eq_bind, Option.bind_eq_some_iff] at hfound
    rcases hfound with ⟨rest, hrest, entry, hentry, -⟩
    rw [List.isPrefixOf?_eq_some_iff_append_eq] at hrest
    have hname := isSpelled_of_mem_names _ (mem_names_of_entry _ entry hentry)
    rw [String.toList_ofList, isSpelled, Bool.and_eq_true] at hname
    rw [← hrest]
    exact UnitReader.isSpelled_append _ _
      (isSpelled_of_mem_prefixes (unitPrefix, power) hmem) hname.2

end Catalog

end Metrology
