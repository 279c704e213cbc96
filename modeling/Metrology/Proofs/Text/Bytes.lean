import Mathlib.Data.List.Induction
import Metrology.Expr.Token

/-!
# Texts as bytes

Offsets in a text count bytes, and a text may be scanned byte by byte as well as character
by character. The encoding of a character beyond ASCII has no byte below 128, so an ASCII
character that is looked for at a byte is found only where it stands, and where it stands one
byte further is one character further.

## Main definitions

* `Text.bytes`: The bytes of characters in UTF-8.
* `Text.byteIs`: Whether a byte is an ASCII character of a kind.
* `Text.Stands`: The characters that stand behind so many bytes.

## Theorems

* `Text.toList_toUTF8`, `Text.length_bytes`: The bytes are those of the text.
* `Text.isValid_byteLength`: Where a character begins is a position of the text.
* `Text.Stands.byteIs_eq`: Looking at a character.
* `Text.Stands.next`, `Text.Stands.skip`: Stepping over ASCII characters.
* `Text.byteLength_ascii`: ASCII characters are one byte each.
-/

namespace Metrology

namespace Lexeme

/-- The bytes of a text are those of its characters. -/
theorem byteLength_eq (cs : List Char) : byteLength cs = (String.ofList cs).utf8ByteSize := by
  induction cs using List.reverseRecOn with
  | nil => rfl
  | append_singleton cs c ih =>
      rw [String.ofList_append, String.utf8ByteSize_append, ← ih]
      simp [byteLength]

@[simp]
theorem byteLength_append (front rest : List Char) :
    byteLength (front ++ rest) = byteLength front + byteLength rest := by
  rw [byteLength_eq, String.ofList_append, String.utf8ByteSize_append, ← byteLength_eq,
    ← byteLength_eq]

theorem byteLength_cons (c : Char) (rest : List Char) :
    byteLength (c :: rest) = c.utf8Size + byteLength rest := by
  rw [← List.singleton_append, byteLength_append]
  simp [byteLength]

theorem byteLength_pos (cs : List Char) (h : cs ≠ []) : 0 < byteLength cs := by
  rcases List.exists_cons_of_ne_nil h with ⟨c, rest, rfl⟩
  rw [byteLength_cons]
  exact Nat.add_pos_left c.utf8Size_pos _

end Lexeme

namespace Text

open Lexeme (byteLength byteLength_eq byteLength_append byteLength_cons)

/-- The bytes of characters in UTF-8. -/
def bytes (cs : List Char) : List UInt8 := cs.flatMap String.utf8EncodeChar

theorem toList_toUTF8 (text : String) : text.toUTF8.data.toList = bytes text.toList := by
  rw [← String.ofList_toList (s := text), String.toUTF8, String.toByteArray_ofList, List.utf8Encode,
    List.toList_data_toByteArray, String.toList_ofList, bytes]

theorem length_bytes (cs : List Char) : (bytes cs).length = byteLength cs := by
  induction cs with
  | nil => rfl
  | cons c rest ih =>
      rw [bytes] at ih ⊢
      rw [List.flatMap_cons, List.length_append, String.length_utf8EncodeChar, ih, byteLength_cons]

/-- Where a character begins, and where the last one ends, is a position of the text. -/
theorem isValid_byteLength (front rest : List Char) :
    (String.Pos.Raw.mk (byteLength front)).IsValid (String.ofList (front ++ rest)) := by
  refine String.Pos.Raw.isValid_iff_exists_append.mpr
    ⟨String.ofList front, String.ofList rest, String.ofList_append, ?_⟩
  rw [byteLength_eq]
  rfl

/-- Whether the byte at an index is an ASCII character of a kind. -/
def byteIs (p : Char → Bool) (bs : List UInt8) (i : ℕ) : Bool :=
  bs[i]?.any fun byte => byte.toNat < 128 && p (Char.ofNat byte.toNat)

/-- An ASCII character is one byte, its code. -/
theorem bytes_ascii (c : Char) (hc : c.toNat < 128) (rest : List Char) :
    bytes (c :: rest) = UInt8.ofNat c.toNat :: bytes rest := by
  have hle : c.val.toNat ≤ 127 := Nat.le_of_lt_succ hc
  rw [bytes, List.flatMap_cons, String.utf8EncodeChar]
  simp only [if_pos hle]
  rfl

/-- The first byte of a character beyond ASCII is no ASCII character. -/
theorem bytes_beyond (c : Char) (hc : ¬ c.toNat < 128) (rest : List Char) :
    ∃ byte others, bytes (c :: rest) = byte :: others ∧ 128 ≤ byte.toNat := by
  have hle : ¬ c.val.toNat ≤ 127 := fun h => hc (Nat.lt_succ_of_le h)
  have hbeyond : ∀ n, 128 ≤ n → n < 256 → 128 ≤ (UInt8.ofNat n).toNat := by
    intro n hlow hhigh
    rw [UInt8.toNat_ofNat', Nat.mod_eq_of_lt hhigh]
    exact hlow
  -- Two, three and four bytes have leading bytes of their own, all of them from 192 on.
  rw [bytes, List.flatMap_cons, String.utf8EncodeChar]
  simp only [if_neg hle]
  split
  · exact ⟨_, _, rfl, hbeyond _ (by omega) (by omega)⟩
  · split
    · exact ⟨_, _, rfl, hbeyond _ (by omega) (by omega)⟩
    · exact ⟨_, _, rfl, hbeyond _ (by omega) (by omega)⟩

/-- The characters that stand behind so many bytes of a text. -/
def Stands (bs : List UInt8) (i : ℕ) (rest : List Char) : Prop := bs.drop i = bytes rest

/-- Behind the bytes of what stands in front comes the rest. -/
theorem stands_append (front rest : List Char) :
    Stands (bytes (front ++ rest)) (byteLength front) rest := by
  rw [Stands, ← length_bytes]
  simp only [bytes, List.flatMap_append, List.drop_left]

/-- The kind of a byte is the kind of the character that stands there. -/
theorem Stands.byteIs_eq (p : Char → Bool) (hp : ∀ c, p c = true → c.toNat < 128)
    (bs : List UInt8) (i : ℕ) (rest : List Char) (h : Stands bs i rest) :
    byteIs p bs i = rest.head?.any p := by
  have hbyte : bs[i]? = (bytes rest).head? := by
    rw [← h, List.head?_drop]
  rw [byteIs, hbyte]
  rcases rest with _ | ⟨c, others⟩
  · rfl
  · by_cases hc : c.toNat < 128
    · have hcode : (UInt8.ofNat c.toNat).toNat = c.toNat := by
        rw [UInt8.toNat_ofNat']
        omega
      rw [bytes_ascii c hc, List.head?_cons, List.head?_cons, Option.any_some, Option.any_some,
        hcode, Char.ofNat_toNat, decide_eq_true hc, Bool.true_and]
    · rcases bytes_beyond c hc others with ⟨byte, behind, hbytes, hbyte⟩
      have hnot : p c = false := Bool.eq_false_iff.mpr fun h => hc (hp c h)
      rw [hbytes, List.head?_cons, List.head?_cons, Option.any_some, Option.any_some, hnot,
        decide_eq_false (Nat.not_lt.mpr hbyte), Bool.false_and]

theorem Stands.byteIs_eq_iff (c : Char) (hc : c.toNat < 128) (bs : List UInt8) (i : ℕ)
    (rest : List Char) (h : Stands bs i rest) :
    byteIs (· = c) bs i = true ↔ rest.head? = some c := by
  rw [h.byteIs_eq (· = c) (fun d hd => of_decide_eq_true hd ▸ hc)]
  rcases rest with _ | ⟨d, others⟩
  · simp
  · simp

/-- Behind the byte of an ASCII character stands the next character. -/
theorem Stands.next (c : Char) (hc : c.toNat < 128) (bs : List UInt8) (i : ℕ) (rest : List Char)
    (h : Stands bs i (c :: rest)) : Stands bs (i + 1) rest := by
  rw [Stands, ← List.drop_drop, h, bytes_ascii c hc, List.drop_one, List.tail_cons]

/-- ASCII characters are stepped over, one byte each. -/
theorem Stands.skip (front rest : List Char) (hfront : ∀ c ∈ front, c.toNat < 128)
    (bs : List UInt8) (i : ℕ) (h : Stands bs i (front ++ rest)) :
    Stands bs (i + front.length) rest := by
  induction front generalizing i with
  | nil => exact h
  | cons c others ih =>
      have hnext := Stands.next c (hfront c List.mem_cons_self) bs i (others ++ rest) h
      have hskip := ih (fun d hd => hfront d (List.mem_cons_of_mem _ hd)) (i + 1) hnext
      rw [List.length_cons, Nat.add_comm others.length, ← Nat.add_assoc]
      exact hskip

/-- ASCII characters have as many bytes as there are of them. -/
theorem byteLength_ascii (cs : List Char) (hcs : ∀ c ∈ cs, c.toNat < 128) :
    byteLength cs = cs.length := by
  induction cs with
  | nil => rfl
  | cons c rest ih =>
      have hbytes := congrArg List.length (bytes_ascii c (hcs c List.mem_cons_self) rest)
      rw [length_bytes, List.length_cons, length_bytes] at hbytes
      rw [hbytes, ih fun d hd => hcs d (List.mem_cons_of_mem _ hd), List.length_cons]

end Text

end Metrology
