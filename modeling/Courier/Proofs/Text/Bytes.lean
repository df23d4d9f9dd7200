import Courier.Text.Line
import Mathlib.Data.List.Basic

/-!
# The bytes of a text

A text is characters to the scanner and bytes to its offsets. Here the two views are joined: the bytes of a text are those of its
characters in turn (`getElem?_toUTF8`), and a byte below 128 is a character of its own and never a part of another
(`eq_of_mem_utf8EncodeChar`). So the line feeds that a text is said to have are the bytes with the number 10
(`mem_newlineOffsets`).
-/

namespace Courier.Text

/-- The bytes of a run of characters in UTF-8. -/
def bytes (cs : List Char) : List UInt8 :=
  cs.flatMap String.utf8EncodeChar

theorem bytes_cons (c : Char) (cs : List Char) : bytes (c :: cs) = String.utf8EncodeChar c ++ bytes cs :=
  List.flatMap_cons

theorem bytes_append (xs ys : List Char) : bytes (xs ++ ys) = bytes xs ++ bytes ys :=
  List.flatMap_append

theorem length_bytes (cs : List Char) : (bytes cs).length = byteLength cs := by
  induction cs with
  | nil => rfl
  | cons c cs ih => rw [bytes_cons, List.length_append, String.length_utf8EncodeChar, ih, byteLength]

/-- A text's bytes are those of its characters. -/
theorem getElem?_toUTF8 (text : String) (i : Nat) : text.toUTF8[i]? = (bytes text.toList)[i]? := by
  have hdata : text.toByteArray.data = (bytes text.toList).toArray := by
    rw [← String.utf8Encode_toList, List.utf8Encode, List.data_toByteArray, bytes]
  rw [String.toUTF8_eq_toByteArray, ← List.getElem?_toArray, ← hdata]
  rfl

theorem utf8ByteSize_eq (text : String) : text.utf8ByteSize = byteLength text.toList := by
  rw [← length_bytes, ← String.size_toByteArray, ← String.utf8Encode_toList, List.utf8Encode, List.size_toByteArray, bytes]

/-- A byte below 128 is the one byte of the character with its number. -/
theorem eq_of_mem_utf8EncodeChar {c : Char} {b : UInt8} (hb : b ∈ String.utf8EncodeChar c) (hlt : b.toNat < 128) :
    String.utf8EncodeChar c = [b] ∧ c.toNat = b.toNat := by
  have hofNat : ∀ n : Nat, 128 ≤ n → n < 256 → b ≠ UInt8.ofNat n := by
    intro n hn hlt' heq
    rw [heq, UInt8.toNat_ofNat_of_lt' hlt'] at hlt
    omega
  unfold String.utf8EncodeChar at hb ⊢
  simp only at hb ⊢
  split at hb
  · rename_i h127
    rw [if_pos h127]
    obtain rfl := List.mem_singleton.1 hb
    have hsize : c.val.toNat < 256 := by omega
    exact ⟨rfl, (UInt8.toNat_ofNat_of_lt' hsize).symm⟩
  · -- Every byte of a longer form is 128 or above.
    exfalso
    split at hb
    · simp only [List.mem_cons, List.not_mem_nil, or_false] at hb
      rcases hb with hb | hb <;> exact hofNat _ (by omega) (by omega) hb
    · split at hb
      · simp only [List.mem_cons, List.not_mem_nil, or_false] at hb
        rcases hb with hb | hb | hb <;> exact hofNat _ (by omega) (by omega) hb
      · simp only [List.mem_cons, List.not_mem_nil, or_false] at hb
        rcases hb with hb | hb | hb | hb <;> exact hofNat _ (by omega) (by omega) hb

/-! ## Line feeds -/

theorem newlineOffsets_cons (n : Nat) (c : Char) (cs : List Char) :
    newlineOffsets n (c :: cs) = (if c = '\n' then [n] else []) ++ newlineOffsets (n + c.utf8Size) cs := by
  rw [newlineOffsets]
  split
  · rename_i hc
    subst hc
    rfl
  · rfl

/-- The line feeds of two runs are those of the first, and then those of the second behind it. -/
theorem newlineOffsets_append (n : Nat) (xs ys : List Char) :
    newlineOffsets n (xs ++ ys) = newlineOffsets n xs ++ newlineOffsets (n + byteLength xs) ys := by
  induction xs generalizing n with
  | nil => rfl
  | cons c xs ih =>
    rw [List.cons_append, newlineOffsets_cons, newlineOffsets_cons, ih, List.append_assoc, byteLength, Nat.add_assoc]

/-- A text that starts further on has its line feeds further on. -/
theorem newlineOffsets_add (n m : Nat) (cs : List Char) : newlineOffsets (n + m) cs = (newlineOffsets n cs).map (· + m) := by
  induction cs generalizing n with
  | nil => rfl
  | cons c cs ih =>
    rw [newlineOffsets_cons, newlineOffsets_cons, List.map_append, Nat.add_right_comm, ih]
    split <;> rfl

/-- A text has as many offsets of line feeds as line feeds. -/
theorem length_newlineOffsets (n : Nat) (cs : List Char) : (newlineOffsets n cs).length = cs.count '\n' := by
  induction cs generalizing n with
  | nil => rfl
  | cons c cs ih =>
    rw [newlineOffsets_cons, List.length_append, ih, List.count_cons, Nat.add_comm]
    by_cases hc : c = '\n'
    · simp [hc]
    · simp [hc]

/-- The offsets of line feeds are those of the bytes with the number 10. -/
theorem mem_newlineOffsets {n i : Nat} {cs : List Char} :
    i ∈ newlineOffsets n cs ↔ ∃ j, i = n + j ∧ (bytes cs)[j]? = some 10 := by
  induction cs generalizing n with
  | nil => simp [newlineOffsets, bytes]
  | cons c cs ih =>
    rw [newlineOffsets_cons, List.mem_append, ih, bytes_cons]
    constructor
    · rintro (h | ⟨j, rfl, hj⟩)
      · split at h
        · rename_i hc
          subst hc
          exact ⟨0, List.mem_singleton.1 h, rfl⟩
        · nomatch h
      · refine ⟨c.utf8Size + j, by omega, ?_⟩
        rw [List.getElem?_append_right (by simp), String.length_utf8EncodeChar, Nat.add_sub_cancel_left, hj]
    · rintro ⟨j, rfl, hj⟩
      by_cases hlt : j < (String.utf8EncodeChar c).length
      · rw [List.getElem?_append_left hlt] at hj
        obtain ⟨hone, hnum⟩ := eq_of_mem_utf8EncodeChar (List.mem_of_getElem? hj) (by decide)
        have hc : c = '\n' := Char.toNat_inj.1 hnum
        have hzero : j = 0 := by
          rw [hone, List.length_singleton] at hlt
          omega
        exact .inl (by simp [hc, hzero])
      · rw [String.length_utf8EncodeChar] at hlt
        rw [List.getElem?_append_right (by rw [String.length_utf8EncodeChar]; omega), String.length_utf8EncodeChar] at hj
        exact .inr ⟨j - c.utf8Size, by omega, hj⟩

theorem exists_of_mem_newlineOffsets {n i : Nat} {cs : List Char} (h : i ∈ newlineOffsets n cs) :
    ∃ xs ys, cs = xs ++ '\n' :: ys ∧ i = n + byteLength xs := by
  induction cs generalizing n with
  | nil => nomatch h
  | cons c cs ih =>
    rw [newlineOffsets_cons, List.mem_append] at h
    rcases h with h | h
    · split at h
      · rename_i hc
        exact ⟨[], cs, by rw [hc, List.nil_append], List.mem_singleton.1 h⟩
      · nomatch h
    · obtain ⟨xs, ys, rfl, rfl⟩ := ih h
      exact ⟨c :: xs, ys, rfl, Nat.add_assoc _ _ _⟩

/-- A byte with the number 10 is a line feed among the characters. -/
theorem getElem?_eq_feed_iff {text : String} {i : Nat} :
    text.toUTF8[i]? = some 10 ↔ ∃ xs ys, text.toList = xs ++ '\n' :: ys ∧ byteLength xs = i := by
  have hmem : text.toUTF8[i]? = some 10 ↔ i ∈ newlineOffsets 0 text.toList := by
    rw [mem_newlineOffsets, getElem?_toUTF8]
    simp
  rw [hmem]
  constructor
  · intro h
    obtain ⟨xs, ys, htext, hi⟩ := exists_of_mem_newlineOffsets h
    exact ⟨xs, ys, htext, by rw [hi, Nat.zero_add]⟩
  · rintro ⟨xs, ys, htext, rfl⟩
    rw [htext, newlineOffsets_append, newlineOffsets_cons, if_pos rfl, Nat.zero_add]
    exact List.mem_append_right _ (List.mem_append_left _ (List.mem_singleton.2 rfl))

theorem le_of_mem_newlineOffsets {n i : Nat} {cs : List Char} (h : i ∈ newlineOffsets n cs) : n ≤ i := by
  obtain ⟨j, rfl, -⟩ := mem_newlineOffsets.1 h
  exact Nat.le_add_right n j

theorem pairwise_newlineOffsets (n : Nat) (cs : List Char) : (newlineOffsets n cs).Pairwise (· < ·) := by
  induction cs generalizing n with
  | nil => exact .nil
  | cons c cs ih =>
    rw [newlineOffsets]
    split
    · exact List.pairwise_cons.2 ⟨fun i hi => Nat.lt_of_succ_le (le_of_mem_newlineOffsets hi), ih (n + 1)⟩
    · exact ih (n + c.utf8Size)

end Courier.Text
