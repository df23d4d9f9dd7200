import Courier.Proofs.Text.Lines
import Courier.Text.Class
import Courier.Text.Slice
import Courier.Token.Kind

/-!
# Bytes and slices of a text

Whether a lookup by a number of bytes succeeds depends on where characters begin. A byte of a character tells all that the classes of
characters tell of the character itself (`Shadows`), every byte but the first goes on with it (`Continues`), and a slice between two
characters is the characters in between (`slice?_eq`).
-/

namespace Courier.Text

/-! ## The bytes of a character -/

/-- A byte that goes on with a character. -/
def Continues (b : UInt8) : Prop :=
  128 ≤ b.toNat ∧ b.toNat < 192

theorem continues_iff (b : UInt8) : b &&& 0xC0 = 0x80 ↔ Continues b := by
  have hall : ∀ n < 256, (UInt8.ofNat n &&& 0xC0 = 0x80 ↔ 128 ≤ n ∧ n < 192) := by decide +kernel
  have hb := hall b.toNat b.toNat_lt
  rwa [UInt8.ofNat_toNat] at hb

/-- A byte, read as a character, shadows a character: it is the character, or both are beyond ASCII. -/
def Shadows (b : UInt8) (c : Char) : Prop :=
  Char.ofUInt8 b = c ∧ c.toNat < 128 ∨ 128 ≤ b.toNat ∧ 128 ≤ c.toNat

theorem toNat_ofUInt8 (b : UInt8) : (Char.ofUInt8 b).toNat = b.toNat :=
  rfl

/-- A byte that shadows an ASCII character is the byte of that character, and shadows no other. -/
theorem Shadows.eq_iff {b e : UInt8} {c : Char} (h : Shadows b c) (he : e.toNat < 128) : b = e ↔ c = Char.ofUInt8 e := by
  constructor
  · rintro rfl
    rcases h with ⟨rfl, -⟩ | ⟨hb, -⟩
    · rfl
    · omega
  · rintro rfl
    rcases h with ⟨hb, -⟩ | ⟨-, hc⟩
    · have hnum := congrArg Char.toNat hb
      exact UInt8.toNat_inj.1 hnum
    · rw [toNat_ofUInt8] at hc
      omega

/-- A byte that shadows an ASCII character is that character. -/
theorem Shadows.ofUInt8_eq {b : UInt8} {c : Char} (h : Shadows b c) (hc : c.toNat < 128) : Char.ofUInt8 b = c :=
  h.elim And.left (fun hbeyond => by omega)

/-- The bytes of a character are one that shadows it and others that go on with it; an ASCII character has one byte. -/
theorem exists_utf8EncodeChar (c : Char) : ∃ b rest, String.utf8EncodeChar c = b :: rest ∧ (Shadows b c ∧ ¬Continues b) ∧
    (∀ d ∈ rest, Continues d) ∧ (c.toNat < 128 → rest = []) := by
  have hcontinues : ∀ n : Nat, Continues (UInt8.ofNat (n % 64 + 128)) := by
    intro n
    have hn : (UInt8.ofNat (n % 64 + 128)).toNat = n % 64 + 128 := UInt8.toNat_ofNat_of_lt' (by simp [UInt8.size]; omega)
    exact ⟨by omega, by omega⟩
  have hlead : ∀ n : Nat, 192 ≤ n → n < 256 → 127 < c.toNat → Shadows (UInt8.ofNat n) c ∧ ¬Continues (UInt8.ofNat n) := by
    intro n hn hlt hc
    have hnum : (UInt8.ofNat n).toNat = n := UInt8.toNat_ofNat_of_lt' (by simpa [UInt8.size] using hlt)
    exact ⟨.inr ⟨by omega, hc⟩, fun hcontinues => by have hhigh := hcontinues.2; omega⟩
  have hval : c.val.toNat = c.toNat := Char.toNat_val
  have hone : ∀ {b : UInt8}, Continues b → ∀ d ∈ [b], Continues d := fun hb d hd => List.mem_singleton.1 hd ▸ hb
  unfold String.utf8EncodeChar
  simp only [hval]
  split
  · have hnum : (UInt8.ofNat c.toNat).toNat = c.toNat := UInt8.toNat_ofNat_of_lt' (by simp [UInt8.size]; omega)
    refine ⟨_, [], rfl, ⟨.inl ⟨Char.toNat_inj.1 hnum, by omega⟩, fun hcontinues => ?_⟩, fun _ hd => absurd hd List.not_mem_nil,
      fun _ => rfl⟩
    have hlow := hcontinues.1
    omega
  split
  · exact ⟨_, _, rfl, hlead _ (by omega) (by omega) (by omega), hone (hcontinues _), fun _ => by omega⟩
  split
  · refine ⟨_, _, rfl, hlead _ (by omega) (by omega) (by omega), ?_, fun _ => by omega⟩
    exact List.forall_mem_cons.2 ⟨hcontinues _, hone (hcontinues _)⟩
  · refine ⟨_, _, rfl, hlead _ (by omega) (by omega) (by omega), ?_, fun _ => by omega⟩
    exact List.forall_mem_cons.2 ⟨hcontinues _, List.forall_mem_cons.2 ⟨hcontinues _, hone (hcontinues _)⟩⟩

theorem utf8Size_of_lt {c : Char} (h : c.toNat < 128) : c.utf8Size = 1 := by
  obtain ⟨b, rest, hbytes, -, -, hone⟩ := exists_utf8EncodeChar c
  rw [← String.length_utf8EncodeChar, hbytes, hone h]
  rfl

/-- An ASCII character adds one byte, which is the character. -/
theorem exists_bytes_concat (cs : List Char) {c : Char} (hc : c.toNat < 128) :
    ∃ b, bytes (cs ++ [c]) = bytes cs ++ [b] ∧ Char.ofUInt8 b = c := by
  obtain ⟨b, rest, hbytes, ⟨hshadows, -⟩, -, hone⟩ := exists_utf8EncodeChar c
  refine ⟨b, ?_, hshadows.ofUInt8_eq hc⟩
  rw [bytes_append, bytes_cons, hbytes, hone hc]
  rfl

theorem toUTF8_data (text : String) : text.toUTF8.data.toList = bytes text.toList := by
  rw [String.toUTF8_eq_toByteArray, ← String.utf8Encode_toList, List.utf8Encode, List.data_toByteArray, bytes]

/-- Between two characters stands the first byte of the second. -/
theorem exists_getElem?_bytes (xs : List Char) (c : Char) (ys : List Char) :
    ∃ b, (bytes (xs ++ c :: ys))[byteLength xs]? = some b ∧ Shadows b c ∧ ¬Continues b := by
  obtain ⟨b, rest, hbytes, hb, -⟩ := exists_utf8EncodeChar c
  refine ⟨b, ?_, hb⟩
  rw [bytes_append, bytes_cons, hbytes, List.getElem?_append_right (by rw [length_bytes]), length_bytes, Nat.sub_self]
  rfl

/-- Inside a character stands a byte that goes on with it. -/
theorem exists_getElem?_inside (xs : List Char) (c : Char) (ys : List Char) {i : Nat} (hi : 0 < i) (hlt : i < c.utf8Size) :
    ∃ b, (bytes (xs ++ c :: ys))[byteLength xs + i]? = some b ∧ Continues b := by
  obtain ⟨b, rest, hbytes, -, hrest, -⟩ := exists_utf8EncodeChar c
  obtain ⟨j, rfl⟩ := Nat.exists_eq_succ_of_ne_zero (Nat.ne_of_gt hi)
  have hlength := String.length_utf8EncodeChar c
  rw [hbytes, List.length_cons] at hlength
  have hj : j < rest.length := by omega
  refine ⟨rest[j], ?_, hrest _ (List.getElem_mem hj)⟩
  rw [bytes_append, bytes_cons, hbytes, List.getElem?_append_right (by rw [length_bytes]; omega), length_bytes,
    Nat.add_sub_cancel_left, List.getElem?_append_left (by rw [List.length_cons]; omega), List.getElem?_cons_succ,
    List.getElem?_eq_getElem hj]

/-- In front of what follows a character stands its last byte. -/
theorem exists_getElem?_last (xs : List Char) (c : Char) (ys : List Char) :
    ∃ i b, byteLength (xs ++ [c]) = i + 1 ∧ (bytes (xs ++ c :: ys))[i]? = some b ∧ Shadows b c := by
  have hsize := c.utf8Size_pos
  have hlength : byteLength (xs ++ [c]) = byteLength xs + c.utf8Size := by
    rw [byteLength_append]
    rfl
  by_cases hone : c.utf8Size = 1
  · obtain ⟨b, hb, hshadows, -⟩ := exists_getElem?_bytes xs c ys
    exact ⟨_, b, by rw [hlength, hone], hb, hshadows⟩
  · obtain ⟨b, hb, hcontinues⟩ := exists_getElem?_inside xs c ys (i := c.utf8Size - 1) (by omega) (by omega)
    refine ⟨_, b, by omega, hb, .inr ⟨hcontinues.1, ?_⟩⟩
    by_contra hascii
    exact hone (utf8Size_of_lt (by omega))

/-! ## Characters beyond ASCII -/

/-- A character beyond ASCII is none of the characters that the scanner tells apart. -/
structure Beyond (c : Char) : Prop where
  blank : isBlank c = false
  letter : isLetter c = false
  digit : isDigit c = false
  hex : isHexDigit c = false
  binary : isBinaryDigit c = false
  reserved : isReserved c = false
  quote : isQuote c = false
  mark : isCommentMark c = false
  single : TokenKind.ofChar? c = none
  ne : ∀ d ∈ [':', '.', 'x', 'X', 'b', 'B', '=', '{', '}', '\n'], c ≠ d

theorem beyond_of_le {c : Char} (h : 128 ≤ c.toNat) : Beyond c := by
  have hne : ∀ d : Char, d.toNat < 128 → c ≠ d := by
    rintro d hd rfl
    omega
  have hle : ∀ d : Char, d.toNat < 128 → ¬c ≤ d := by
    intro d hd hcd
    have hnat : c.toNat ≤ d.toNat := Char.le_def.1 hcd
    omega
  have hmem : ∀ ds : List Char, ds.all (fun d => d.toNat < 128) = true → c ∉ ds := fun ds hds hc =>
    hne c (of_decide_eq_true (List.all_eq_true.1 hds c hc)) rfl
  constructor
  · simp [isBlank, hne]
  · simp [isLetter, hle, hne]
  · simp [isDigit, hle]
  · simp [isHexDigit, isDigit, hle]
  · simp [isBinaryDigit, hne]
  · rw [isReserved, List.contains_eq_mem, decide_eq_false_iff_not]
    exact hmem _ (by decide)
  · simp [isQuote, hne]
  · simp [isCommentMark, hne]
  · unfold TokenKind.ofChar?
    split <;> first | rfl | exact absurd h (by decide)
  · exact fun d hd hc => hmem _ (by decide) (hc ▸ hd)

/-- A class without characters beyond ASCII holds ASCII characters only. -/
theorem ascii_of {p : Char → Bool} (hp : ∀ {c : Char}, Beyond c → p c = false) {c : Char} (h : p c = true) : c.toNat < 128 := by
  by_contra hc
  rw [hp (beyond_of_le (Nat.not_lt.1 hc))] at h
  nomatch h

theorem ascii_of_ofChar? {c : Char} {kind : TokenKind} (h : TokenKind.ofChar? c = some kind) : c.toNat < 128 := by
  by_contra hc
  rw [(beyond_of_le (Nat.not_lt.1 hc)).single] at h
  nomatch h

/-! ## Slices -/

theorem dropBytes?_eq (xs ys : List Char) : dropBytes? (byteLength xs) (xs ++ ys) = some ys := by
  induction xs with
  | nil =>
    rw [byteLength, dropBytes?]
    rfl
  | cons c xs ih =>
    obtain ⟨n, hn⟩ := Nat.exists_eq_succ_of_ne_zero (Nat.ne_of_gt c.utf8Size_pos)
    have hlength : byteLength (c :: xs) = n + byteLength xs + 1 := by
      rw [byteLength, hn]
      omega
    rw [hlength, List.cons_append, dropBytes?, if_pos (by omega), ← ih]
    congr 1
    omega

theorem takeBytes?_eq (xs ys : List Char) : takeBytes? (byteLength xs) (xs ++ ys) = some xs := by
  induction xs with
  | nil => rw [byteLength, takeBytes?]
  | cons c xs ih =>
    obtain ⟨n, hn⟩ := Nat.exists_eq_succ_of_ne_zero (Nat.ne_of_gt c.utf8Size_pos)
    have hlength : byteLength (c :: xs) = n + byteLength xs + 1 := by
      rw [byteLength, hn]
      omega
    have hrest : n + byteLength xs + 1 - c.utf8Size = byteLength xs := by omega
    rw [hlength, List.cons_append, takeBytes?, if_pos (by omega), hrest, ih]
    rfl

/-- Bytes that can be taken are those of characters that begin the text. -/
theorem exists_append_of_takeBytes? {n : Nat} {cs xs : List Char} (h : takeBytes? n cs = some xs) :
    ∃ ys, cs = xs ++ ys ∧ byteLength xs = n := by
  fun_induction takeBytes? n cs generalizing xs with
  | case1 cs =>
    obtain rfl := Option.some.inj h
    exact ⟨cs, rfl, rfl⟩
  | case2 n => nomatch h
  | case3 n c cs hle ih =>
    obtain ⟨xs, hxs, rfl⟩ := Option.map_eq_some_iff.1 h
    obtain ⟨ys, rfl, hlength⟩ := ih hxs
    refine ⟨ys, rfl, ?_⟩
    rw [byteLength, hlength, Nat.add_sub_cancel' hle]
  | case4 n c cs hgt => nomatch h

/-- A slice from the start of the text is that of characters that begin it. -/
theorem exists_append_of_slice? {stop : Nat} {cs xs : List Char} (h : slice? cs 0 stop = some xs) :
    ∃ ys, cs = xs ++ ys ∧ byteLength xs = stop := by
  rw [slice?, if_pos (Nat.zero_le stop), dropBytes?, Option.bind_some, Nat.sub_zero] at h
  exact exists_append_of_takeBytes? h

/-- A slice between two characters is what stands between them. -/
theorem slice?_eq {cs : List Char} (xs ys zs : List Char) (h : cs = xs ++ (ys ++ zs)) :
    slice? cs (byteLength xs) (byteLength (xs ++ ys)) = some ys := by
  rw [slice?, byteLength_append, if_pos (Nat.le_add_right _ _), h, dropBytes?_eq, Nat.add_sub_cancel_left, Option.bind_some,
    takeBytes?_eq]

end Courier.Text
