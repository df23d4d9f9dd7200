import Courier.Text.Line
import Mathlib.Data.List.Basic
import Mathlib.Data.List.Induction
import Mathlib.Data.List.TakeWhile

/-!
# Places, counted

`IsPlace cs p` says of a place that its numbers are right, without moving it there: the text before it is some whole lines and the
front of one more, the line counts the whole lines and the column the characters of that front. Each offset has one place at most
(`IsPlace.unique`). A place that is moved over the text character by character is right all the way (`isPlace_after`), and so is the
place behind the last character, which is counted back from the end (`isPlace_endOfText`).
-/

namespace Courier.Text

/-- Whole lines: nothing, or characters up to a line feed. -/
def WholeLines (cs : List Char) : Prop :=
  cs = [] ∨ cs.getLast? = some '\n'

/-- The numbers of a place in a text are right: before it stand whole lines and the front of a line. -/
def IsPlace (cs : List Char) (p : Location) : Prop :=
  ∃ lines front rest, cs = lines ++ (front ++ rest) ∧ WholeLines lines ∧ '\n' ∉ front ∧
    p = ⟨lines.count '\n' + 1, front.length + 1, byteLength (lines ++ front)⟩

/-- Of two runs that begin a text, one begins the other. -/
theorem append_or_append {xs ys us vs : List Char} (h : xs ++ us = ys ++ vs) :
    (∃ d, ys = xs ++ d) ∨ ∃ d, xs = ys ++ d := by
  rcases List.append_eq_append_iff.1 h with ⟨d, hd, -⟩ | ⟨d, hd, -⟩
  · exact .inl ⟨d, hd⟩
  · exact .inr ⟨d, hd⟩

/-- Runs that take no byte are empty. -/
theorem eq_nil_of_byteLength {cs : List Char} (h : byteLength cs = 0) : cs = [] := by
  cases cs with
  | nil => rfl
  | cons c cs =>
    have hpos := c.utf8Size_pos
    rw [byteLength] at h
    omega

/-- Of two runs that begin a text, the one that takes no more bytes begins the other. -/
theorem exists_append_of_byteLength_le {xs ys us vs : List Char} (h : xs ++ us = ys ++ vs) (hle : byteLength xs ≤ byteLength ys) :
    ∃ d, ys = xs ++ d := by
  rcases append_or_append h with hys | ⟨d, rfl⟩
  · exact hys
  · rw [byteLength_append] at hle
    have hd : d = [] := eq_nil_of_byteLength (by omega)
    exact ⟨[], by rw [hd, List.append_nil, List.append_nil]⟩

/-- Two runs that begin a text and take as many bytes are one. -/
theorem eq_of_byteLength_eq {xs ys us vs : List Char} (h : xs ++ us = ys ++ vs) (hlen : byteLength xs = byteLength ys) :
    xs = ys := by
  obtain ⟨d, rfl⟩ := exists_append_of_byteLength_le h (Nat.le_of_eq hlen)
  rw [byteLength_append] at hlen
  rw [eq_nil_of_byteLength (by omega : byteLength d = 0), List.append_nil]

/-- Whole lines with the front of a line behind them are as many characters as any other such split of the same text: a longer front
would hold the line feed that ends the other's lines. -/
theorem front_eq {lines lines' front front' : List Char} (h : lines ++ front = lines' ++ front') (hl : WholeLines lines)
    (hl' : WholeLines lines') (hf : '\n' ∉ front) (hf' : '\n' ∉ front') : front = front' := by
  have hrest : ∀ {xs d ys front front' : List Char}, xs ++ d = ys → xs ++ front = ys ++ front' → WholeLines ys →
      '\n' ∉ front → d = [] := by
    intro xs d ys front front' hd happ hys hfront
    subst hd
    rw [List.append_assoc] at happ
    rw [List.append_cancel_left happ] at hfront
    by_contra hne
    rcases hys with hnil | hlast
    · exact hne (List.append_eq_nil_iff.1 hnil).2
    · rw [List.getLast?_append_of_ne_nil _ hne] at hlast
      exact hfront (List.mem_append_left _ (List.mem_of_getLast? hlast))
  rcases append_or_append h with ⟨d, hd⟩ | ⟨d, hd⟩
  · rw [hrest hd.symm h hl' hf, List.append_nil] at hd
    exact List.append_cancel_left (hd ▸ h)
  · rw [hrest hd.symm h.symm hl hf', List.append_nil] at hd
    exact List.append_cancel_left (hd ▸ h)

/-- An offset has one place at most. -/
theorem IsPlace.unique {cs : List Char} {p q : Location} (hp : IsPlace cs p) (hq : IsPlace cs q) (h : p.offset = q.offset) :
    p = q := by
  obtain ⟨lines, front, rest, hcs, hl, hf, rfl⟩ := hp
  obtain ⟨lines', front', rest', hcs', hl', hf', rfl⟩ := hq
  rw [← List.append_assoc] at hcs hcs'
  have hsame : lines ++ front = lines' ++ front' := eq_of_byteLength_eq (hcs.symm.trans hcs') h
  obtain rfl := front_eq hsame hl hl' hf hf'
  obtain rfl := List.append_cancel_right hsame
  rfl

/-- Moving over a text from its start is counting its lines and the characters of the last. -/
theorem isPlace_after (cs rest : List Char) : IsPlace (cs ++ rest) (Location.start.after cs) := by
  induction cs using List.reverseRecOn generalizing rest with
  | nil => exact ⟨[], [], rest, rfl, .inl rfl, List.not_mem_nil, rfl⟩
  | append_singleton cs c ih =>
    obtain ⟨lines, front, rest', hcs, hl, hf, hplace⟩ := ih []
    have hoffset := offset_after .start cs
    rw [hplace] at hoffset
    have hfront : rest' = [] := by
      refine eq_nil_of_byteLength ?_
      have hlen := congrArg byteLength hcs
      simp only [List.append_nil, byteLength_append, Location.start] at hlen hoffset
      omega
    rw [hfront, List.append_nil, List.append_nil] at hcs
    rw [Location.after_append, hplace, Location.after_cons, Location.after_nil, Location.next]
    split
    · -- The line feed closes the line at hand.
      rename_i hc
      subst hc
      refine ⟨cs ++ ['\n'], [], rest, by simp, .inr (by simp), List.not_mem_nil, ?_⟩
      rw [hcs, List.count_append, List.count_append, List.count_eq_zero_of_not_mem hf, List.append_nil,
        byteLength_append (lines ++ front)]
      rfl
    · rename_i hc
      refine ⟨lines, front ++ [c], rest, by simp [hcs], hl, ?_, ?_⟩
      · rw [List.mem_append, List.mem_singleton]
        rintro (h | h)
        · exact hf h
        · exact hc h.symm
      · simp [byteLength, Nat.add_assoc]

/-- A text is whole lines, and its last line behind them. -/
theorem exists_lastLine (cs : List Char) : ∃ lines, cs = lines ++ lastLine cs ∧ WholeLines lines ∧ '\n' ∉ lastLine cs := by
  refine ⟨(cs.reverse.dropWhile (· != '\n')).reverse, ?_, ?_, fun hmem => ?_⟩
  · rw [lastLine, ← List.reverse_append, List.takeWhile_append_dropWhile, List.reverse_reverse]
  · cases hlines : cs.reverse.dropWhile (· != '\n') with
    | nil => exact .inl rfl
    | cons c rest =>
      have hnot := List.head?_dropWhile_not (· != '\n') cs.reverse
      rw [hlines] at hnot
      have hc : c = '\n' := by simpa using hnot
      exact .inr (by simp [hc])
  · rw [lastLine, List.mem_reverse] at hmem
    simpa using List.mem_takeWhile_imp hmem

/-- The place behind the last character is right. -/
theorem isPlace_endOfText (text : String) : IsPlace text.toList (endOfText text) := by
  obtain ⟨lines, hsplit, hlines, hfront⟩ := exists_lastLine text.toList
  refine ⟨lines, lastLine text.toList, [], by rw [List.append_nil, ← hsplit], hlines, hfront, ?_⟩
  have hcount : text.toList.count '\n' = lines.count '\n' := by
    conv_lhs => rw [hsplit]
    rw [List.count_append, List.count_eq_zero_of_not_mem hfront, Nat.add_zero]
  rw [endOfText, ← hsplit, ← hcount, List.count, List.countP_eq_length_filter]

end Courier.Text
