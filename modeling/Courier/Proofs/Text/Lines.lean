import Courier.Proofs.Text.Bytes
import Courier.Proofs.Text.Place

/-!
# The line of a place

A diagnostic shows a place and a line. `Shows text p line` says that they belong together: the text is whole lines, then the line of the
place, which the place cuts in two, and then nothing or a line feed; the numbers of the place are counted from that, and the line is
shown without a carriage return at its end. The line that is looked up by the offset of a right place is of this kind (`shows_lineAt`).
-/

namespace Courier.Text

/-- A line without one carriage return at its end. -/
def withoutReturn (line : List Char) : List Char :=
  if line.getLast? = some '\r' then line.dropLast else line

/-- The place lies in the text between two characters, its numbers are right, and the line shown is the one that holds it. -/
structure Shows (text : String) (p : Location) (shown : String) : Prop where
  offset_le : p.offset ≤ text.utf8ByteSize
  boundary : (⟨p.offset⟩ : String.Pos.Raw).IsValid text
  /-- The text is whole lines, the line of the place, and the rest. -/
  line : ∃ lines front back rest, text.toList = lines ++ (front ++ (back ++ rest)) ∧ WholeLines lines ∧ '\n' ∉ front ++ back ∧
    (rest = [] ∨ rest.head? = some '\n') ∧ p.line = lines.count '\n' + 1 ∧ p.column = front.length + 1 ∧
    p.offset = byteLength (lines ++ front) ∧ shown = String.ofList (withoutReturn (front ++ back))

/-! ## Passing lines -/

theorem lineAhead_cons {c : Char} (hc : c ≠ '\n') (seen : List Char) (n : Nat) (cs : List Char) :
    lineAhead seen n (c :: cs) = lineAhead (c :: seen) (n - c.utf8Size) cs :=
  if_neg hc

/-- Characters of the line at hand are passed and seen. -/
theorem lineAhead_append {xs : List Char} (h : '\n' ∉ xs) (seen : List Char) (n : Nat) (ys : List Char) :
    lineAhead seen n (xs ++ ys) = lineAhead (xs.reverse ++ seen) (n - byteLength xs) ys := by
  induction xs generalizing seen n with
  | nil => rfl
  | cons c xs ih =>
    have hc : c ≠ '\n' := fun hc => h (hc ▸ List.mem_cons_self)
    have hxs : '\n' ∉ xs := fun hmem => h (List.mem_cons_of_mem c hmem)
    rw [List.cons_append, lineAhead_cons hc, ih hxs, List.reverse_cons, List.append_assoc, byteLength, Nat.sub_sub]
    rfl

/-- Behind a line feed, nothing of what stands before it is seen. -/
theorem lineAhead_feed (seen xs : List Char) (n : Nat) (ys : List Char) :
    lineAhead seen (byteLength (xs ++ ['\n']) + n) (xs ++ '\n' :: ys) = lineAhead [] n ys := by
  induction xs generalizing seen with
  | nil =>
    have hone : byteLength ([] ++ ['\n']) + n = n + 1 := Nat.add_comm 1 n
    rw [hone]
    rfl
  | cons c xs ih =>
    by_cases hc : c = '\n'
    · subst hc
      have hlen : byteLength ('\n' :: xs ++ ['\n']) + n = byteLength (xs ++ ['\n']) + n + 1 := by
        have hone : Char.utf8Size '\n' = 1 := rfl
        rw [List.cons_append, byteLength, hone]
        omega
      rw [hlen]
      exact ih []
    · rw [List.cons_append, List.cons_append, lineAhead_cons hc, byteLength, Nat.add_assoc, Nat.add_sub_cancel_left]
      exact ih (c :: seen)

/-- Whole lines are passed. -/
theorem lineAhead_lines {lines : List Char} (h : WholeLines lines) (n : Nat) (ys : List Char) :
    lineAhead [] (byteLength lines + n) (lines ++ ys) = lineAhead [] n ys := by
  rcases h with rfl | h
  · rw [byteLength, Nat.zero_add, List.nil_append]
  · obtain ⟨xs, rfl⟩ := List.getLast?_eq_some_iff.1 h
    rw [List.append_assoc]
    exact lineAhead_feed [] xs n ys

/-- A line ends before a line feed and at the end of the text. -/
theorem lineAhead_end {rest : List Char} (h : rest = [] ∨ rest.head? = some '\n') (seen : List Char) :
    lineAhead seen 0 rest = seen := by
  rcases h with rfl | h
  · rfl
  · obtain ⟨cs, rfl⟩ := List.head?_eq_some_iff.1 h
    rfl

theorem reverse_dropReturn (line : List Char) : (dropReturn line.reverse).reverse = withoutReturn line := by
  unfold withoutReturn
  rw [← List.head?_reverse]
  cases hline : line.reverse with
  | nil =>
    rw [List.reverse_eq_nil_iff.1 hline]
    rfl
  | cons c cs =>
    have hback : line = cs.reverse ++ [c] := by rw [← List.reverse_reverse line, hline, List.reverse_cons]
    rw [List.head?_cons]
    by_cases hc : c = '\r'
    · subst hc
      rw [if_pos rfl, hback, List.dropLast_concat]
      rfl
    · have hkeep : dropReturn (c :: cs) = c :: cs := by
        unfold dropReturn
        split
        · rename_i heq
          exact absurd (List.cons.inj heq).1 hc
        · rfl
      rw [if_neg (by simpa using hc), hkeep, hback, List.reverse_cons]

/-- The line that holds an offset is the one around it; an offset past the end lies on the last line. -/
theorem lineAt_of_le {text : String} {lines line rest : List Char} {n : Nat} (htext : text.toList = lines ++ (line ++ rest))
    (hlines : WholeLines lines) (hline : '\n' ∉ line) (hrest : rest = [] ∨ rest.head? = some '\n') (hle : byteLength lines ≤ n)
    (hn : rest = [] ∨ n ≤ byteLength (lines ++ line)) : lineAt text n = String.ofList (withoutReturn line) := by
  obtain ⟨m, rfl⟩ := Nat.exists_eq_add_of_le hle
  have hend : lineAhead (line.reverse ++ []) (m - byteLength line) rest = line.reverse := by
    rw [List.append_nil]
    rcases hn with rfl | hn
    · rfl
    · rw [byteLength_append] at hn
      rw [Nat.sub_eq_zero_of_le (Nat.le_of_add_le_add_left hn), lineAhead_end hrest]
  rw [lineAt, htext, lineAhead_lines hlines, lineAhead_append hline, hend, reverse_dropReturn]

/-- The line around a place between two characters. -/
theorem lineAt_eq {text : String} {lines front back rest : List Char} (htext : text.toList = lines ++ (front ++ (back ++ rest)))
    (hlines : WholeLines lines) (hline : '\n' ∉ front ++ back) (hrest : rest = [] ∨ rest.head? = some '\n') :
    lineAt text (byteLength (lines ++ front)) = String.ofList (withoutReturn (front ++ back)) := by
  rw [← List.append_assoc front] at htext
  refine lineAt_of_le htext hlines hline hrest ?_ (.inr ?_)
  · rw [byteLength_append]
    exact Nat.le_add_right _ _
  · rw [← List.append_assoc, byteLength_append (lines ++ front)]
    exact Nat.le_add_right _ _

/-- A text is what is left of the line at hand, and the rest behind it. -/
theorem exists_restOfLine (cs : List Char) : ∃ rest, cs = cs.takeWhile (· != '\n') ++ rest ∧ '\n' ∉ cs.takeWhile (· != '\n') ∧
    (rest = [] ∨ rest.head? = some '\n') := by
  refine ⟨cs.dropWhile (· != '\n'), List.takeWhile_append_dropWhile.symm, fun hmem => ?_, ?_⟩
  · simpa using List.mem_takeWhile_imp hmem
  · cases hdrop : cs.dropWhile (· != '\n') with
    | nil => exact .inl rfl
    | cons c rest =>
      have hnot := List.head?_dropWhile_not (· != '\n') cs
      rw [hdrop] at hnot
      exact .inr (by simpa using hnot)

/-! ## Right places -/

/-- Behind a run of characters, a text can be cut. -/
theorem isValid_of_eq_append {text : String} {xs ys : List Char} (h : text.toList = xs ++ ys) :
    (⟨byteLength xs⟩ : String.Pos.Raw).IsValid text := by
  have hwhole : text = String.ofList xs ++ String.ofList ys := by
    rw [← String.toList_inj, String.toList_append, String.toList_ofList, String.toList_ofList, h]
  have hsize : (String.ofList xs).utf8ByteSize = byteLength xs := by rw [utf8ByteSize_eq, String.toList_ofList]
  refine String.Pos.Raw.isValid_iff_exists_append.2 ⟨_, _, hwhole, ?_⟩
  rw [← hsize]
  rfl

/-- Where a text can be cut, it is cut into two runs of characters. -/
theorem exists_append_of_isValid {text : String} {n : Nat} (h : (⟨n⟩ : String.Pos.Raw).IsValid text) :
    ∃ xs ys, text.toList = xs ++ ys ∧ byteLength xs = n := by
  obtain ⟨front, back, rfl, hn⟩ := String.Pos.Raw.isValid_iff_exists_append.1 h
  refine ⟨front.toList, back.toList, String.toList_append, ?_⟩
  rw [← utf8ByteSize_eq]
  exact (congrArg String.Pos.Raw.byteIdx hn).symm

/-- A right place and the line that is looked up by its offset belong together. -/
theorem shows_lineAt {text : String} {p : Location} (h : IsPlace text.toList p) : Shows text p (lineAt text p.offset) := by
  obtain ⟨lines, front, behind, htext, hlines, hfront, rfl⟩ := h
  obtain ⟨rest, hsplit, hback, hrest⟩ := exists_restOfLine behind
  have hline : '\n' ∉ front ++ behind.takeWhile (· != '\n') := by
    rw [List.mem_append]
    exact fun hmem => hmem.elim hfront hback
  rw [hsplit] at htext
  refine ⟨?_, ?_, lines, front, _, _, htext, hlines, hline, hrest, rfl, rfl, rfl, lineAt_eq htext hlines hline hrest⟩
  · rw [utf8ByteSize_eq, htext, ← List.append_assoc, byteLength_append (lines ++ front)]
    exact Nat.le_add_right _ _
  · have hcut : text.toList = lines ++ front ++ behind := by rw [htext, ← hsplit, List.append_assoc]
    exact isValid_of_eq_append hcut

end Courier.Text
