import Courier.Proofs.Text.Slices
import Courier.Token.Automaton

/-!
# Where the automaton stands

The automaton counts bytes, and a scan passes characters. `a.Stands passed left owed` joins the two: the place of the automaton is the
place behind some characters, though it may still owe some bytes of the last of them. Where none is owed, a byte at hand shadows the
character at hand, and a slice from or to there finds characters; inside a character only a byte can be passed.
-/

namespace Courier.Automaton

variable {a b : Automaton} {passed left : List Char} {owed : Nat} {d : Char}

/-! ## Where the automaton stands -/

/-- The automaton stands in its text behind some characters, but for as many bytes of the last of them as are owed. -/
structure Stands (a : Automaton) (passed left : List Char) (owed : Nat) : Prop where
  text : a.text.toList = passed ++ left
  pos : a.pos + owed = Text.byteLength passed
  line : a.line = (Location.start.after passed).line
  column : a.column = (Location.start.after passed).column
  newlines : a.newlines = Text.newlineOffsets 0 passed
  inside : 0 < owed → ∃ front c, passed = front ++ [c] ∧ owed < c.utf8Size

theorem src_eq (a : Automaton) : a.src = Text.bytes a.text.toList :=
  Text.toUTF8_data a.text

theorem length_src (a : Automaton) : a.src.length = Text.byteLength a.text.toList := by
  rw [src_eq, Text.length_bytes]

theorem Stands.here_eq (h : a.Stands passed left 0) : a.here = Location.start.after passed := by
  have hoffset := Text.offset_after .start passed
  have hpos := h.pos
  rw [Location.start, Nat.zero_add] at hoffset
  rw [here, h.line, h.column, ← Nat.add_zero a.pos, hpos, ← hoffset]
  rfl

theorem Stands.pos_le (h : a.Stands passed left owed) : a.pos ≤ a.src.length := by
  rw [length_src, h.text, Text.byteLength_append]
  have hpos := h.pos
  omega

theorem Stands.lt_length (h : a.Stands passed (d :: left) owed) : a.pos < a.src.length := by
  rw [length_src, h.text, Text.byteLength_append, Text.byteLength]
  have hpos := h.pos
  have hsize := d.utf8Size_pos
  omega

/-- The byte at hand shadows the character at hand. -/
theorem Stands.byteAt_eq (h : a.Stands passed (d :: left) 0) : ∃ b, a.byteAt a.pos = .ok b ∧ Text.Shadows b d ∧ ¬Text.Continues b := by
  obtain ⟨b, hb, hshadows⟩ := Text.exists_getElem?_bytes passed d left
  refine ⟨b, ?_, hshadows⟩
  rw [byteAt, src_eq, h.text, ← Nat.add_zero a.pos, h.pos, hb]

/-- Inside a character, the byte at hand goes on with it. -/
theorem Stands.byteAt_inside (h : a.Stands passed left (owed + 1)) : ∃ b, a.byteAt a.pos = .ok b ∧ Text.Continues b := by
  obtain ⟨front, c, rfl, hlt⟩ := h.inside (Nat.succ_pos owed)
  have hpos := h.pos
  rw [Text.byteLength_append, Text.byteLength, Text.byteLength] at hpos
  obtain ⟨b, hb, hcontinues⟩ := Text.exists_getElem?_inside front c left (i := c.utf8Size - (owed + 1)) (by omega) (by omega)
  refine ⟨b, ?_, hcontinues⟩
  have htext : a.text.toList = front ++ c :: left := by
    rw [h.text, List.append_assoc]
    rfl
  have hindex : a.pos = Text.byteLength front + (c.utf8Size - (owed + 1)) := by omega
  rw [byteAt, src_eq, htext, hindex, hb]

/-! ## Passing a byte -/

/-- One byte was passed, and nothing else was done. -/
structure Bumped (a b : Automaton) : Prop where
  text : b.text = a.text
  pos : b.pos = a.pos + 1
  states : b.states = a.states
  start : b.start = a.start
  tokens : b.tokens = a.tokens

/-- The first byte of a character is passed: the place is behind the character, and its other bytes are owed. -/
theorem Stands.bump_eq (h : a.Stands passed (d :: left) 0) :
    ∃ b, a.bump = .ok b ∧ a.Bumped b ∧ b.Stands (passed ++ [d]) left (d.utf8Size - 1) := by
  obtain ⟨byte, hbyte, hshadows, hlead⟩ := h.byteAt_eq
  have hpos := h.pos
  have hsize := d.utf8Size_pos
  have htext : a.text.toList = passed ++ [d] ++ left := by
    rw [h.text, List.append_assoc]
    rfl
  have hlength : Text.byteLength (passed ++ [d]) = Text.byteLength passed + d.utf8Size := by
    rw [Text.byteLength_append]
    rfl
  have hinside : 0 < d.utf8Size - 1 → ∃ front c, passed ++ [d] = front ++ [c] ∧ d.utf8Size - 1 < c.utf8Size :=
    fun _ => ⟨passed, d, rfl, by omega⟩
  have hplace : Location.start.after (passed ++ [d]) = (Location.start.after passed).next d := Location.after_append _ _ _
  have hnewlines : Text.newlineOffsets 0 (passed ++ [d]) = a.newlines ++ if d = '\n' then [a.pos] else [] := by
    rw [Text.newlineOffsets_append, Text.newlineOffsets_cons, h.newlines, ← h.pos]
    simp [Text.newlineOffsets]
  have hfeed : byte = 10 ↔ d = '\n' := hshadows.eq_iff (by decide)
  have hbits : byte &&& 0xC0 ≠ 0x80 := fun hbits => hlead ((Text.continues_iff byte).1 hbits)
  unfold bump
  rw [hbyte]
  by_cases hd : d = '\n'
  · rw [if_pos hd] at hnewlines
    refine ⟨_, if_pos (hfeed.2 hd), ⟨rfl, rfl, rfl, rfl, rfl⟩, htext, ?_, ?_, ?_, hnewlines.symm, hinside⟩
    · rw [hlength]
      dsimp only
      omega
    · rw [hplace, Location.next, if_pos hd, h.line]
    · rw [hplace, Location.next, if_pos hd]
  · rw [if_neg hd, List.append_nil] at hnewlines
    refine ⟨_, (if_neg (fun hb => hd (hfeed.1 hb))).trans (if_pos hbits), ⟨rfl, rfl, rfl, rfl, rfl⟩, htext, ?_, ?_, ?_, hnewlines.symm,
      hinside⟩
    · rw [hlength]
      dsimp only
      omega
    · rw [hplace, Location.next, if_neg hd]
      exact h.line
    · rw [hplace, Location.next, if_neg hd, h.column]

/-- One more byte of a character is passed, which the place is behind already. -/
theorem Stands.bump_inside (h : a.Stands passed left (owed + 1)) : ∃ b, a.bump = .ok b ∧ a.Bumped b ∧ b.Stands passed left owed := by
  obtain ⟨byte, hbyte, hcontinues⟩ := h.byteAt_inside
  have hpos := h.pos
  have hfeed : byte ≠ 10 := by
    rintro rfl
    exact absurd hcontinues.1 (by decide)
  have hbits : ¬byte &&& 0xC0 ≠ 0x80 := not_not.2 ((Text.continues_iff byte).2 hcontinues)
  unfold bump
  rw [hbyte]
  refine ⟨_, (if_neg hfeed).trans (if_neg hbits), ⟨rfl, rfl, rfl, rfl, rfl⟩, h.text, ?_, h.line, h.column, h.newlines, fun _ => ?_⟩
  · dsimp only
    omega
  · obtain ⟨front, c, hpassed, hlt⟩ := h.inside (Nat.succ_pos owed)
    exact ⟨front, c, hpassed, by omega⟩

/-! ## Lookups -/

theorem slice_eq (xs ys zs : List Char) (h : a.text.toList = xs ++ (ys ++ zs)) :
    a.slice (Text.byteLength xs) (Text.byteLength (xs ++ ys)) = .ok ys := by
  rw [slice, Text.slice?_eq xs ys zs h]

/-- The slice from a character to the end of the text. -/
theorem slice_rest (xs ys : List Char) (h : a.text.toList = xs ++ ys) : a.slice (Text.byteLength xs) a.src.length = .ok ys := by
  rw [length_src, h]
  exact slice_eq xs ys [] (by rw [h, List.append_nil])

theorem Stands.currentChar_eq (h : a.Stands passed (d :: left) 0) : a.currentChar = .ok d := by
  have hpos : a.pos = Text.byteLength passed := h.pos
  rw [currentChar, hpos, slice_rest passed _ h.text]
  rfl

/-- Between two characters, the line that is cut out is the line of that offset. -/
theorem lineAt_eq (xs ys : List Char) (h : a.text.toList = xs ++ ys) :
    a.lineAt (Text.byteLength xs) = .ok (Text.lineAt a.text (Text.byteLength xs)) := by
  obtain ⟨lines, hxs, hlines, hfront⟩ := Text.exists_lastLine xs
  obtain ⟨rest, hys, hback, hrest⟩ := Text.exists_restOfLine ys
  have hbefore : a.slice 0 (Text.byteLength xs) = .ok xs := slice_eq [] xs ys h
  have hbehind := slice_rest xs ys h
  simp only [lineAt, hbefore, hbehind, bind, Except.bind, pure, Except.pure]
  generalize ys.takeWhile (· != '\n') = back at hys hback ⊢
  generalize Text.lastLine xs = front at hxs hfront ⊢
  subst hxs hys
  have hstart : Text.byteLength (lines ++ front) - Text.byteLength front = Text.byteLength lines := by
    rw [Text.byteLength_append, Nat.add_sub_cancel]
  have hstop : Text.byteLength (lines ++ front) + Text.byteLength back = Text.byteLength (lines ++ (front ++ back)) := by
    rw [← List.append_assoc, Text.byteLength_append (lines ++ front)]
  have hsplit : a.text.toList = lines ++ (front ++ (back ++ rest)) := by rw [h, List.append_assoc]
  have hline := slice_eq lines (front ++ back) rest (by rw [hsplit, List.append_assoc])
  have hnot : '\n' ∉ front ++ back := by
    rw [List.mem_append]
    exact fun hmem => hmem.elim hfront hback
  rw [hstart, hstop, hline, Text.lineAt_eq hsplit hlines hnot hrest, ← Text.reverse_dropReturn]

theorem refuse_eq {α : Type} {place : Location} (xs ys : List Char) (h : a.text.toList = xs ++ ys)
    (hplace : place.offset = Text.byteLength xs) (message : String) :
    (a.refuse place message : Except Halt α) = .error (.refused message place (Text.lineAt a.text place.offset)) := by
  rw [refuse, hplace, lineAt_eq xs ys h]
  rfl

end Courier.Automaton
