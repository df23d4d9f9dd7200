import Courier.Proofs.Lexical.Standing
import Courier.Token.Stream

/-!
# Finding lines

The line of a byte is what stands strictly between the last line feed before the byte and the first one at or after it (`IsLineOf`). It can
be found in three ways: by passing characters from the start of the text, by walking over bytes to both its ends, and by searching the two
parts of the text that are cut at the byte. The ends are line feeds or ends of the text, so they lie between characters even where the byte
lies inside one, and a walk never fails. A search cannot cut there, and finds the line exactly where it can. The three agree
(`Stream.finders_agree`).
-/

namespace Courier

namespace Text

/-! ## The ends of a line -/

/-- The line of the byte `n` starts here: right behind the last line feed before that byte, or with the text where there is none. -/
structure StartsLine (src : ByteArray) (n start : Nat) : Prop where
  le : start ≤ n
  feed : start = 0 ∨ ∃ i, start = i + 1 ∧ src[i]? = some 10
  last : ∀ i, i < n → src[i]? = some 10 → i < start

/-- The line of the byte `n` ends here: before the first line feed at or after that byte, or with the text where there is none. -/
structure EndsLine (src : ByteArray) (n stop : Nat) : Prop where
  le : n ≤ stop
  feed : stop = src.size ∨ src[stop]? = some 10
  first : ∀ i, n ≤ i → src[i]? = some 10 → stop ≤ i

variable {src : ByteArray} {n start start' stop stop' : Nat}

theorem StartsLine.le_of (h : StartsLine src n start) (h' : StartsLine src n start') : start ≤ start' := by
  rcases h.feed with rfl | ⟨i, rfl, hi⟩
  · exact Nat.zero_le start'
  · exact h'.last i h.le hi

/-- A line has one start. -/
theorem StartsLine.unique (h : StartsLine src n start) (h' : StartsLine src n start') : start = start' :=
  Nat.le_antisymm (h.le_of h') (h'.le_of h)

theorem EndsLine.le_size (h : EndsLine src n stop) : stop ≤ src.size := by
  rcases h.feed with rfl | hfeed
  · exact Nat.le_refl _
  · obtain ⟨hlt, -⟩ := getElem?_eq_some_iff.1 hfeed
    exact Nat.le_of_lt hlt

theorem EndsLine.le_of (h : EndsLine src n stop) (h' : EndsLine src n stop') : stop ≤ stop' := by
  rcases h'.feed with rfl | hfeed
  · exact h.le_size
  · exact h.first stop' h'.le hfeed

/-- A line has one end. -/
theorem EndsLine.unique (h : EndsLine src n stop) (h' : EndsLine src n stop') : stop = stop' :=
  Nat.le_antisymm (h.le_of h') (h'.le_of h)

/-! ## Walking to the ends -/

/-- The walk back from a byte of the text, or from its end, comes to the start of the line. -/
theorem exists_lineStart? (h : n ≤ src.size) : ∃ start, lineStart? src n = some start ∧ StartsLine src n start := by
  induction n with
  | zero => exact ⟨0, rfl, Nat.le_refl 0, .inl rfl, fun i hi => absurd hi (Nat.not_lt_zero i)⟩
  | succ n ih =>
    have hbyte : src[n]? = some src[n] := getElem?_pos src n h
    by_cases hfeed : src[n] = 10
    · refine ⟨n + 1, ?_, Nat.le_refl _, .inr ⟨n, rfl, by rw [hbyte, hfeed]⟩, fun i hi _ => hi⟩
      rw [lineStart?, hbyte]
      exact if_pos hfeed
    · obtain ⟨start, hstart, hline⟩ := ih (Nat.le_of_succ_le h)
      refine ⟨start, ?_, Nat.le_succ_of_le hline.le, hline.feed, fun i hi hi10 => ?_⟩
      · rw [lineStart?, hbyte, ← hstart]
        exact if_neg hfeed
      · rcases Nat.lt_succ_iff_lt_or_eq.1 hi with hlt | rfl
        · exact hline.last i hlt hi10
        · rw [hbyte] at hi10
          exact absurd (Option.some.inj hi10) hfeed

/-- The walk on from a byte of the text, or from its end, comes to the end of the line. -/
theorem endsLine_lineEnd (h : n ≤ src.size) : EndsLine src n (lineEnd src n) := by
  fun_induction lineEnd src n with
  | case1 n hlt hfeed => exact ⟨Nat.le_refl n, .inr (by rw [getElem?_pos src n hlt, hfeed]), fun i hi _ => hi⟩
  | case2 n hlt hfeed ih =>
    have hline := ih hlt
    refine ⟨Nat.le_of_succ_le hline.le, hline.feed, fun i hi hi10 => ?_⟩
    rcases Nat.eq_or_lt_of_le hi with rfl | hgt
    · rw [getElem?_pos src n hlt] at hi10
      exact absurd (Option.some.inj hi10) hfeed
    · exact hline.first i hgt hi10
  | case3 n hend => exact ⟨Nat.le_refl n, .inl (Nat.le_antisymm h (Nat.not_lt.1 hend)), fun i hi _ => hi⟩

/-! ## The line between them -/

variable {text shown shown' : String} {before line behind : List Char} {offset : Nat}

/-- Where a line starts, whole lines lie before it. -/
theorem StartsLine.split (h : StartsLine text.toUTF8 n start) :
    ∃ before rest, text.toList = before ++ rest ∧ byteLength before = start ∧ WholeLines before := by
  rcases h.feed with rfl | ⟨i, rfl, hi⟩
  · exact ⟨[], _, rfl, rfl, .inl rfl⟩
  · obtain ⟨xs, ys, htext, rfl⟩ := getElem?_eq_feed_iff.1 hi
    refine ⟨xs ++ ['\n'], ys, ?_, byteLength_append _ _, .inr List.getLast?_concat⟩
    rw [htext, List.append_assoc]
    rfl

/-- Where a line ends, nothing or a line feed lies behind it. -/
theorem EndsLine.split (h : EndsLine text.toUTF8 n stop) :
    ∃ front behind, text.toList = front ++ behind ∧ byteLength front = stop ∧ (behind = [] ∨ behind.head? = some '\n') := by
  rcases h.feed with rfl | hfeed
  · exact ⟨text.toList, [], (List.append_nil _).symm, (utf8ByteSize_eq text).symm, .inl rfl⟩
  · obtain ⟨xs, ys, htext, rfl⟩ := getElem?_eq_feed_iff.1 hfeed
    exact ⟨xs, _, htext, rfl, .inr rfl⟩

/-- A text is cut before and behind the line of the byte `n`. -/
structure HoldsByte (text : String) (n : Nat) (before line behind : List Char) : Prop where
  text_eq : text.toList = before ++ (line ++ behind)
  starts : StartsLine text.toUTF8 n (byteLength before)
  ends : EndsLine text.toUTF8 n (byteLength (before ++ line))

/-- At the ends of a line, a text can be cut. -/
theorem exists_holdsByte (hstart : StartsLine text.toUTF8 n start) (hstop : EndsLine text.toUTF8 n stop) :
    ∃ before line behind, HoldsByte text n before line behind := by
  obtain ⟨before, rest, hbefore, rfl, -⟩ := hstart.split
  obtain ⟨front, behind, hfront, rfl, -⟩ := hstop.split
  obtain ⟨line, rfl⟩ := exists_append_of_byteLength_le (hbefore.symm.trans hfront) (Nat.le_trans hstart.le hstop.le)
  exact ⟨before, line, behind, by rw [hfront, List.append_assoc], hstart, hstop⟩

theorem HoldsByte.wholeLines (h : HoldsByte text n before line behind) : WholeLines before := by
  obtain ⟨before', rest, htext, hlength, hlines⟩ := h.starts.split
  rwa [eq_of_byteLength_eq (h.text_eq.symm.trans htext) hlength.symm]

theorem HoldsByte.behind_end (h : HoldsByte text n before line behind) : behind = [] ∨ behind.head? = some '\n' := by
  obtain ⟨front, behind', hfront, hlength, hbehind⟩ := h.ends.split
  have htext := h.text_eq
  rw [← List.append_assoc] at htext
  obtain rfl := eq_of_byteLength_eq (htext.symm.trans hfront) hlength.symm
  rwa [List.append_cancel_left (htext.symm.trans hfront)]

/-- A line holds no line feed. -/
theorem HoldsByte.not_mem (h : HoldsByte text n before line behind) : '\n' ∉ line := by
  intro hmem
  obtain ⟨xs, ys, rfl⟩ := List.append_of_mem hmem
  have hfeed : text.toUTF8[byteLength (before ++ xs)]? = some 10 :=
    getElem?_eq_feed_iff.2 ⟨before ++ xs, ys ++ behind, by simp [h.text_eq], rfl⟩
  have hlength : byteLength (before ++ (xs ++ '\n' :: ys)) = byteLength (before ++ xs) + ('\n'.utf8Size + byteLength ys) := by
    rw [← List.append_assoc, byteLength_append (before ++ xs), byteLength]
  have hsize := Char.utf8Size_pos '\n'
  -- It is before the byte, and the line does not start behind it, or at or after the byte, and the line does not end before it.
  rcases Nat.lt_or_ge (byteLength (before ++ xs)) n with hlt | hge
  · have hlast := h.starts.last _ hlt hfeed
    rw [byteLength_append] at hlast
    omega
  · have hfirst := h.ends.first _ hge hfeed
    omega

/-! ## The line of a byte -/

/-- The line of the byte `n` is shown: what stands strictly between the last line feed before that byte and the first one at or after it,
without one carriage return at its end. -/
def IsLineOf (text : String) (n : Nat) (shown : String) : Prop :=
  ∃ before line behind, HoldsByte text n before line behind ∧ shown = String.ofList (withoutReturn line)

/-- A byte has one line. -/
theorem IsLineOf.unique (h : IsLineOf text n shown) (h' : IsLineOf text n shown') : shown = shown' := by
  obtain ⟨before, line, behind, h, rfl⟩ := h
  obtain ⟨before', line', behind', h', rfl⟩ := h'
  have htext := h.text_eq.symm.trans h'.text_eq
  obtain rfl := eq_of_byteLength_eq htext (h.starts.unique h'.starts)
  have hlength := h.ends.unique h'.ends
  rw [byteLength_append, byteLength_append] at hlength
  rw [eq_of_byteLength_eq (List.append_cancel_left htext) (Nat.add_left_cancel hlength)]

/-- The line that is looked up is the line of the byte; a byte past the end is taken for the end of the text. -/
theorem HoldsByte.lineAt_eq (h : HoldsByte text (min offset text.utf8ByteSize) before line behind) :
    lineAt text offset = String.ofList (withoutReturn line) := by
  have hsize : text.utf8ByteSize = byteLength (before ++ line) + byteLength behind := by
    rw [utf8ByteSize_eq, h.text_eq, ← List.append_assoc, byteLength_append (before ++ line)]
  have hstop := h.ends.le
  refine lineAt_of_le h.text_eq h.wholeLines h.not_mem h.behind_end (Nat.le_trans h.starts.le (Nat.min_le_left _ _)) ?_
  rcases Nat.le_total offset text.utf8ByteSize with hle | hle
  · rw [Nat.min_eq_left hle] at hstop
    exact .inr hstop
  · rw [Nat.min_eq_right hle] at hstop
    exact .inl (eq_nil_of_byteLength (by omega))

/-- Every byte has a line. The walk comes to it without a failure. -/
theorem exists_walked (text : String) (offset : Nat) : ∃ before line behind,
    HoldsByte text (min offset text.utf8ByteSize) before line behind ∧
      walkLine? text offset = some (String.ofList (withoutReturn line)) := by
  have hle : min offset text.utf8ByteSize ≤ text.toUTF8.size := Nat.min_le_right _ _
  obtain ⟨start, hwalk, hstart⟩ := exists_lineStart? hle
  have hstop := endsLine_lineEnd hle
  obtain ⟨before, line, behind, h⟩ := exists_holdsByte hstart hstop
  refine ⟨before, line, behind, h, ?_⟩
  have hslice := slice?_eq before line behind h.text_eq
  rw [← hstart.unique h.starts, ← hstop.unique h.ends] at hslice
  have hsize : text.toUTF8.size = text.utf8ByteSize := rfl
  rw [walkLine?, hsize]
  simp only [hwalk, hslice, bind, Option.bind, pure, reverse_dropReturn]

theorem isLineOf_lineAt (text : String) (offset : Nat) : IsLineOf text (min offset text.utf8ByteSize) (lineAt text offset) := by
  obtain ⟨before, line, behind, h, -⟩ := exists_walked text offset
  exact ⟨before, line, behind, h, h.lineAt_eq⟩

theorem walkLine?_eq (text : String) (offset : Nat) : walkLine? text offset = some (lineAt text offset) := by
  obtain ⟨before, line, behind, h, hwalk⟩ := exists_walked text offset
  rw [hwalk, h.lineAt_eq]

end Text

open Text

/-! ## Searching at the byte -/

/-- A search finds a line exactly where the text can be cut, and it is the line that is looked up. -/
theorem Automaton.lineAt_eq_ok_iff {a : Automaton} {offset : Nat} {line : String} :
    a.lineAt offset = .ok line ↔ (⟨offset⟩ : String.Pos.Raw).IsValid a.text ∧ line = Text.lineAt a.text offset := by
  constructor
  · intro h
    obtain ⟨before, hbefore⟩ : ∃ before, slice? a.text.toList 0 offset = some before := by
      cases hslice : slice? a.text.toList 0 offset with
      | some before => exact ⟨before, rfl⟩
      | none =>
        rw [lineAt, slice, hslice] at h
        cases h
    obtain ⟨behind, htext, rfl⟩ := exists_append_of_slice? hbefore
    rw [lineAt_eq before behind htext] at h
    exact ⟨isValid_of_eq_append htext, (Except.ok.inj h).symm⟩
  · rintro ⟨hvalid, rfl⟩
    obtain ⟨xs, ys, htext, rfl⟩ := exists_append_of_isValid hvalid
    exact lineAt_eq xs ys htext

/-- The line that a stream shows for a byte is the one line of that byte, where a byte past the end is taken for the end of the text. The
walk never fails and gives this line. The search of the scanner gives it exactly where the byte lies between two characters or at an end of
the text. -/
theorem Stream.finders_agree (s : Stream) (offset : Nat) :
    (∀ line, IsLineOf s.source (min offset s.source.utf8ByteSize) line ↔ line = s.lineAt offset) ∧
    walkLine? s.source offset = some (s.lineAt offset) ∧
    ∀ a : Automaton, a.text = s.source → ∀ line,
      (a.lineAt offset = .ok line ↔ (⟨offset⟩ : String.Pos.Raw).IsValid s.source ∧ line = s.lineAt offset) := by
  have hline := isLineOf_lineAt s.source offset
  refine ⟨fun line => ⟨fun h => h.unique hline, ?_⟩, walkLine?_eq s.source offset, fun a ha line => ?_⟩
  · rintro rfl
    exact hline
  · rw [Stream.lineAt, ← ha]
    exact Automaton.lineAt_eq_ok_iff

theorem Stream.finders_agree_on_feed : (⟨5⟩ : String.Pos.Raw).IsValid "a\né\r\nb" ∧
    (Automaton.ofText "a\né\r\nb").lineAt 5 = .ok "é" := by
  have hvalid : (⟨5⟩ : String.Pos.Raw).IsValid "a\né\r\nb" := by decide +kernel
  have hline : "é" = (Stream.ofTokens "unit" "a\né\r\nb" []).lineAt 5 := by decide +kernel
  exact ⟨hvalid, ((Stream.finders_agree (.ofTokens "unit" "a\né\r\nb" []) 5).2.2 (.ofText "a\né\r\nb") rfl "é").2 ⟨hvalid, hline⟩⟩

/-- Inside a character, a walk finds the line and a search does not. -/
example : walkLine? "a\né\r\nb" 3 = some "é" ∧ (Automaton.ofText "a\né\r\nb").lineAt 3 = .error .outOfPlace := by
  decide +kernel

end Courier
