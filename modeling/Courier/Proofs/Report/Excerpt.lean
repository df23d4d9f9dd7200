import Courier.Proofs.Lexical.Faults
import Courier.Proofs.Parser.Diagnostics
import Courier.Proofs.Text.Split
import Courier.Report

/-!
# The excerpt and its caret

A report shows the line of the failure, and below it a caret. `CaretAt` says of the lines that are shown that the caret stands under a
column. It does if the line is shown up to that column (`Diagnostic.caretAt_iff`), and the line is, but for one case: the line is shown
without a carriage return at its end, the column at the end of the text is counted with it. So the caret stands under the column of
every failure except one at the end of a text that ends in a carriage return, where it stands one column before it
(`Stream.caretAt_of_error`).
-/

namespace Courier

open Text

/-! ## What is shown -/

namespace Text

/-- In what is shown, the caret stands in the second line under a column of the source line: behind a tab for each tab of the source
line before that column and a space for each other character. -/
def CaretAt (shown : String) (column : Nat) (sourceLine : String) : Prop :=
  ∃ pad : List Char, (linesOf shown)[1]? = some (String.ofList (pad ++ ['^'])) ∧ pad.length + 1 = column ∧
    ∀ i < pad.length, pad[i]? = some (if sourceLine.toList[i]? = some '\t' then '\t' else ' ')

end Text

/-- What the report of a lexical failure tells. -/
def LexError.diagnostic (e : LexError) : Diagnostic :=
  ⟨e.file, e.location, e.message, e.sourceLine⟩

/-- What the report of a parse failure tells, apart from what was discarded and the constructs. -/
def ParseError.diagnostic (e : ParseError) : Diagnostic :=
  ⟨e.file, e.location, e.message, e.sourceLine⟩

namespace Diagnostic

variable {d : Diagnostic}

/-- The line below the source line: a pad up to the column, and the caret. -/
def caretLine (d : Diagnostic) : String :=
  String.ofList (caretPad d.location.column d.sourceLine.toList ++ ['^'])

/-- The place and the message. -/
def headline (d : Diagnostic) : String :=
  s!"{d.file}:{d.location.line}:{d.location.column}: error: {d.message}"

theorem length_caretPad (column : Nat) (cs : List Char) : (caretPad column cs).length = min (column - 1) cs.length := by
  rw [caretPad, List.length_map, List.length_take]

theorem getElem?_caretPad {column : Nat} {cs : List Char} {i : Nat} (h : i < (caretPad column cs).length) :
    (caretPad column cs)[i]? = some (if cs[i]? = some '\t' then '\t' else ' ') := by
  rw [length_caretPad, Nat.lt_min] at h
  rw [caretPad, List.getElem?_map, List.getElem?_take_of_lt h.1, List.getElem?_eq_getElem h.2]
  simp

theorem oneLine_caretLine : OneLine d.caretLine := by
  rw [OneLine, caretLine, String.toList_ofList, List.mem_append, List.mem_singleton]
  rintro (h | h)
  · obtain ⟨c, -, hc⟩ := List.mem_map.1 h
    split at hc <;> exact absurd hc (by decide)
  · exact absurd h (by decide)

/-- What is shown of a failure at a place: the source line, the caret line, and the lines of the headline with whatever is shown behind
it. -/
theorem linesOf_render (hplace : d.location.line ≠ 0) (hline : OneLine d.sourceLine) (tail : String) :
    linesOf (d.render ++ tail) = d.sourceLine :: d.caretLine :: linesOf (d.headline ++ tail) := by
  have hheadline : d.headline = d.place ++ ": error: " ++ d.message := rfl
  have hrender : d.render ++ tail = d.sourceLine ++ "\n" ++ (d.caretLine ++ "\n" ++ (d.headline ++ tail)) := by
    rw [render, if_neg hplace, caretLine, hheadline, ← String.toList_inj]
    simp [String.toList_append]
  rw [hrender, linesOf_append_feed, linesOf_append_feed, linesOf_of_oneLine hline, linesOf_of_oneLine oneLine_caretLine]
  rfl

/-- The caret stands behind as much of the line as is shown before the column. -/
theorem caretAt_render (hplace : d.location.line ≠ 0) (hline : OneLine d.sourceLine) (tail : String) (column : Nat) :
    CaretAt (d.render ++ tail) column d.sourceLine ↔ min (d.location.column - 1) d.sourceLine.length + 1 = column := by
  have hlength := length_caretPad d.location.column d.sourceLine.toList
  rw [String.length_toList] at hlength
  unfold CaretAt
  rw [linesOf_render hplace hline, List.getElem?_cons_succ, List.getElem?_cons_zero, caretLine, ← hlength]
  constructor
  · rintro ⟨pad, hpad, hcolumn, -⟩
    obtain rfl := List.append_cancel_right (String.ofList_injective (Option.some.inj hpad))
    exact hcolumn
  · exact fun h => ⟨_, rfl, h, fun i hi => getElem?_caretPad hi⟩

end Diagnostic

/-! ## How much of a line is shown -/

namespace Text

variable {text shown : String} {p : Location}

theorem ne_feed_of_not_blank {c : Char} (h : isBlank c = false) : c ≠ '\n' := by
  rintro rfl
  nomatch h

theorem length_withoutReturn_le (line : List Char) : line.length ≤ (withoutReturn line).length + 1 := by
  unfold withoutReturn
  split
  · rw [List.length_dropLast]
    omega
  · exact Nat.le_succ _

theorem mem_of_mem_withoutReturn {line : List Char} {c : Char} (h : c ∈ withoutReturn line) : c ∈ line := by
  unfold withoutReturn at h
  split at h
  · exact List.mem_of_mem_dropLast h
  · exact h

namespace Shows

theorem line_ne_zero (h : Shows text p shown) : p.line ≠ 0 := by
  obtain ⟨_, _, _, _, -, -, -, -, hline, -⟩ := h.line
  omega

theorem column_ne_zero (h : Shows text p shown) : p.column ≠ 0 := by
  obtain ⟨_, _, _, _, -, -, -, -, -, hcolumn, -⟩ := h.line
  omega

theorem oneLine (h : Shows text p shown) : OneLine shown := by
  obtain ⟨lines, front, back, rest, -, -, hline, -, -, -, -, rfl⟩ := h.line
  rw [OneLine, String.toList_ofList]
  exact fun hmem => hline (mem_of_mem_withoutReturn hmem)

/-- Before a character that is no line feed, the line is shown up to the column: the character belongs to the line, and not more than
one is left off at its end. -/
theorem column_le (h : Shows text p shown) {before after : List Char} {c : Char} (htext : text.toList = before ++ c :: after)
    (hplace : p.offset = byteLength before) (hc : c ≠ '\n') : p.column ≤ shown.length + 1 := by
  obtain ⟨lines, front, back, rest, hcs, -, -, hrest, -, hcolumn, hoffset, rfl⟩ := h.line
  have hsame : lines ++ front = before := by
    have htwice : (lines ++ front) ++ (back ++ rest) = before ++ c :: after := by
      rw [← htext, hcs, List.append_assoc]
    exact eq_of_byteLength_eq htwice (hoffset.symm.trans hplace)
  have hback : back ≠ [] := by
    rintro rfl
    rw [hcs, ← hsame, List.append_assoc, List.nil_append] at htext
    have htail : rest = c :: after := List.append_cancel_left (List.append_cancel_left htext)
    rw [htail] at hrest
    rcases hrest with hnil | hhead
    · nomatch hnil
    · exact hc (Option.some.inj hhead)
  have hpos := List.length_pos_iff.2 hback
  have hle := length_withoutReturn_le (front ++ back)
  rw [List.length_append] at hle
  rw [hcolumn, String.length_ofList]
  omega

/-- At the end of the text, the line is shown up to the column unless it ends in a carriage return, which is not shown. -/
theorem length_of_end (h : Shows text p shown) (hend : p.offset = text.utf8ByteSize) :
    p.column = shown.length + (if text.toList.getLast? = some '\r' then 1 else 0) + 1 := by
  obtain ⟨lines, front, back, rest, hcs, hlines, hline, hrest, -, hcolumn, hoffset, rfl⟩ := h.line
  have hsize := utf8ByteSize_eq text
  rw [hcs, byteLength_append, byteLength_append front, byteLength_append back] at hsize
  rw [byteLength_append] at hoffset
  obtain rfl : back = [] := eq_nil_of_byteLength (by omega)
  obtain rfl : rest = [] := eq_nil_of_byteLength (by omega)
  rw [List.append_nil, List.append_nil] at hcs
  rw [hcs, hcolumn, String.length_ofList, List.append_nil]
  -- A text that ends in a carriage return ends in one on its last line: the lines before that end in line feeds.
  have hlast : (lines ++ front).getLast? = some '\r' ↔ front.getLast? = some '\r' := by
    by_cases hfront : front = []
    · subst hfront
      rw [List.append_nil, List.getLast?_nil]
      rcases hlines with rfl | hfeed
      · rw [List.getLast?_nil]
      · rw [hfeed]
        exact ⟨fun h => absurd (Option.some.inj h) (by decide), fun h => nomatch h⟩
    · rw [List.getLast?_append_of_ne_nil _ hfront]
  unfold withoutReturn
  by_cases hreturn : front.getLast? = some '\r'
  · have hpos := List.length_pos_iff.2 (fun hnil => by rw [hnil] at hreturn; nomatch hreturn : front ≠ [])
    rw [if_pos hreturn, if_pos (hlast.2 hreturn), List.length_dropLast]
    omega
  · rw [if_neg hreturn, if_neg (hlast.not.2 hreturn)]

end Shows

end Text

/-! ## Failures -/

namespace Stream

open Courier.Parser

variable {file text : String} {s : Stream}

theorem caretAt_of_lexError {e : LexError} (h : Shows text e.location e.sourceLine) (column : Nat) :
    CaretAt e.report.render column e.sourceLine ↔ min (e.location.column - 1) e.sourceLine.length + 1 = column := by
  have hcaret := Diagnostic.caretAt_render (d := e.diagnostic) h.line_ne_zero h.oneLine "" column
  rw [String.append_empty] at hcaret
  exact hcaret

theorem caretAt_of_parseError {e : ParseError} (h : Shows text e.location e.sourceLine) (column : Nat) :
    CaretAt e.report.render column e.sourceLine ↔ min (e.location.column - 1) e.sourceLine.length + 1 = column :=
  Diagnostic.caretAt_render (d := e.diagnostic) h.line_ne_zero h.oneLine _ column

/-- A parse that fails before the end of the text shows its line up to the column. -/
theorem column_le_of_parse_error (h : Stream.tokenize file text = .ok s) {trace : Bool} {e : ParseError}
    (he : (s.parse trace).1 = .error e) (hend : e.location.offset ≠ text.utf8ByteSize) :
    e.location.column ≤ e.sourceLine.length + 1 := by
  obtain ⟨hsource, -, -, hlaid⟩ := Stream.laid_of_tokenize h
  rcases place_of_parse_error he with ⟨t, ht, hplace⟩ | hplace
  · obtain ⟨before, after, htext, hbefore⟩ := hlaid.split ht
    obtain ⟨c, cs, hchars, hblank⟩ := exists_first_of_tokenize h ht
    rw [hchars, List.cons_append] at htext
    refine (shows_of_parse_error h he).column_le htext ?_ (ne_feed_of_not_blank hblank)
    rw [← hplace, hbefore, offset_after]
    exact Nat.zero_add _
  · refine absurd ?_ hend
    rw [hplace, utf8ByteSize_eq, Stream.endLocation, hsource]
    rfl

/-- The caret of every failure stands under its column, of the scanner and of the parser, for every file name and text, except of a
failure at the end of a text that ends in a carriage return. There the line is shown one character short, and the caret stands one column
before the place. -/
theorem caretAt_of_error (file text : String) (trace : Bool) :
    (∀ e, Stream.tokenize file text = .error e →
      CaretAt e.report.render e.location.column e.sourceLine ∧ e.location.column ≤ e.sourceLine.length + 1) ∧
    ∀ s e, Stream.tokenize file text = .ok s → (s.parse trace).1 = .error e →
      (CaretAt e.report.render e.location.column e.sourceLine ↔ e.location.column ≤ e.sourceLine.length + 1) ∧
      (CaretAt e.report.render e.location.column e.sourceLine ↔
        ¬(e.location.offset = text.utf8ByteSize ∧ text.toList.getLast? = some '\r')) ∧
      (e.location.offset = text.utf8ByteSize → text.toList.getLast? = some '\r' →
        CaretAt e.report.render (e.location.column - 1) e.sourceLine) := by
  refine ⟨fun e h => ?_, fun s e h he => ?_⟩
  · have hshows := shows_of_tokenize_error h
    have hpos := hshows.column_ne_zero
    obtain ⟨-, hfault, -⟩ := Stream.tokenize_eq_error.1 h
    obtain ⟨before, c, after, htext, hplace, hblank, -⟩ := exists_blamed_of_tokensFrom_error hfault
    have hle : e.location.column ≤ e.sourceLine.length + 1 := by
      refine hshows.column_le htext ?_ (ne_feed_of_not_blank hblank)
      rw [hplace, offset_after]
      exact Nat.zero_add _
    refine ⟨(caretAt_of_lexError hshows _).2 ?_, hle⟩
    omega
  · have hshows := shows_of_parse_error h he
    have hpos := hshows.column_ne_zero
    by_cases hend : e.location.offset = text.utf8ByteSize
    · have hcolumn := hshows.length_of_end hend
      rw [caretAt_of_parseError hshows, caretAt_of_parseError hshows]
      by_cases hreturn : text.toList.getLast? = some '\r'
      · rw [if_pos hreturn] at hcolumn
        refine ⟨?_, ?_, fun _ _ => ?_⟩
        · omega
        · exact iff_of_false (by omega) (fun hnot => hnot ⟨hend, hreturn⟩)
        · omega
      · rw [if_neg hreturn] at hcolumn
        refine ⟨?_, ?_, fun _ h => absurd h hreturn⟩
        · omega
        · exact iff_of_true (by omega) (fun h => hreturn h.2)
    · have hle := column_le_of_parse_error h he hend
      rw [caretAt_of_parseError hshows, caretAt_of_parseError hshows]
      refine ⟨?_, ?_, fun h => absurd h hend⟩
      · omega
      · exact iff_of_true (by omega) (fun h => hend h.1)

theorem caretAt_of_error_return :
    (∃ e, Stream.tokenize "unit" "\ta\t:= \"b\r\n" = .error e ∧
      CaretAt e.report.render e.location.column e.sourceLine ∧ e.location.column ≤ e.sourceLine.length + 1) ∧
    ∃ s e, Stream.tokenize "unit" "\x7b\n\ta\r" = .ok s ∧ (s.parse true).1 = .error e ∧
      e.location.offset = "\x7b\n\ta\r".utf8ByteSize ∧ CaretAt e.report.render (e.location.column - 1) e.sourceLine := by
  have hfails : (Stream.tokenize "unit" "\ta\t:= \"b\r\n").toOption.isNone = true := by decide +kernel
  obtain ⟨s, e, hs, he, hend⟩ := exists_parse_error "unit" "\x7b\n\ta\r" true
    (fun e => e.location.offset == "\x7b\n\ta\r".utf8ByteSize) (by decide +kernel)
  have hoffset := eq_of_beq hend
  refine ⟨?_, s, e, hs, he, hoffset, ((caretAt_of_error "unit" _ true).2 s e hs he).2.2 hoffset rfl⟩
  cases h : Stream.tokenize "unit" "\ta\t:= \"b\r\n" with
  | ok s =>
    rw [h] at hfails
    nomatch hfails
  | error e => exact ⟨e, rfl, (caretAt_of_error "unit" _ true).1 e h⟩

/-- At the end of a line that is not shown whole, the caret stands one column early. -/
theorem not_caretAt_behind_return : ∃ s e, Stream.tokenize "unit" "\x7b\r" = .ok s ∧ (s.parse false).1 = .error e ∧
    ¬CaretAt e.report.render e.location.column e.sourceLine := by
  obtain ⟨s, e, hs, he, hplace⟩ := exists_parse_error "unit" "\x7b\r" false
    (fun e => e.location.column == 3 && e.sourceLine.length == 1) (by decide +kernel)
  obtain ⟨hcolumn, hlength⟩ := Bool.and_eq_true_iff.1 hplace
  refine ⟨s, e, hs, he, ?_⟩
  rw [caretAt_of_parseError (shows_of_parse_error hs he), eq_of_beq hcolumn, eq_of_beq hlength]
  decide

end Stream

end Courier
