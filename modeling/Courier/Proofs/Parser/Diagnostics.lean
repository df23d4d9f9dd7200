import Courier.Proofs.Lexical.Faults
import Courier.Proofs.Lexical.Layout
import Courier.Proofs.Parser.LayoutFree
import Courier.Proofs.Text.Lines

/-!
# Failures show where they are

Three places are computed apart: the scanner moves one over the text, a token carries its own, and the end of the input is counted from
the whole text. Wherever a text fails, as characters or as tokens, the place that is blamed is one of these, and the line that is shown
is the line of that place (`Stream.shows_of_error`).
-/

namespace Courier

open Text

namespace Stream

open Courier.Parser

variable {file text : String} {s : Stream}

/-- A failed parse is alike to itself: it blames a token or the end of the text, and shows the line of that place. -/
theorem failAlike_of_parse_error {trace : Bool} {e : ParseError} (he : (s.parse trace).1 = .error e) : s.FailAlike s e e := by
  have halike : s.ParsedAlike s (s.parse trace).1 (s.parse trace).1 :=
    parseWithin_alike maxNesting rfl trace
  rw [he] at halike
  exact halike

theorem place_of_parse_error {trace : Bool} {e : ParseError} (he : (s.parse trace).1 = .error e) :
    (∃ t ∈ s.tokens, t.location = e.location) ∨ e.location = s.endLocation :=
  (failAlike_of_parse_error he).place.imp (fun ⟨_, t, _, ht, _, hl, _⟩ => ⟨t, List.mem_of_getElem? ht, hl⟩) And.left

/-- The place that a failed parse blames is a right place of the text, and the line shown is the one that holds it. -/
theorem shows_of_parse_error (h : Stream.tokenize file text = .ok s) {trace : Bool} {e : ParseError}
    (he : (s.parse trace).1 = .error e) : Shows text e.location e.sourceLine := by
  obtain ⟨hsource, -, -, hlaid⟩ := Stream.laid_of_tokenize h
  rw [(failAlike_of_parse_error he).line.1, lineAt, hsource]
  refine shows_lineAt ?_
  rcases place_of_parse_error he with ⟨t, ht, hplace⟩ | hplace
  · obtain ⟨before, after, hcs, hbefore⟩ := hlaid.split ht
    rw [← hplace, hcs, hbefore]
    exact isPlace_after before _
  · rw [hplace, Stream.endLocation, hsource]
    exact isPlace_endOfText text

/-- A text that cannot be cut into tokens shows the line of the place that is blamed. -/
theorem shows_of_tokenize_error {e : LexError} (h : Stream.tokenize file text = .error e) : Shows text e.location e.sourceLine := by
  obtain ⟨-, hfault, hline⟩ := Stream.tokenize_eq_error.1 h
  obtain ⟨before, d, after, htext, hplace, -⟩ := exists_blamed_of_tokensFrom_error hfault
  rw [hline]
  refine shows_lineAt ?_
  rw [htext, hplace]
  exact isPlace_after before (d :: after)

/-- Every failure is coherent, of the scanner and of the parser, for every file name and text: the place lies in the text and between
two characters, its line and column are counted right, and the line shown is the one that holds it. -/
theorem shows_of_error (file text : String) (trace : Bool) :
    (∀ e, Stream.tokenize file text = .error e → Shows text e.location e.sourceLine) ∧
      ∀ s e, Stream.tokenize file text = .ok s → (s.parse trace).1 = .error e → Shows text e.location e.sourceLine :=
  ⟨fun _ h => shows_of_tokenize_error h, fun _ _ h he => shows_of_parse_error h he⟩

theorem shows_of_error_unclosed :
    (∃ e, Stream.tokenize "unit" "é := 1;\r\n\"b" = .error e ∧ Shows "é := 1;\r\n\"b" e.location e.sourceLine) ∧
      ∃ s e, Stream.tokenize "unit" "\x7b\r\n a := # é\r\n [1;\r\n\x7d" = .ok s ∧ (s.parse true).1 = .error e ∧
        Shows "\x7b\r\n a := # é\r\n [1;\r\n\x7d" e.location e.sourceLine := by
  have hfails : (Stream.tokenize "unit" "é := 1;\r\n\"b").toOption.isNone = true := by decide +kernel
  obtain ⟨s, e, hs, he, -⟩ := exists_parse_error "unit" "\x7b\r\n a := # é\r\n [1;\r\n\x7d" true (fun _ => true) (by decide +kernel)
  refine ⟨?_, s, e, hs, he, (shows_of_error "unit" _ true).2 s e hs he⟩
  cases h : Stream.tokenize "unit" "é := 1;\r\n\"b" with
  | ok s =>
    rw [h] at hfails
    nomatch hfails
  | error e => exact ⟨e, rfl, (shows_of_error "unit" _ true).1 e h⟩

end Stream

end Courier
