import Courier.Proofs.Lexical.Readers
import Courier.Token.Scan.Lemmas
import Courier.Token.Stream

/-!
# Tokenizing is exact

A text is cut into tokens exactly if it is blanks and lexemes, and then the tokens have the kinds, the starts and the ends of the
lexemes (`tokenize_iff_lexes`). One step of a scan passes one blank or one lexeme; both directions follow its steps.
-/

namespace Courier

open Lexical

/-- The kind, the start and the end of a token. -/
def Token.span (t : Token) : Span :=
  (t.kind, t.spanStart, t.spanEnd)

namespace Lexical

/-! ## Steps of a scan -/

theorem offset_next (p : Location) (c : Char) : (p.next c).offset = p.offset + c.utf8Size := by
  have hoff := Text.offset_after p [c]
  simpa [Text.byteLength] using hoff

/-- The token that is made of a lexeme has the lexeme's span. -/
theorem span_mk (kind : TokenKind) (text : List Char) (p : Location) :
    Token.span ⟨kind, String.ofList text, p⟩ = (kind, p.offset, p.offset + Text.byteLength text) := by
  simp [Token.span, Token.spanEnd, Token.spanStart, Token.byteLength]

/-- No lexeme is empty: each begins with a character. -/
theorem IsLexeme.exists_cons {kind : TokenKind} {text rest : List Char} (h : IsLexeme kind text rest) :
    ∃ c cs, text = c :: cs := by
  cases h with
  | dotted hrun =>
    obtain ⟨d, ds, rfl, -⟩ := hrun.head
    exact ⟨d, ds, rfl⟩
  | _ => exact ⟨_, _, rfl⟩

/-- A lexeme is read, and the scan goes on behind it. -/
theorem tokensFrom_lexeme {kind : TokenKind} {text rest : List Char} (h : IsLexeme kind text rest) (p : Location) :
    tokensFrom p (text ++ rest) = (tokensFrom (p.after text) rest).map (⟨kind, String.ofList text, p⟩ :: ·) := by
  obtain ⟨c, cs, rfl⟩ := h.exists_cons
  have hread : Courier.Lexeme.read c (cs ++ rest) = .token kind (c :: cs) rest := read_eq_token h rfl
  exact tokensFrom_token (not_blank_of_read hread) hread p

/-- The tokens that a text is cut into are its lexemes: by induction on the steps of the scan. -/
theorem lexes_of_tokensFrom {cs : List Char} {p : Location} {ts : List Token} (h : tokensFrom p cs = .ok ts) :
    Lexes p.offset cs (ts.map Token.span) := by
  refine tokensFrom_induction (P := fun p cs ts => Lexes p.offset cs (ts.map Token.span)) ?_ ?_ ?_ h
  · exact fun _ => .nil
  · intro p c cs ts hblank hrest
    rw [offset_next] at hrest
    exact .blank (isBlank_iff.1 hblank) hrest
  · intro p c cs kind text rest ts hread hcovers _ hrest
    rw [Text.offset_after] at hrest
    rw [List.map_cons, span_mk, ← hcovers]
    exact .lexeme (isLexeme_of_read hread) hrest

/-- A text of blanks and lexemes is cut into tokens: by induction on the text's blanks and lexemes. -/
theorem tokensFrom_of_lexes {n : Nat} {cs : List Char} {spans : List Span} (h : Lexes n cs spans) :
    ∀ p : Location, p.offset = n → ∃ ts, tokensFrom p cs = .ok ts ∧ ts.map Token.span = spans := by
  induction h with
  | nil => exact fun p _ => ⟨[], rfl, rfl⟩
  | @blank n c cs spans hc _ ih =>
    intro p hp
    obtain ⟨ts, hts, hspans⟩ := ih (p.next c) (by rw [offset_next, hp])
    exact ⟨ts, by rw [tokensFrom_blank (isBlank_iff.2 hc), hts], hspans⟩
  | @lexeme n kind text rest spans hl _ ih =>
    intro p hp
    obtain ⟨ts, hts, hspans⟩ := ih (p.after text) (by rw [Text.offset_after, hp])
    have hscan := tokensFrom_lexeme hl p
    rw [hts] at hscan
    exact ⟨_, hscan, by rw [List.map_cons, span_mk, hspans, hp]⟩

/-- A text is blanks and lexemes in one way only. -/
theorem Lexes.unique {p : Location} {cs : List Char} {spans spans' : List Span} (h : Lexes p.offset cs spans)
    (h' : Lexes p.offset cs spans') : spans = spans' := by
  obtain ⟨ts, hts, rfl⟩ := tokensFrom_of_lexes h p rfl
  obtain ⟨ts', hts', rfl⟩ := tokensFrom_of_lexes h' p rfl
  rw [Except.ok.inj (hts.symm.trans hts')]

end Lexical

/-! ## The whole text -/

/-- A file's text is cut into tokens exactly if it is blanks and lexemes, and then the tokens have the lexemes' kinds, starts and
ends in order. In every other case there is a failure and no stream. -/
theorem Stream.tokenize_iff_lexes (file text : String) (spans : List Span) :
    (∃ s, Stream.tokenize file text = .ok s ∧ s.tokens.map (fun t => (t.kind, t.spanStart, t.spanEnd)) = spans) ↔
      Lexes 0 text.toList spans := by
  constructor
  · rintro ⟨s, hs, rfl⟩
    unfold Stream.tokenize tokensOf at hs
    split at hs
    · rename_i ts hts
      obtain rfl := Except.ok.inj hs
      exact lexes_of_tokensFrom hts
    · nomatch hs
  · intro h
    obtain ⟨ts, hts, hspans⟩ := tokensFrom_of_lexes h .start rfl
    refine ⟨.ofTokens file text ts, ?_, hspans⟩
    unfold Stream.tokenize tokensOf
    rw [hts]

end Courier
