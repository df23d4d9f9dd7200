import Courier.Proofs.Lexical.Tokenize

/-!
# Printed tokens are read back

Tokens are printed one behind the other with a gap behind each. A lexeme stays one in front of any blank (`IsLexeme.printed`); only a
line comment wants the end of its line there, with the carriage return that is no part of it, for one of its own would be taken for
that. So the tokens of a text are read back from whatever gaps they are printed with (`Stream.tokenize_printed`).
-/

namespace Courier

open Lexical

/-- The characters behind a printed token: a blank and, if the token is a line comment, a carriage return and a line feed. -/
structure Lexical.Parts (kind : TokenKind) (rest : List Char) : Prop where
  blank : ∃ c r, rest = c :: r ∧ Blank c
  lineComment : kind = .lineComment → ∃ r, rest = '\r' :: '\n' :: r

namespace Lexical

/-- A blank is none of the characters that a lexeme must not have behind it. -/
theorem Parts.head? {kind : TokenKind} {rest : List Char} (h : Parts kind rest) {c : Char} (hc : ¬Blank c) :
    rest.head? ≠ some c := by
  obtain ⟨d, r, rfl, hd⟩ := h.blank
  rintro heq
  obtain rfl := Option.some.inj heq
  exact hc hd

theorem Parts.endsRun {kind : TokenKind} {rest : List Char} (h : Parts kind rest) : EndsRun rest := by
  obtain ⟨d, r, rfl, hd⟩ := h.blank
  intro c hc
  obtain rfl := Option.some.inj hc
  exact .inl hd

/-- A lexeme is one in front of whatever parts it from the next. -/
theorem IsLexeme.printed {kind : TokenKind} {text rest rest' : List Char} (h : IsLexeme kind text rest) (hrest : Parts kind rest') :
    IsLexeme kind text rest' := by
  have hdot : rest'.head? ≠ some '.' := hrest.head? (by simp [Blank])
  have hequals : rest'.head? ≠ some '=' := hrest.head? (by simp [Blank])
  have hcolon : rest'.head? ≠ some ':' := hrest.head? (by simp [Blank])
  cases h with
  | word hc hcs hkind _ => exact .word hc hcs hkind hrest.endsRun
  | hexadecimal hx hne hds _ => exact .hexadecimal hx hne hds hrest.endsRun
  | binary hx hne hds _ => exact .binary hx hne hds hrest.endsRun
  | dotted hrun _ _ => exact .dotted hrun hrest.endsRun hdot
  | string hbody => exact .string hbody
  | assignment => exact .assignment
  | colon _ => exact .colon ⟨hequals, hcolon⟩
  | blockComment hbody => exact .blockComment hbody
  | @lineComment body returns r hbody _ _ hmark =>
    obtain ⟨r', rfl⟩ := hrest.lineComment rfl
    -- What stands first behind the comment mark is the body's, or the carriage return.
    refine @IsLexeme.lineComment body ['\r'] ('\n' :: r') hbody (.inl rfl) (.inr rfl) ?_
    cases body with
    | nil => simp
    | cons c body => exact hmark
  | single hc => exact .single hc

end Lexical

/-! ## Texts of tokens and gaps -/

/-- What may stand behind a token: blanks, at least one, and behind a line comment first a carriage return and a line feed. -/
structure Token.Gap (t : Token) (gap : String) : Prop where
  nonempty : gap ≠ ""
  blank : ∀ c ∈ gap.toList, Blank c
  lineComment : t.kind = .lineComment → ['\r', '\n'] <+: gap.toList

instance (c : Char) : Decidable (Blank c) :=
  inferInstanceAs (Decidable (c ∈ [' ', '\t', '\n', '\r', '\x0b', '\x0c']))

instance (t : Token) (gap : String) : Decidable (t.Gap gap) :=
  decidable_of_iff (gap ≠ "" ∧ gap.toList.all (fun c => decide (Blank c)) = true ∧
      (t.kind = .lineComment → ['\r', '\n'] <+: gap.toList))
    ⟨fun ⟨hne, hblank, hcomment⟩ => ⟨hne, fun c hc => of_decide_eq_true (List.all_eq_true.1 hblank c hc), hcomment⟩,
      fun h => ⟨h.nonempty, List.all_eq_true.2 (fun c hc => decide_eq_true (h.blank c hc)), h.lineComment⟩⟩

/-- The texts of tokens with a gap behind each. -/
def printed (ts : List Token) (gaps : List String) : String :=
  String.join (List.zipWith (fun t gap => t.text ++ gap) ts gaps)

theorem printed_cons (t : Token) (ts : List Token) (gap : String) (gaps : List String) :
    (printed (t :: ts) (gap :: gaps)).toList = t.text.toList ++ (gap.toList ++ (printed ts gaps).toList) := by
  rw [printed, List.zipWith_cons_cons, String.join_cons, String.toList_append, String.toList_append, List.append_assoc]
  rfl

theorem Token.Gap.parts {t : Token} {gap : String} (h : t.Gap gap) (cs : List Char) : Parts t.kind (gap.toList ++ cs) := by
  constructor
  · cases hgap : gap.toList with
    | nil => exact absurd (String.toList_eq_nil_iff.1 hgap) h.nonempty
    | cons c r => exact ⟨c, r ++ cs, rfl, h.blank c (by rw [hgap]; exact List.mem_cons_self)⟩
  · intro hkind
    obtain ⟨r, hr⟩ := h.lineComment hkind
    exact ⟨r ++ cs, by rw [← hr]; rfl⟩

/-- Blanks are passed. -/
theorem tokensFrom_blanks {gap : List Char} (h : ∀ c ∈ gap, Blank c) (p : Location) (cs : List Char) :
    tokensFrom p (gap ++ cs) = tokensFrom (p.after gap) cs := by
  induction gap generalizing p with
  | nil => rfl
  | cons c gap ih =>
    rw [List.cons_append, tokensFrom_blank (isBlank_iff.2 (h c List.mem_cons_self)), Location.after_cons]
    exact ih (fun d hd => h d (List.mem_cons_of_mem c hd)) _

/-- The tokens of a text are lexemes. -/
theorem isLexeme_of_tokensFrom {p : Location} {cs : List Char} {ts : List Token} (h : tokensFrom p cs = .ok ts) :
    ∀ t ∈ ts, ∃ rest, IsLexeme t.kind t.text.toList rest := by
  refine tokensFrom_induction (P := fun _ _ ts => ∀ t ∈ ts, ∃ rest, IsLexeme t.kind t.text.toList rest) ?_ ?_ ?_ h
  · exact fun _ t ht => nomatch ht
  · exact fun _ _ _ _ _ ih => ih
  · intro p c cs kind text rest ts hread _ _ ih t ht
    rcases List.mem_cons.1 ht with rfl | ht
    · exact ⟨rest, by rw [String.toList_ofList]; exact isLexeme_of_read hread⟩
    · exact ih t ht

/-- Lexemes that are printed are read back: by induction on the tokens, for a lexeme, and the gap behind it, leaves the scan in front of
the next. -/
theorem tokensFrom_printed {ts : List Token} {gaps : List String} (hlexemes : ∀ t ∈ ts, ∃ rest, IsLexeme t.kind t.text.toList rest)
    (hgaps : List.Forall₂ Token.Gap ts gaps) (p : Location) : ∃ ts', tokensFrom p (printed ts gaps).toList = .ok ts' ∧
      ts'.map (fun t => (t.kind, t.text)) = ts.map (fun t => (t.kind, t.text)) := by
  induction hgaps generalizing p with
  | nil => exact ⟨[], rfl, rfl⟩
  | @cons t gap ts gaps hgap _ ih =>
    obtain ⟨rest, hlexeme⟩ := hlexemes t List.mem_cons_self
    obtain ⟨ts', hts', hsame⟩ := ih (fun u hu => hlexemes u (List.mem_cons_of_mem t hu)) ((p.after t.text.toList).after gap.toList)
    have hread := tokensFrom_lexeme (hlexeme.printed (hgap.parts (printed ts gaps).toList)) p
    rw [tokensFrom_blanks hgap.blank, hts'] at hread
    refine ⟨_, by rw [printed_cons, hread]; rfl, ?_⟩
    rw [List.map_cons, List.map_cons, hsame, String.ofList_toList]

/-- The tokens of a text, printed with blank gaps behind them, are read back: the text that is printed is cut into tokens of the same
kinds and texts. -/
theorem Stream.tokenize_printed {file text : String} {s : Stream} (h : tokenize file text = .ok s) {gaps : List String}
    (hgaps : List.Forall₂ Token.Gap s.tokens gaps) (file' : String) : ∃ s', tokenize file' (printed s.tokens gaps) = .ok s' ∧
      s'.tokens.map (fun t => (t.kind, t.text)) = s.tokens.map (fun t => (t.kind, t.text)) := by
  obtain ⟨ts, hts, rfl⟩ := tokenize_eq_ok.1 h
  obtain ⟨ts', hts', hsame⟩ := tokensFrom_printed (isLexeme_of_tokensFrom hts) hgaps .start
  exact ⟨_, tokenize_eq_ok.2 ⟨ts', hts', rfl⟩, hsame⟩

theorem Stream.tokenize_printed_comment : ∃ s s', Stream.tokenize "unit" "0b1 x:=\"#\n\"#é" = .ok s ∧
    Stream.tokenize "copy" (printed s.tokens ["\t", "\n", " ", "\x0c", "\r\n\r"]) = .ok s' ∧
    s'.tokens.map (fun t => (t.kind, t.text)) = s.tokens.map (fun t => (t.kind, t.text)) := by
  obtain ⟨s, hs⟩ := Stream.exists_tokenize "unit" "0b1 x:=\"#\n\"#é" (by decide +kernel)
  have htokens : (Stream.tokenize "unit" "0b1 x:=\"#\n\"#é").toOption.map Stream.tokens =
      some [⟨.binaryLiteral, "0b1", ⟨1, 1, 0⟩⟩, ⟨.identifier, "x", ⟨1, 5, 4⟩⟩, ⟨.assignment, ":=", ⟨1, 6, 5⟩⟩,
        ⟨.stringLiteral, "\"#\n\"", ⟨1, 8, 7⟩⟩, ⟨.lineComment, "#é", ⟨2, 2, 11⟩⟩] := by decide +kernel
  rw [hs] at htokens
  have hgaps : List.Forall₂ Token.Gap s.tokens ["\t", "\n", " ", "\x0c", "\r\n\r"] := by
    rw [Option.some.inj htokens]
    decide +kernel
  obtain ⟨s', hs', hsame⟩ := Stream.tokenize_printed hs hgaps "copy"
  exact ⟨s, s', hs, hs', hsame⟩

end Courier
