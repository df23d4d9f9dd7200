import Courier.Proofs.Lexical.Layout
import Courier.Proofs.Parser.Acts
import Courier.Proofs.Parser.Orderly
import Courier.Proofs.Report.Excerpt

/-!
# The lines of a report

A report is the source line, the caret line, the line of the place and the message and, for a parse that tells its constructs, one more
line: if the message is one line. Every wording is. But a message tells what was found, and a string literal may go on over a line feed;
no other token that can be found does (`Lexical.IsLexeme.stringLiteral_of_feed`). So the report of a text has the promised lines, unless
it is found at fault for a string literal that holds a line feed (`Stream.linesOf_render_of_error`).
-/

namespace Courier

open Text

/-! ## Wordings -/

/-- A number is written with digits. -/
theorem Text.oneLine_toString (n : Nat) : OneLine (toString n) := by
  intro h
  have hdigits : '\n' ∈ Nat.toDigits 10 n := Nat.toList_repr ▸ h
  exact absurd (Nat.isDigit_of_mem_toDigits (by decide) (by decide) hdigits) (by decide)

theorem Text.oneLine_intercalate {separator : String} {texts : List String} (hseparator : OneLine separator)
    (h : ∀ t ∈ texts, OneLine t) : OneLine (separator.intercalate texts) := by
  rw [OneLine, String.toList_intercalate]
  induction texts with
  | nil => exact List.not_mem_nil
  | cons t texts ih =>
    obtain ⟨ht, htexts⟩ := List.forall_mem_cons.1 h
    cases texts with
    | nil => simpa [OneLine, List.intercalate] using ht
    | cons u us =>
      have hrest := ih htexts
      rw [List.map_cons, List.map_cons, List.intercalate_cons_cons, List.mem_append, List.mem_append]
      rintro ((hmem | hmem) | hmem)
      · exact ht hmem
      · exact hseparator hmem
      · exact hrest hmem

/-- A fault of the scanner is worded on one line: the character that it tells is no line feed. -/
theorem LexFault.oneLine_message {cause : LexFault} {d : Char} (h : cause.IsAbout d) (hd : Text.isBlank d = false) :
    OneLine cause.message := by
  have hchar : OneLine (toString d) := by
    have hlist : (toString d).toList = [d] := String.toList_singleton d
    rw [OneLine, hlist, List.mem_singleton]
    exact fun heq => ne_feed_of_not_blank hd heq.symm
  have hquoted : ∀ before after : String, OneLine before → OneLine after → OneLine (before ++ toString d ++ after) :=
    fun before after hbefore hafter => oneLine_append.2 ⟨oneLine_append.2 ⟨hbefore, hchar⟩, hafter⟩
  cases cause with
  | invalidCharacter c =>
    obtain rfl : c = d := h
    exact hquoted "invalid character '" "'" (by decide) (by decide)
  | invalidInNumber c =>
    obtain rfl : c = d := h
    exact hquoted "invalid character '" "' in numeric literal" (by decide) (by decide)
  | invalidBinaryDigit c =>
    obtain rfl : c = d := h
    exact hquoted "invalid binary digit '" "'" (by decide) (by decide)
  | alreadyTokenized file => exact h.elim
  | _ => decide

/-- The text of a token that a fault tells, if it tells one. -/
def ParseFault.told? : ParseFault → Option String
  | expected _ found | unclosedReturnType found | trailing found => found
  | notAValue text => some text
  | _ => none

theorem oneLine_foundText (found : Option String) : OneLine (foundText found) ↔ ∀ text ∈ found, OneLine text := by
  cases found with
  | none => exact iff_of_true (by decide) (fun _ h => nomatch h)
  | some text =>
    have htext : foundText (some text) = "'" ++ text ++ "'" := rfl
    rw [htext, oneLine_append, oneLine_append]
    have hquote : OneLine "'" := by decide
    exact ⟨fun h t ht => Option.some.inj ht ▸ h.1.2, fun h => ⟨⟨hquote, h text rfl⟩, hquote⟩⟩

/-- A fault of the parser is worded on one line, unless the text that it tells has a line feed. -/
theorem ParseFault.oneLine_message_iff {fault : ParseFault} {found : Option String} (h : fault.OfText found) :
    OneLine fault.message ↔ ∀ text ∈ fault.told?, OneLine text := by
  have hnone : ∀ text ∈ (none : Option String), OneLine text := fun _ h => nomatch h
  cases fault with
  | expected what text =>
    have hwhat : OneLine what := (h.resolve_right id).2
    have hmessage : (expected what text).message = "expected " ++ what ++ ", found " ++ foundText text := rfl
    rw [hmessage, oneLine_append, oneLine_foundText]
    exact and_iff_right (oneLine_append.2 ⟨oneLine_append.2 ⟨by decide, hwhat⟩, by decide⟩)
  | unclosedReturnType text =>
    have hmessage : (unclosedReturnType text).message = "missing ']' to close the return type, found " ++ foundText text := rfl
    rw [hmessage, oneLine_append, oneLine_foundText]
    exact and_iff_right (by decide)
  | trailing text =>
    have hmessage : (trailing text).message = "unexpected " ++ foundText text ++ " after the end of the compilation unit" := rfl
    rw [hmessage, oneLine_append, oneLine_append, oneLine_foundText]
    exact (and_iff_left (by decide)).trans (and_iff_right (by decide))
  | notAValue text =>
    have hmessage : (notAValue text).message = "'" ++ text ++ "' cannot be used as a value" := rfl
    rw [hmessage, oneLine_append, oneLine_append]
    refine (and_iff_left (by decide)).trans ((and_iff_right (by decide)).trans ?_)
    exact ⟨fun h t ht => Option.some.inj ht ▸ h, fun h => h text rfl⟩
  | cursor cause => exact (h.not_internal trivial).elim
  | unbalanced construct => exact (h.not_internal trivial).elim
  | _ => exact iff_of_true (by decide) hnone

/-! ## Tokens over several lines -/

/-- The only lexemes that hold a line feed are strings and block comments. -/
theorem Lexical.IsLexeme.stringLiteral_of_feed {kind : TokenKind} {text rest : List Char} (h : IsLexeme kind text rest)
    (hfeed : '\n' ∈ text) : kind = .stringLiteral ∨ kind = .blockComment := by
  have hword : ¬Letter '\n' := by unfold Letter; decide
  have hdigit : ¬Digit '\n' := by unfold Digit; decide
  have hhex : ¬HexDigit '\n' := by unfold HexDigit Digit; decide
  cases h with
  | word hc hcs hkind hend =>
    rcases List.mem_cons.1 hfeed with rfl | hmem
    · exact absurd hc hword
    · exact ((hcs _ hmem).elim hword hdigit).elim
  | hexadecimal hx hne hds hend =>
    rcases List.mem_cons.1 hfeed with hzero | hmem
    · exact absurd hzero (by decide)
    · rcases List.mem_cons.1 hmem with rfl | hmem
      · exact absurd hx (by decide)
      · exact absurd (hds _ hmem) hhex
  | binary hx hne hds hend =>
    rcases List.mem_cons.1 hfeed with hzero | hmem
    · exact absurd hzero (by decide)
    · rcases List.mem_cons.1 hmem with rfl | hmem
      · exact absurd hx (by decide)
      · exact absurd (hds _ hmem) (by decide)
  | dotted hrun hend hdot => exact absurd (hrun.isDigitOrDot _ hfeed) (by decide)
  | string hbody => exact .inl rfl
  | blockComment hbody => exact .inr rfl
  | lineComment hbody hreturns hrest hmark => exact absurd ((List.mem_cons.1 hfeed).resolve_left (by decide)) hbody
  | single hc =>
    obtain rfl := List.mem_singleton.1 hfeed
    exact absurd (List.mem_map_of_mem hc) (by decide : '\n' ∉ singles.map Prod.fst)
  | assignment => exact absurd hfeed (by decide)
  | colon hrest => exact absurd hfeed (by decide)

/-! ## What a failed parse tells -/

open ParserState in
/-- A failure that is located by its stream, and tells what is next there, tells the text of the token at its place. -/
theorem ParseError.exists_told {e : ParseError} {s : Stream} (hfault : e.fault.OfText (s.significant?.map Token.text))
    (hlocated : e.LocatedIn s) {text : String} (htold : e.fault.told? = some text) :
    ∃ t ∈ s.tokens, t.isComment = false ∧ t.text = text ∧ t.location = e.location := by
  have hnext : s.significant?.map Token.text = some text → e.location = placeIn s.source (significant s.ahead) →
      ∃ t ∈ s.tokens, t.isComment = false ∧ t.text = text ∧ t.location = e.location := by
    intro hfound hplace
    obtain ⟨t, ht, htext⟩ := Option.map_eq_some_iff.1 hfound
    have hhead : (significant s.ahead).head? = some t := List.head?_filter.trans ht
    obtain ⟨v, hv⟩ := List.head?_eq_some_iff.1 hhead
    have hmem : t ∈ significant s.ahead := hv ▸ List.mem_cons_self
    refine ⟨t, List.mem_append_right _ (List.mem_filter.1 hmem).1, isComment_of_mem_significant hmem, htext, ?_⟩
    rw [hplace, hv]
    rfl
  unfold ParseError.LocatedIn at hlocated
  cases hf : e.fault with
  | expected what found =>
    rw [hf] at hfault hlocated htold
    exact hnext ((hfault.resolve_right id).1 ▸ htold) hlocated
  | unclosedReturnType found =>
    rw [hf] at hfault hlocated htold
    have hfound : found = s.significant?.map Token.text := hfault.resolve_right id
    exact hnext (hfound ▸ htold) hlocated
  | trailing found =>
    rw [hf] at hfault hlocated htold
    have hfound : found = s.significant?.map Token.text := hfault.resolve_right id
    exact hnext (hfound ▸ htold) hlocated
  | notAValue value =>
    rw [hf] at hlocated htold
    obtain ⟨t, before, hbehind, hkind, htext, hplace⟩ := hlocated
    have hmem : t ∈ s.cursor.behind.reverse := List.mem_reverse.2 (hbehind ▸ List.mem_cons_self)
    refine ⟨t, List.mem_append_left _ hmem, ?_, htext.trans (Option.some.inj htold), hplace.symm⟩
    rw [Token.isComment, hkind]
    rfl
  | _ => simp [hf, ParseFault.told?] at htold

namespace Stream

open Courier.Parser

variable {file text : String} {s : Stream}

/-- A failed parse is at a fault of the text, told by what is next in the stream that it leaves. -/
theorem ofText_of_parse_error {trace : Bool} {e : ParseError} (he : (s.parse trace).1 = .error e) :
    e.fault.OfText ((s.parse trace).2.significant?.map Token.text) := by
  rw [parse_eq_report] at he ⊢
  cases hunit : Rule.unit.parse maxNesting (.initial s trace) with
  | ok root t =>
    rw [hunit] at he
    nomatch he
  | error e' t =>
    have htold := (truthful_parse maxNesting .unit (.initial s trace) rfl).error hunit
    rw [hunit] at he
    exact Except.error.inj he ▸ htold

/-- The text that a failed parse tells is that of the token at its place. -/
theorem told_of_parse_error {trace : Bool} {e : ParseError} (he : (s.parse trace).1 = .error e) {text : String}
    (htold : e.fault.told? = some text) : ∃ t ∈ s.tokens, t.isComment = false ∧ t.text = text ∧ t.location = e.location := by
  obtain ⟨⟨ts, hpassed⟩, hlands⟩ := parse_lands s trace
  have hlocated : e.LocatedIn (s.parse trace).2 := by
    generalize s.parse trace = result at he hlands
    obtain ⟨result, rest⟩ := result
    obtain rfl : result = .error e := he
    exact hlands
  have htokens : (s.parse trace).2.tokens = s.tokens := hpassed.tokens_eq
  rw [← htokens]
  exact ParseError.exists_told (ofText_of_parse_error he) hlocated htold

/-- A failed parse is worded on one line, unless it tells a string literal that holds a line feed. -/
theorem oneLine_message_iff (h : Stream.tokenize file text = .ok s) {trace : Bool} {e : ParseError}
    (he : (s.parse trace).1 = .error e) : OneLine e.message ↔
      ¬∃ t ∈ s.tokens, t.kind = .stringLiteral ∧ ¬OneLine t.text ∧ t.location = e.location ∧ e.fault.told? = some t.text := by
  rw [ParseError.message, ParseFault.oneLine_message_iff (ofText_of_parse_error he)]
  constructor
  · rintro hall ⟨t, -, -, hfeed, -, htold⟩
    exact hfeed (hall _ htold)
  · intro hnone told htold
    by_contra hfeed
    obtain ⟨t, ht, hcomment, rfl, hplace⟩ := told_of_parse_error he htold
    obtain ⟨rest, hlexeme⟩ := isLexeme_of_tokenize h ht
    rcases hlexeme.stringLiteral_of_feed (Decidable.not_not.1 hfeed) with hkind | hkind
    · exact hnone ⟨t, ht, hkind, hfeed, hplace, htold⟩
    · simp [Token.isComment, hkind, TokenKind.isComment] at hcomment

end Stream

/-! ## Reports -/

namespace Diagnostic

variable {d : Diagnostic}

/-- The place and the message are one line if the name of the file and the message are. -/
theorem oneLine_headline (hfile : OneLine d.file) : OneLine d.headline ↔ OneLine d.message := by
  have hheadline : d.headline = d.file ++ ":" ++ toString d.location.line ++ ":" ++ toString d.location.column ++ ": error: " ++
      d.message := rfl
  have hcolon : OneLine ":" := by decide
  have herror : OneLine ": error: " := by decide
  simp only [hheadline, oneLine_append, oneLine_toString, hfile, hcolon, herror, true_and]

end Diagnostic

/-- The line that tells the constructs of a failed parse, if it tells any. -/
def trailLines (constructs : List String) : List String :=
  if constructs = [] then [] else ["  while parsing: " ++ String.intercalate " > " constructs]

theorem linesOf_trail (headline : String) {constructs : List String} (h : ∀ c ∈ constructs, OneLine c) :
    linesOf (headline ++ Report.trail constructs) = linesOf headline ++ trailLines constructs := by
  cases constructs with
  | nil =>
    rw [show Report.trail [] = "" from rfl, String.append_empty]
    exact (List.append_nil _).symm
  | cons c cs =>
    have htrail : Report.trail (c :: cs) = "\n" ++ ("  while parsing: " ++ String.intercalate " > " (c :: cs)) := by
      rw [← String.append_assoc]
      rfl
    have hline : OneLine ("  while parsing: " ++ String.intercalate " > " (c :: cs)) :=
      oneLine_append.2 ⟨by decide, oneLine_intercalate (by decide) h⟩
    rw [htrail, ← String.append_assoc, linesOf_append_feed, linesOf_of_oneLine hline]
    rfl

theorem Construct.oneLine_name (c : Construct) : OneLine c.name := by
  cases c <;> decide

namespace Stream

open Courier.Parser

/-- The report of every failure is laid out as promised, for every file name without a line feed and every text: the source line, the
caret line, the line of the place and the message, and one more for the constructs of a parse that tells any. The one exception is a parse
that finds fault with a string literal over several lines: its message repeats the literal, so the third line becomes more. -/
theorem linesOf_render_of_error (file text : String) (trace : Bool) (hfile : OneLine file) :
    (∀ e, Stream.tokenize file text = .error e →
      linesOf e.report.render = [e.sourceLine, e.diagnostic.caretLine, e.diagnostic.headline]) ∧
    ∀ s e, Stream.tokenize file text = .ok s → (s.parse trace).1 = .error e →
      linesOf e.report.render = e.sourceLine :: e.diagnostic.caretLine :: (linesOf e.diagnostic.headline ++
        trailLines (e.constructs.map Construct.name)) ∧
      (linesOf e.report.render = [e.sourceLine, e.diagnostic.caretLine, e.diagnostic.headline] ++
        trailLines (e.constructs.map Construct.name) ↔ OneLine e.message) ∧
      (OneLine e.message ↔
        ¬∃ t ∈ s.tokens, t.kind = .stringLiteral ∧ ¬OneLine t.text ∧ t.location = e.location ∧ e.fault.told? = some t.text) := by
  refine ⟨fun e h => ?_, fun s e h he => ?_⟩
  · obtain ⟨rfl, hfault, -⟩ := Stream.tokenize_eq_error.1 h
    obtain ⟨before, d, after, -, -, hblank, habout⟩ := exists_blamed_of_tokensFrom_error hfault
    have hshows := shows_of_tokenize_error h
    have hheadline : OneLine e.diagnostic.headline :=
      (Diagnostic.oneLine_headline (d := e.diagnostic) hfile).2 (LexFault.oneLine_message habout hblank)
    have hlines := Diagnostic.linesOf_render (d := e.diagnostic) hshows.line_ne_zero hshows.oneLine ""
    rwa [String.append_empty, String.append_empty, linesOf_of_oneLine hheadline] at hlines
  · have hshows := shows_of_parse_error h he
    obtain ⟨ts, -, rfl⟩ := Stream.tokenize_eq_ok.1 h
    have hname : e.file = file := (failAlike_of_parse_error he).file.1
    have hheadline : OneLine e.diagnostic.headline ↔ OneLine e.message :=
      Diagnostic.oneLine_headline (d := e.diagnostic) (show OneLine e.file from hname ▸ hfile)
    have hlines : linesOf e.report.render = e.sourceLine :: e.diagnostic.caretLine :: (linesOf e.diagnostic.headline ++
        trailLines (e.constructs.map Construct.name)) := by
      rw [← linesOf_trail _ (fun c hc => ?_)]
      · exact Diagnostic.linesOf_render (d := e.diagnostic) hshows.line_ne_zero hshows.oneLine _
      · obtain ⟨construct, -, rfl⟩ := List.mem_map.1 hc
        exact construct.oneLine_name
    refine ⟨hlines, ?_, oneLine_message_iff h he⟩
    rw [hlines, ← hheadline]
    constructor
    · intro hequal
      by_contra hfeed
      have hlength := congrArg List.length hequal
      have htwo := two_le_length_linesOf hfeed
      simp only [List.length_cons, List.length_append, List.length_nil] at hlength
      omega
    · intro hone
      rw [linesOf_of_oneLine hone]
      rfl

theorem linesOf_render_of_error_member :
    OneLine "unit" ∧
    (∃ e, Stream.tokenize "unit" "a\n\tb := 1é;" = .error e ∧
      linesOf e.report.render = [e.sourceLine, e.diagnostic.caretLine, e.diagnostic.headline]) ∧
    ∃ s e, Stream.tokenize "unit" "\x7b class A \x7b\n \"a b\" \x7d \x7d" = .ok s ∧ (s.parse true).1 = .error e ∧
      linesOf e.report.render = e.sourceLine :: e.diagnostic.caretLine :: (linesOf e.diagnostic.headline ++
        trailLines (e.constructs.map Construct.name)) := by
  have hunit : OneLine "unit" := by decide
  have hfails : (Stream.tokenize "unit" "a\n\tb := 1é;").toOption.isNone = true := by decide +kernel
  obtain ⟨s, e, hs, he, -⟩ := exists_parse_error "unit" "\x7b class A \x7b\n \"a b\" \x7d \x7d" true (fun _ => true) (by decide +kernel)
  refine ⟨hunit, ?_, s, e, hs, he, ((linesOf_render_of_error "unit" _ true hunit).2 s e hs he).1⟩
  cases h : Stream.tokenize "unit" "a\n\tb := 1é;" with
  | ok s =>
    rw [h] at hfails
    nomatch hfails
  | error e => exact ⟨e, rfl, (linesOf_render_of_error "unit" _ true hunit).1 e h⟩

/-- The message that tells a string over two lines is two lines, and the report with its constructs five. -/
theorem length_linesOf_render_string : ∃ s e, Stream.tokenize "unit" "\x7b class \"a\nb\" \x7d" = .ok s ∧
    (s.parse true).1 = .error e ∧ ¬OneLine e.message ∧ (linesOf e.report.render).length = 5 := by
  obtain ⟨s, e, hs, he, hlines⟩ := exists_parse_error "unit" "\x7b class \"a\nb\" \x7d" true
    (fun e => !decide (OneLine e.message) && (linesOf e.report.render).length == 5) (by decide +kernel)
  obtain ⟨hmessage, hlength⟩ := Bool.and_eq_true_iff.1 hlines
  exact ⟨s, e, hs, he, by simpa using hmessage, eq_of_beq hlength⟩

end Stream

end Courier
