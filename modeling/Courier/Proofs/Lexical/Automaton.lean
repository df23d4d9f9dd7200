import Courier.Proofs.Lexical.Positions
import Courier.Proofs.Lexical.States

/-!
# The automaton is safe

The automaton ends on every text and gives what the scan of the text gives (`scans`). Every state that it comes through is safe (`Safe`): at
most one run is on the stack, the byte at hand is the first of a character except in strings and comments, and no lookup of a byte, a slice
or a line is out of place. A turn keeps what is true of the automaton, and a bound on the turns that are left gets smaller (`Sound.goes`).
So what it counts on its way, the line feeds and its place, is right wherever it stands between two characters (`Reached.counts`), and is
what the stream of the text counts anew (`counts_of_tokenize`).
-/

namespace Courier

open Lexical

/-- A stop that is meant: the text is refused for a reason that is told, and no lookup was out of place. -/
def Halt.IsMeant (halt : Halt) : Prop :=
  ∃ message place line, halt = .refused message place line ∧ message ≠ "invalid character"

/-- Every fault is told in more letters than the fallback has. -/
theorem LexFault.message_ne (cause : LexFault) : cause.message ≠ "invalid character" := by
  have hlonger : ∀ front middle back : String, 17 < front.length + back.length → front ++ middle ++ back ≠ "invalid character" := by
    intro front middle back hlt h
    have hlength := congrArg String.length h
    have hmessage : "invalid character".length = 17 := rfl
    rw [String.length_append, String.length_append, hmessage] at hlength
    omega
  cases cause with
  | invalidCharacter c => exact hlonger "invalid character '" _ "'" (by decide)
  | invalidInNumber c => exact hlonger "invalid character '" _ "' in numeric literal" (by decide)
  | invalidBinaryDigit c => exact hlonger "invalid binary digit '" _ "'" (by decide)
  | alreadyTokenized file => exact hlonger "file '" _ "' has already been tokenized" (by decide)
  | _ => decide

namespace Automaton

variable {a b : Automaton} {text : String} {before run left : List Char} {owed : Nat} {given : List Token} {state : LexState}

/-! ## One turn -/

/-- The runs that may hold any character go on with a byte beyond ASCII. -/
theorem dispatch_beyond (h : a.Open state before run left owed given) (hreads : state.Reads run left) (hspans : state.Spans) {c : Char}
    (hc : Text.Beyond c) : a.dispatch c = .ok (.consume, a) := by
  have hne : c ≠ '{' ∧ c ≠ '}' ∧ c ≠ '\n' := ⟨hc.ne _ (by decide), hc.ne _ (by decide), hc.ne _ (by decide)⟩
  simp only [dispatch, h.state_eq]
  cases hreads with
  | string => simp [hc.quote]
  | lineComment => simp [lineComment, opensBlock, hne, bind, Except.bind, pure, Except.pure]
  | blockComment => simp [hne]
  | _ => exact absurd hspans id

/-- Inside a character, the run goes on with the byte at hand. -/
theorem Open.goes_inside (h : a.Open state before run left (owed + 1) given) (hreads : state.Reads run left) (hspans : state.Spans) :
    a.Goes a.turn := by
  obtain ⟨byte, hbyte, hcontinues⟩ := h.byteAt_inside
  obtain ⟨b, hb, hbumped, hopen⟩ := h.bump_inside
  have hturn : a.turn = .ok b := by
    rw [turn, hbyte]
    simp only [bind, Except.bind]
    rw [dispatch_beyond h hreads hspans (Text.beyond_of_le (c := Char.ofUInt8 byte) hcontinues.1)]
    exact hb
  have hlt : a.pos < a.src.length := by
    have hpos := h.pos
    rw [length_src, h.text, Text.byteLength_append]
    omega
  have hpos := hbumped.pos
  have hstarted : a.start.offset < a.pos := by
    cases hreads with
    | string => exact h.started
    | lineComment => exact h.started
    | blockComment => exact h.started
    | _ => exact absurd hspans id
  rw [hturn]
  refine .on hbumped.text (.within hopen hreads (fun _ => hspans)) (weight_lt_of_pos hbumped.text hlt (by omega)) (.inr (.inl ?_))
  rw [hbumped.start]
  omega

/-- What is true of the automaton stays true in a turn. -/
theorem Sound.goes (h : a.Sound) (hlt : a.pos < a.src.length) : a.Goes a.turn := by
  have hleft : ∀ {passed : List Char}, ¬a.Stands passed [] 0 := by
    intro passed hstands
    rw [length_src, hstands.text, List.append_nil, ← hstands.pos] at hlt
    exact Nat.lt_irrefl _ hlt
  cases h with
  | @between before left given h =>
    cases left with
    | nil => exact absurd h.toStands hleft
    | cons d left =>
      have hdispatch : a.dispatch d = a.whitespace d := by
        rw [dispatch, state, h.states]
        rfl
      rw [h.toStands.turn_eq, hdispatch]
      exact h.goes_whitespace
  | @within state before run left owed given h hreads hspans =>
    -- Bytes are owed inside a character only, where a run of any characters goes on; otherwise the state decides.
    cases owed with
    | succ owed => exact h.goes_inside hreads (hspans (Nat.succ_pos owed))
    | zero =>
      cases left with
      | nil => exact absurd h.toStands hleft
      | cons d left =>
        rw [h.toStands.turn_eq]
        cases state with
        | whitespace => cases hreads
        | alpha => exact h.goes_alpha hreads
        | alphaDigit => exact h.goes_alphaDigit hreads
        | integer => exact h.goes_integer hreads
        | decimal => exact h.goes_decimal hreads
        | version => exact h.goes_version hreads
        | hex => exact h.goes_hex hreads
        | binary => exact h.goes_binary hreads
        | string => exact h.goes_string hreads
        | single => exact h.goes_single hreads
        | colon => exact h.goes_colon hreads
        | lineComment => exact h.goes_lineComment hreads
        | blockComment => exact h.goes_blockComment hreads
        | blockCommentClose => exact h.goes_blockCommentClose hreads

/-! ## The end of the text -/

/-- A run that is open at the end of the text ends there. -/
theorem Open.ends_finish (h : a.Open state before run [] 0 given) (hreads : state.Reads run []) : a.Ends [] a.finish := by
  have hdot : ([] : List Char).head? ≠ some '.' := by decide
  simp only [finish, h.state_eq]
  cases hreads with
  | alpha hc hcs => exact h.ends_word hc (fun e he => .inl (hcs e he)) endsRun_nil
  | alphaDigit hc hcs => exact h.ends_word hc hcs endsRun_nil
  | integer hrun => exact h.ends_grouped (.whole hrun) endsRun_nil hdot
  | decimal hrun => exact h.ends_grouped hrun endsRun_nil hdot
  | version hrun => exact h.ends_grouped hrun endsRun_nil hdot
  | hex hx hds => exact h.ends_hexadecimal hx hds endsRun_nil
  | binary hx hds => exact h.ends_binary hx hds endsRun_nil
  | single hc => exact h.ends_single hc
  | colon => exact h.emit (.colon ⟨by decide, by decide⟩)
  | lineComment hbody hmark => exact h.ends_lineComment hbody hmark (.inl rfl)
  | @string body _ hbody =>
    obtain ⟨halt, hhalt, hrefuses⟩ := h.refuse_start (List.append_nil _) rfl (read_string_unterminated hbody)
    rw [hhalt]
    exact .refused hrefuses
  | blockComment hbody =>
    obtain ⟨halt, hhalt, hrefuses⟩ := h.refuse_start (List.append_nil _) rfl (read_blockComment_unterminated hbody)
    rw [hhalt]
    exact .refused hrefuses

/-- At the end of the text, the open run ends. -/
theorem Sound.ends (h : a.Sound) (hend : a.src.length ≤ a.pos) : a.Ends [] a.finish := by
  have hleft : ∀ {passed left : List Char} {owed : Nat}, a.Stands passed left owed → owed = 0 ∧ left = [] := by
    intro passed left owed hstands
    have hpos := hstands.pos
    rw [length_src, hstands.text, Text.byteLength_append] at hend
    exact ⟨by omega, Text.eq_nil_of_byteLength (by omega)⟩
  cases h with
  | between h =>
    obtain ⟨-, rfl⟩ := hleft h.toStands
    have hfinish : a.finish = .ok a := by
      rw [finish, state, h.states]
      simp only [List.headD_cons]
      rw [pop, h.states]
      rfl
    rw [hfinish]
    exact .between rfl (Nat.le_refl _) h
  | within h hreads _ =>
    obtain ⟨rfl, rfl⟩ := hleft h.toStands
    exact h.ends_finish hreads

/-! ## Whole runs -/

/-- What the automaton gives for the text of a file: the tokens and the line feeds of its stream, or its failure. -/
def outcome (file text : String) : Except Halt (List Emitted × List Nat) :=
  match Stream.tokenize file text with
  | .ok s => .ok (s.tokens.map Token.emitted, s.newlines)
  | .error e => .error (.refused e.message e.location e.sourceLine)

/-- A refusal is what the automaton gives. -/
theorem Refuses.outcome_eq {halt : Halt} (h : a.Refuses halt) (file : String) : outcome file a.text = .error halt := by
  obtain ⟨cause, place, hscan, rfl⟩ := h
  rw [outcome, Stream.tokenize, hscan]
  rfl

/-- The tokens at the end of the text are what the automaton gives. -/
theorem Between.outcome_eq (h : a.Between before [] given) (file : String) :
    outcome file a.text = .ok (a.tokens, a.newlines) := by
  have hscan : tokensOf a.text = .ok given := by
    rw [h.scan, List.append_nil, tokensFrom_nil]
    exact congrArg Except.ok (List.append_nil given)
  have htext : a.text.toList = before := by simpa using h.text
  have hnewlines : a.newlines = Text.newlineOffsets 0 before := by simpa using h.newlines
  rw [outcome, Stream.tokenize, hscan, h.tokens, hnewlines, ← htext]
  rfl

theorem Ends.outcome_eq {r : Except Halt Automaton} (h : a.Ends [] r) (file : String) :
    r.map (fun b => (b.tokens, b.newlines)) = outcome file a.text := by
  cases h with
  | between htext hpos h => rw [← htext, h.outcome_eq file]; rfl
  | refused h => rw [h.outcome_eq file]; rfl

theorem sound_ofText (text : String) : (ofText text).Sound := by
  have hscan : tokensOf text = (tokensFrom (Location.start.after []) ([] ++ text.toList)).map ([] ++ ·) := by
    show tokensFrom .start text.toList = (tokensFrom .start text.toList).map ([] ++ ·)
    cases tokensFrom .start text.toList <;> rfl
  have hstands : (ofText text).Stands ([] ++ []) text.toList 0 := ⟨rfl, rfl, rfl, rfl, rfl, fun h => absurd h (Nat.lt_irrefl 0)⟩
  have hbetween : (ofText text).Between [] text.toList [] := ⟨⟨hstands, rfl, hscan⟩, rfl, Nat.le_refl 0⟩
  exact .between hbetween

/-- As many turns as the weight allows are enough: by induction on the turns. -/
theorem Sound.exists_run (file : String) : ∀ (turns : Nat) {a : Automaton}, a.Sound → a.weight ≤ turns →
    ∃ r, a.run? turns = some r ∧ r.map (fun b => (b.tokens, b.newlines)) = outcome file a.text
  | turns, a, h, hle => by
    unfold run?
    split_ifs with hlt
    · match turns with
      | 0 =>
        unfold weight at hle
        omega
      | turns + 1 =>
        have hgoes := h.goes hlt
        dsimp only
        cases hturn : a.turn with
        | error halt =>
          rw [hturn] at hgoes
          cases hgoes with
          | refused hrefuses => exact ⟨_, rfl, (hrefuses.outcome_eq file).symm⟩
        | ok b =>
          rw [hturn] at hgoes
          cases hgoes with
          | on htext hsound hweight _ =>
            rw [← htext]
            exact hsound.exists_run file turns (by omega)
    · exact ⟨_, rfl, (h.ends (Nat.not_lt.1 hlt)).outcome_eq file⟩

/-- The automaton comes this way on a text: it starts before the text, makes turns and ends. -/
inductive Reached (text : String) : Automaton → Prop where
  | start : Reached text (ofText text)
  | turn {a b : Automaton} (h : Reached text a) (hlt : a.pos < text.utf8ByteSize) (hturn : a.turn = .ok b) : Reached text b
  | finish {a b : Automaton} (h : Reached text a) (hend : text.utf8ByteSize ≤ a.pos) (hfinish : a.finish = .ok b) : Reached text b

theorem length_src_eq (h : a.text = text) : a.src.length = text.utf8ByteSize := by
  rw [length_src, h, Text.utf8ByteSize_eq]

/-- Wherever the automaton comes, it is sound. -/
theorem Reached.sound (h : Reached text a) : a.text = text ∧ a.Sound := by
  induction h with
  | start => exact ⟨rfl, sound_ofText text⟩
  | turn _ hlt hturn ih =>
    obtain ⟨htext, hsound⟩ := ih
    have hgoes := hsound.goes (by rwa [length_src_eq htext])
    rw [hturn] at hgoes
    cases hgoes with
    | on htext' hsound' => exact ⟨htext'.trans htext, hsound'⟩
  | finish _ hend hfinish ih =>
    obtain ⟨htext, hsound⟩ := ih
    have hends := hsound.ends (by rwa [length_src_eq htext])
    rw [hfinish] at hends
    cases hends with
    | between htext' _ hbetween => exact ⟨htext'.trans htext, .between hbetween⟩

/-! ## Safety -/

/-- What is true of the automaton wherever it comes on a text. -/
structure Safe (text : String) (a : Automaton) : Prop where
  /-- Blanks are passed at the bottom of the stack, and one run at most is on it. -/
  stack : a.states = [.whitespace] ∨ ∃ run, run ≠ .whitespace ∧ a.states = [run, .whitespace]
  start_le : a.start.offset ≤ a.pos
  pos_le : a.pos ≤ text.utf8ByteSize
  /-- A run has taken a byte, unless the automaton held its first character just now. -/
  started : a.states ≠ [.whitespace] → a.start.offset < a.pos ∨
    ∃ b run, Reached text b ∧ b.states = [.whitespace] ∧ b.turn = .ok a ∧ a = b.begin run
  /-- The automaton stands inside a character at most in a string or in a comment. -/
  boundary : a.state ∉ [.string, .lineComment, .blockComment, .blockCommentClose] → (⟨a.pos⟩ : String.Pos.Raw).IsValid text
  /-- If it stops, the text is refused for a reason. -/
  turn : ∀ halt, a.pos < text.utf8ByteSize → a.turn = .error halt → halt.IsMeant
  finish : ∀ halt, text.utf8ByteSize ≤ a.pos → a.finish = .error halt → halt.IsMeant

theorem Refuses.isMeant {halt : Halt} (h : a.Refuses halt) : halt.IsMeant := by
  obtain ⟨cause, place, -, rfl⟩ := h
  exact ⟨_, _, _, rfl, cause.message_ne⟩

/-- A run starts at the byte at hand or before it. -/
theorem Open.start_le_of_reads (h : a.Open state before run left owed given) (hreads : state.Reads run left)
    (hspans : 0 < owed → state.Spans) : a.start.offset ≤ a.pos := by
  cases run with
  | cons c cs => exact Nat.le_of_lt h.started
  | nil =>
    have howed : owed = 0 := Nat.eq_zero_of_not_pos fun hpos => by
      have hstate := hspans hpos
      cases hreads <;> exact hstate
    subst howed
    exact h.start_le

/-- Where no run may hold any character, the automaton stands between two of them. -/
theorem Sound.isValid (h : a.Sound) (hstate : a.state ∉ [.string, .lineComment, .blockComment, .blockCommentClose]) :
    (⟨a.pos⟩ : String.Pos.Raw).IsValid a.text := by
  cases h with
  | @between before left _ h =>
    have hpos : a.pos = Text.byteLength (before ++ []) := h.pos
    exact hpos ▸ Text.isValid_of_eq_append h.text
  | @within state before run left owed given h hreads hspans =>
    have howed : owed = 0 := Nat.eq_zero_of_not_pos fun hpos => by
      have hspans := hspans hpos
      rw [h.state_eq] at hstate
      cases state <;> first | exact hspans | exact hstate (by decide)
    subst howed
    exact h.pos_eq ▸ Text.isValid_of_eq_append h.text

/-- A run that has no byte was begun in the last turn. -/
theorem Reached.started (h : Reached text a) (hstates : a.states ≠ [.whitespace]) : a.start.offset < a.pos ∨
    ∃ b run, Reached text b ∧ b.states = [.whitespace] ∧ b.turn = .ok a ∧ a = b.begin run := by
  cases h with
  | start => exact absurd rfl hstates
  | @turn b _ h hlt hturn =>
    obtain ⟨htext, hsound⟩ := h.sound
    have hgoes := hsound.goes (by rwa [length_src_eq htext])
    rw [hturn] at hgoes
    cases hgoes with
    | on _ _ _ hstarted =>
      rcases hstarted with hblank | hlt | ⟨run, hblank, hbegin⟩
      · exact absurd hblank hstates
      · exact .inl hlt
      · exact .inr ⟨b, run, h, hblank, hturn, hbegin⟩
  | finish h hend hfinish =>
    obtain ⟨htext, hsound⟩ := h.sound
    have hends := hsound.ends (by rwa [length_src_eq htext])
    rw [hfinish] at hends
    cases hends with
    | between _ _ hbetween => exact absurd hbetween.states hstates

theorem Reached.safe (h : Reached text a) : a.Safe text := by
  obtain ⟨rfl, hsound⟩ := h.sound
  have hlength : a.src.length = a.text.utf8ByteSize := length_src_eq rfl
  refine ⟨?_, ?_, ?_, h.started, hsound.isValid, fun halt hlt hturn => ?_, fun halt hend hfinish => ?_⟩
  · cases hsound with
    | between h => exact .inl h.states
    | within h hreads _ =>
      refine .inr ⟨_, ?_, h.states⟩
      rintro rfl
      cases hreads
  · cases hsound with
    | between h => exact h.start_le
    | within h hreads hspans => exact h.start_le_of_reads hreads hspans
  · rw [← hlength]
    cases hsound with
    | between h => exact h.pos_le
    | within h _ _ => exact h.pos_le
  · have hgoes := hsound.goes (by rwa [hlength])
    rw [hturn] at hgoes
    cases hgoes with
    | refused hrefuses => exact hrefuses.isMeant
  · have hends := hsound.ends (by rwa [hlength])
    rw [hfinish] at hends
    cases hends with
    | refused hrefuses => exact hrefuses.isMeant

/-! ## What the automaton counts -/

/-- What the automaton has counted is right: it keeps the offsets of the line feeds behind it, in order, and its line and its column are
those of its offset. -/
structure Counts (text : String) (a : Automaton) : Prop where
  increasing : a.newlines.Pairwise (· < ·)
  mem_newlines : ∀ i : Nat, i ∈ a.newlines ↔ i < a.pos ∧ text.toUTF8[i]? = some 10
  place : Text.IsPlace text.toList a.here

theorem Stands.counts {passed : List Char} (h : a.Stands passed left 0) : a.Counts a.text := by
  have hpos : a.pos = (Text.bytes passed).length := by rw [Text.length_bytes, ← h.pos, Nat.add_zero]
  refine ⟨?_, fun i => ?_, ?_⟩
  · rw [h.newlines]
    exact Text.pairwise_newlineOffsets 0 passed
  · rw [h.newlines, Text.mem_newlineOffsets, Text.getElem?_toUTF8, h.text, Text.bytes_append, hpos]
    constructor
    · rintro ⟨j, rfl, hj⟩
      obtain ⟨hlt, -⟩ := List.getElem?_eq_some_iff.1 hj
      rw [Nat.zero_add, List.getElem?_append_left hlt]
      exact ⟨hlt, hj⟩
    · rintro ⟨hlt, hi⟩
      rw [List.getElem?_append_left hlt] at hi
      exact ⟨i, (Nat.zero_add i).symm, hi⟩
  · rw [h.here_eq, h.text]
    exact Text.isPlace_after passed left

/-- Between two characters nothing is owed. -/
theorem Stands.owed_eq_zero {passed : List Char} (h : a.Stands passed left owed) (hvalid : (⟨a.pos⟩ : String.Pos.Raw).IsValid a.text) :
    owed = 0 := by
  refine Nat.eq_zero_of_not_pos (fun howed => ?_)
  obtain ⟨front, c, rfl, hlt⟩ := h.inside howed
  obtain ⟨xs, ys, htext, hlength⟩ := Text.exists_append_of_isValid hvalid
  have hpos := h.pos
  rw [Text.byteLength_append, Text.byteLength, Text.byteLength] at hpos
  rcases Text.append_or_append (htext.symm.trans h.text) with ⟨d, hd⟩ | ⟨d, rfl⟩
  · rcases List.eq_nil_or_concat d with rfl | ⟨d, last, rfl⟩
    · rw [List.append_nil] at hd
      rw [← hd, Text.byteLength_append, Text.byteLength, Text.byteLength] at hlength
      omega
    · rw [List.concat_eq_append, ← List.append_assoc] at hd
      obtain ⟨hfront, -⟩ := List.append_inj' hd rfl
      rw [hfront, Text.byteLength_append] at hpos
      omega
  · rw [Text.byteLength_append, Text.byteLength_append, Text.byteLength, Text.byteLength] at hlength
    omega

/-- Wherever the automaton comes to stand between two characters, what it has counted is right. -/
theorem Reached.counts (h : Reached text a) (hvalid : (⟨a.pos⟩ : String.Pos.Raw).IsValid text) : a.Counts text := by
  obtain ⟨rfl, hsound⟩ := h.sound
  cases hsound with
  | between h => exact h.toStands.counts
  | within h _ _ =>
    obtain rfl := h.toStands.owed_eq_zero hvalid
    exact h.toStands.counts

/-- How a run from a state that is reached ends is reached as well, at the end of the text. -/
theorem Reached.of_run {turns : Nat} (h : Reached text a) (hrun : a.run? turns = some (.ok b)) :
    Reached text b ∧ b.pos = text.utf8ByteSize := by
  have hend : ∀ {a : Automaton}, Reached text a → text.utf8ByteSize ≤ a.pos → a.finish = .ok b →
      Reached text b ∧ b.pos = text.utf8ByteSize := by
    intro a h hle hfinish
    have hreached := h.finish hle hfinish
    obtain ⟨htext, hsound⟩ := h.sound
    have hends := hsound.ends (by rwa [length_src_eq htext])
    rw [hfinish] at hends
    cases hends with
    | between _ hpos _ => exact ⟨hreached, Nat.le_antisymm hreached.safe.pos_le (Nat.le_trans hle hpos)⟩
  induction turns generalizing a with
  | zero =>
    unfold run? at hrun
    rw [length_src_eq h.sound.1] at hrun
    split_ifs at hrun with hlt
    exact hend h (Nat.not_lt.1 hlt) (Option.some.inj hrun)
  | succ turns ih =>
    unfold run? at hrun
    rw [length_src_eq h.sound.1] at hrun
    split_ifs at hrun with hlt
    · cases hturn : a.turn with
      | error halt =>
        rw [hturn] at hrun
        nomatch hrun
      | ok c =>
        rw [hturn] at hrun
        exact ih (h.turn hlt hturn) hrun
    · exact hend h (Nat.not_lt.1 hlt) (Option.some.inj hrun)

/-- Where the text of a file can be cut into tokens, what the automaton counts on its way is what the stream counts anew from the whole
text: the line feeds, the place behind the last character and the places of the tokens, and these are right. -/
theorem counts_of_tokenize {file : String} {s : Stream} (hs : Stream.tokenize file text = .ok s) {turns : Nat}
    (hturns : 3 * text.utf8ByteSize + 1 ≤ turns) :
    ∃ a, (ofText text).run? turns = some (.ok a) ∧ a.Counts text ∧ a.newlines = s.newlines ∧ a.here = s.endLocation ∧
      a.tokens = s.tokens.map Token.emitted ∧
      ∀ e ∈ a.tokens, e.location.offset = e.spanStart ∧ Text.IsPlace text.toList e.location := by
  have hweight : (ofText text).weight = 3 * (ofText text).src.length + 1 := rfl
  obtain ⟨r, hrun, hr⟩ := (sound_ofText text).exists_run file turns (by rwa [hweight, length_src_eq rfl])
  have houtcome : outcome file (ofText text).text = .ok (s.tokens.map Token.emitted, s.newlines) := by
    show outcome file text = _
    rw [outcome, hs]
  rw [houtcome] at hr
  cases r with
  | error halt => nomatch hr
  | ok a =>
    obtain ⟨htokens, hnewlines⟩ := Prod.mk.inj (Except.ok.inj hr)
    obtain ⟨hreached, hpos⟩ := Reached.start.of_run hrun
    have hlength : text.utf8ByteSize = Text.byteLength text.toList := Text.utf8ByteSize_eq text
    have hcounts := hreached.counts (by rw [hpos, hlength]; exact Text.isValid_of_eq_append (List.append_nil _).symm)
    have hsource : s.source = text := (Stream.laid_of_tokenize hs).1
    refine ⟨a, hrun, hcounts, hnewlines, ?_, htokens, fun e he => ?_⟩
    · rw [Stream.endLocation, hsource]
      exact hcounts.place.unique (Text.isPlace_endOfText text) (hpos.trans hlength)
    · rw [htokens] at he
      obtain ⟨t, ht, rfl⟩ := List.mem_map.1 he
      obtain ⟨-, -, -, -, hplace⟩ := Stream.place_of_tokenize hs ht
      exact ⟨rfl, hplace⟩

/-- On every text the automaton ends, after three turns for each byte and one more at most. It gives what the scan of the text gives, and
wherever it comes it is safe. -/
theorem scans (file text : String) :
    (∀ turns, 3 * text.utf8ByteSize + 1 ≤ turns →
      ∃ r, (ofText text).run? turns = some r ∧ r.map (fun a => (a.tokens, a.newlines)) = outcome file text) ∧
    ∀ a, Reached text a → a.Safe text := by
  refine ⟨fun turns hle => (sound_ofText text).exists_run file turns ?_, fun a h => h.safe⟩
  have hweight : (ofText text).weight = 3 * (ofText text).src.length + 1 := rfl
  rwa [hweight, length_src_eq rfl]

example : (ofText "\"é\" 1..2").run? 31 = some (.error (.refused "unexpected '.' in numeric literal" ⟨1, 7, 7⟩ "\"é\" 1..2")) := by
  decide +kernel

end Automaton

end Courier
