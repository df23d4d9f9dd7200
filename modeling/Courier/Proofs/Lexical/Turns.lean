import Courier.Proofs.Lexical.Runs
import Courier.Proofs.Lexical.Standing

/-!
# Turns of the automaton

What is true of the automaton wherever it comes (`Sound`): it is between two tokens (`Between`) or in a run that its state has read so far
(`Open`, with `LexState.Reads`), and the tokens it gave are those that the scan of its text gives for what lies behind it. A turn is right
if that stays true and fewer turns are left, or if the text is refused as the scan refuses it (`Goes`). Here are the ways in which a turn is
right, whatever the state: the character at hand is passed, a token is given, a fault is found.
-/

namespace Courier

open Lexical

/-- A token as the automaton gives it. -/
def Token.emitted (t : Token) : Emitted :=
  ⟨t.kind, t.spanStart, t.spanEnd, t.location⟩

namespace Automaton

variable {a b : Automaton} {passed left before run cs : List Char} {owed n : Nat} {given : List Token} {state next : LexState} {c d : Char}
  {kind : TokenKind} {cause : LexFault}

/-! ## The byte at hand as a character -/

/-- Characters beyond ASCII are all alike to the automaton. -/
theorem dispatch_congr (a : Automaton) (hc : Text.Beyond c) (hd : Text.Beyond d) : a.dispatch c = a.dispatch d := by
  have hnec := hc.ne
  have hned := hd.ne
  simp only [List.mem_cons, List.not_mem_nil, or_false, forall_eq_or_imp, forall_eq] at hnec hned
  unfold dispatch
  -- Each state asks for classes only, and neither character is in any.
  cases a.state <;>
    simp [whitespace, endWord, integer, endNumber, lineComment, opensBlock, Text.isWordChar, Text.isTerminator, hc.blank, hd.blank,
      hc.letter, hd.letter, hc.digit, hd.digit, hc.hex, hd.hex, hc.binary, hd.binary, hc.reserved, hd.reserved, hc.quote, hd.quote,
      hc.mark, hd.mark, hc.single, hd.single, hnec, hned]

/-- A turn at the first byte of a character is a turn at the character. -/
theorem Stands.turn_eq (h : a.Stands passed (d :: left) 0) : a.turn = a.dispatch d >>= follow := by
  obtain ⟨b, hb, hshadows, -⟩ := h.byteAt_eq
  have hsame : a.dispatch (Char.ofUInt8 b) = a.dispatch d := by
    rcases hshadows with ⟨hbd, -⟩ | ⟨hb, hd⟩
    · rw [hbd]
    · exact a.dispatch_congr (Text.beyond_of_le hb) (Text.beyond_of_le hd)
  rw [turn, hb, ← hsame]
  rfl

/-! ## The stack -/

theorem switch_eq (h : a.states = [state, .whitespace]) (next : LexState) : a.switch next = { a with states := [next, .whitespace] } := by
  rw [switch, h]

theorem pop_eq (h : a.states = [state, .whitespace]) : a.pop = { a with states := [.whitespace] } := by
  rw [pop, h]

/-! ## What the automaton holds -/

/-- Some characters and their tokens are behind the automaton, it has passed some more of a run, and what it gave is what the scan of its
text gives. -/
structure Holds (a : Automaton) (before run left : List Char) (owed : Nat) (given : List Token) : Prop extends
    Stands a (before ++ run) left owed where
  tokens : a.tokens = given.map Token.emitted
  scan : tokensOf a.text = (tokensFrom (Location.start.after before) (run ++ left)).map (given ++ ·)

/-- The automaton is between two tokens. -/
structure Between (a : Automaton) (before left : List Char) (given : List Token) : Prop extends Holds a before [] left 0 given where
  states : a.states = [.whitespace]
  start_le : a.start.offset ≤ a.pos

/-- The automaton is in a run. -/
structure Open (a : Automaton) (state : LexState) (before run left : List Char) (owed : Nat) (given : List Token) : Prop extends
    Holds a before run left owed given where
  states : a.states = [state, .whitespace]
  start : a.start = Location.start.after before

/-- What is true of the automaton wherever it comes. -/
inductive Sound (a : Automaton) : Prop where
  | between {before left : List Char} {given : List Token} (h : a.Between before left given)
  | within {state : LexState} {before run left : List Char} {owed : Nat} {given : List Token}
      (h : a.Open state before run left owed given) (hreads : state.Reads run left) (hspans : 0 < owed → state.Spans)

theorem Holds.restack (h : a.Holds before run left owed given) (states : List LexState) (start : Location) :
    Holds { a with states := states, start := start } before run left owed given :=
  ⟨⟨h.text, h.pos, h.line, h.column, h.newlines, h.inside⟩, h.tokens, h.scan⟩

theorem Between.begin (h : a.Between before left given) (state : LexState) : (a.begin state).Open state before [] left 0 given := by
  have hplace := h.here_eq
  rw [List.append_nil] at hplace
  exact ⟨h.restack _ _, by rw [Automaton.begin, h.states], hplace⟩

namespace Open

theorem state_eq (h : a.Open state before run left owed given) : a.state = state := by
  rw [Automaton.state, h.states]
  rfl

theorem switch (h : a.Open state before run left owed given) (next : LexState) :
    (a.switch next).Open next before run left owed given := by
  rw [switch_eq h.states]
  exact ⟨h.restack _ _, rfl, h.start⟩

theorem start_offset (h : a.Open state before run left owed given) : a.start.offset = Text.byteLength before := by
  rw [h.start, Text.offset_after]
  exact Nat.zero_add _

theorem pos_eq (h : a.Open state before run left 0 given) : a.pos = Text.byteLength (before ++ run) :=
  h.pos

theorem start_le (h : a.Open state before run left 0 given) : a.start.offset ≤ a.pos := by
  rw [h.start_offset, h.pos_eq, Text.byteLength_append]
  exact Nat.le_add_right _ _

/-- A run that has a character was started before the byte at hand. -/
theorem started (h : a.Open state before (c :: cs) left owed given) : a.start.offset < a.pos := by
  obtain ⟨front, e, hrun⟩ : ∃ front e, c :: cs = front ++ [e] := ⟨_, _, (List.dropLast_append_getLast (List.cons_ne_nil c cs)).symm⟩
  have hpos := h.pos
  -- Some byte of the last character is passed, and with it all the others of the run.
  have howed : owed < e.utf8Size := by
    rcases Nat.eq_zero_or_pos owed with rfl | howed
    · exact e.utf8Size_pos
    · obtain ⟨front', e', hpassed, hlt⟩ := h.inside howed
      rw [hrun, ← List.append_assoc] at hpassed
      obtain rfl := List.singleton_inj.1 (List.append_inj' hpassed rfl).2
      exact hlt
  rw [hrun, ← List.append_assoc, Text.byteLength_append, Text.byteLength_append, Text.byteLength, Text.byteLength] at hpos
  rw [h.start_offset]
  omega

theorem slice_eq (h : a.Open state before run left 0 given) : a.slice a.start.offset a.pos = .ok run := by
  rw [h.start_offset, h.pos_eq]
  exact Automaton.slice_eq before run left (by rw [h.text, List.append_assoc])

theorem bytesBetween_eq (h : a.Open state before run left 0 given) : a.bytesBetween a.start.offset a.pos = .ok (Text.bytes run) := by
  have hbytes : a.src = Text.bytes before ++ (Text.bytes run ++ Text.bytes left) := by
    rw [src_eq, h.text, Text.bytes_append, Text.bytes_append, List.append_assoc]
  have hlength : Text.byteLength (before ++ run) - Text.byteLength before = (Text.bytes run).length := by
    rw [Text.length_bytes, Text.byteLength_append, Nat.add_sub_cancel_left]
  rw [bytesBetween, if_pos ⟨h.start_le, h.pos_le⟩, h.start_offset, h.pos_eq, hlength, hbytes, ← Text.length_bytes before,
    List.drop_left, List.take_left]

/-- The first byte of a run. -/
theorem byteAt_start (h : a.Open state before (c :: cs) left owed given) :
    ∃ b, a.byteAt a.start.offset = .ok b ∧ Text.Shadows b c := by
  obtain ⟨b, hb, hshadows, -⟩ := Text.exists_getElem?_bytes before c (cs ++ left)
  refine ⟨b, ?_, hshadows⟩
  rw [byteAt, src_eq, h.text, h.start_offset, List.append_assoc, List.cons_append, hb]

/-- The last byte of a run. -/
theorem byteBefore_eq (h : a.Open state before (cs ++ [c]) left 0 given) : ∃ b, a.byteBefore a.pos = .ok b ∧ Text.Shadows b c := by
  obtain ⟨i, b, hlength, hb, hshadows⟩ := Text.exists_getElem?_last (before ++ cs) c left
  refine ⟨b, ?_, hshadows⟩
  have htext : a.text.toList = before ++ cs ++ c :: left := by
    rw [h.text, List.append_assoc, List.append_assoc, List.append_assoc]
    rfl
  rw [h.pos_eq, ← List.append_assoc, hlength, byteBefore, byteAt, src_eq, htext, hb]

end Open

/-! ## What a turn does -/

/-- A bound on the turns that are left. A byte is passed in at most three turns: a run is begun on it, the run goes on with it, and the run
ends behind it. -/
def weight (a : Automaton) : Nat :=
  3 * (a.src.length - a.pos) + if a.states = [.whitespace] then 1 else if a.start.offset < a.pos then 2 else 0

/-- The automaton stops for the fault that the scan of its text finds. -/
def Refuses (a : Automaton) (halt : Halt) : Prop :=
  ∃ cause place, tokensOf a.text = .error (cause, place) ∧
    halt = .refused cause.message place (Text.lineAt a.text place.offset)

/-- A turn is right: what is true of the automaton stays true, fewer turns are left, and only a run that was begun just now has no byte yet;
or the text is refused. -/
inductive Goes (a : Automaton) : Except Halt Automaton → Prop where
  | on {b : Automaton} (htext : b.text = a.text) (hsound : b.Sound) (hlt : b.weight < a.weight)
      (hstarted : b.states = [.whitespace] ∨ b.start.offset < b.pos ∨ ∃ state, a.states = [.whitespace] ∧ b = a.begin state) :
      Goes a (.ok b)
  | refused {halt : Halt} (h : a.Refuses halt) : Goes a (.error halt)

/-- The run ends: the automaton is between tokens and no byte is lost; or the text is refused. -/
inductive Ends (a : Automaton) (left : List Char) : Except Halt Automaton → Prop where
  | between {b : Automaton} {before : List Char} {given : List Token} (htext : b.text = a.text) (hpos : a.pos ≤ b.pos)
      (h : b.Between before left given) : Ends a left (.ok b)
  | refused {halt : Halt} (h : a.Refuses halt) : Ends a left (.error halt)

theorem src_congr (h : b.text = a.text) : b.src = a.src := by
  rw [src, src, h]

/-- Where a byte is passed, fewer turns are left. -/
theorem weight_lt_of_pos (htext : b.text = a.text) (hlt : a.pos < a.src.length) (hpos : a.pos < b.pos) : b.weight < a.weight := by
  unfold weight
  rw [src_congr htext]
  split_ifs <;> omega

/-- A turn in which a run ends is right if it leaves fewer turns. -/
theorem Ends.goes {r : Except Halt Automaton} (h : b.Ends left r) (htext : b.text = a.text)
    (hlt : 3 * (b.src.length - b.pos) + 1 < a.weight) : a.Goes r := by
  cases h with
  | refused h =>
    rw [Refuses, htext] at h
    exact .refused h
  | @between b' before given htext' hpos h =>
    refine .on (htext'.trans htext) (.between h) ?_ (.inl h.states)
    rw [weight, src_congr htext', if_pos h.states]
    omega

/-- The byte at hand is held when a run ends. -/
theorem hold_pop (r : Except Halt Automaton) :
    ((do return (Step.hold, (← r).pop)) >>= follow) = (do return (← r).pop : Except Halt Automaton) := by
  cases r <;> rfl

/-! ## Refusals -/

theorem refuse_goes {place : Location} (h : tokensOf a.text = .error (cause, place)) :
    ∃ halt, (∀ α : Type, (a.refuse place cause.message : Except Halt α) = .error halt) ∧ a.Refuses halt := by
  obtain ⟨xs, ys, htext, rfl⟩ := exists_of_tokensFrom_error h
  have hoffset : (Location.start.after xs).offset = Text.byteLength xs := by
    rw [Text.offset_after]
    exact Nat.zero_add _
  exact ⟨_, fun _ => refuse_eq xs ys htext hoffset _, cause, _, h, rfl⟩

/-- A fault in the run is the fault of the text. -/
theorem Holds.fault (h : a.Holds before run left owed given) {xs : List Char} (happ : run ++ left = c :: cs)
    (hc : Text.isBlank c = false) (hread : Courier.Lexeme.read c cs = .fault cause xs) :
    tokensOf a.text = .error (cause, Location.start.after (before ++ xs)) := by
  rw [h.scan, happ, tokensFrom_fault hc hread, Location.after_append]
  rfl

/-- The character at hand is a fault of the run. -/
theorem Holds.refuse_here {α : Type} (h : a.Holds before run (d :: left) 0 given) (happ : run ++ d :: left = c :: cs)
    (hc : Text.isBlank c = false) (hread : Courier.Lexeme.read c cs = .fault cause run) (f : α → Except Halt Automaton) :
    a.Goes (a.refuse a.here cause.message >>= f) := by
  obtain ⟨halt, hhalt, hrefuses⟩ := refuse_goes (h.fault happ hc hread)
  rw [h.here_eq, hhalt]
  exact .refused hrefuses

/-! ## Passing a byte -/

namespace Open

/-- A byte that is passed changes where the automaton stands and nothing else. -/
theorem bumped {run' left' : List Char} {owed' : Nat} (h : a.Open state before run left owed given) (hb : a.Bumped b)
    (hstands : b.Stands (before ++ run') left' owed') (happ : run' ++ left' = run ++ left) :
    b.Open state before run' left' owed' given where
  toStands := hstands
  tokens := by rw [hb.tokens, h.tokens]
  scan := by rw [hb.text, h.scan, happ]
  states := by rw [hb.states, h.states]
  start := by rw [hb.start, h.start]

/-- The first byte of a character is passed as a part of the run. -/
theorem bump_eq (h : a.Open state before run (d :: left) 0 given) :
    ∃ b, a.bump = .ok b ∧ a.Bumped b ∧ b.Open state before (run ++ [d]) left (d.utf8Size - 1) given := by
  obtain ⟨b, hb, hbumped, hstands⟩ := h.toStands.bump_eq
  rw [List.append_assoc] at hstands
  exact ⟨b, hb, hbumped, h.bumped hbumped hstands (List.append_assoc run [d] left)⟩

/-- One more byte of a character is passed, which the run has already. -/
theorem bump_inside (h : a.Open state before run left (owed + 1) given) :
    ∃ b, a.bump = .ok b ∧ a.Bumped b ∧ b.Open state before run left owed given := by
  obtain ⟨b, hb, hbumped, hstands⟩ := h.toStands.bump_inside
  exact ⟨b, hb, hbumped, h.bumped hbumped hstands rfl⟩

/-- The run goes on with the character at hand. -/
theorem goes_bump (h : b.Open state before run (d :: left) 0 given) (htext : b.text = a.text) (hpos : b.pos = a.pos)
    (hreads : state.Reads (run ++ [d]) left) (hspans : state.Spans ∨ d.toNat < 128) : a.Goes b.bump := by
  obtain ⟨b', hb', hbumped, hopen⟩ := h.bump_eq
  have hlt := h.lt_length
  have hle := h.start_le
  rw [src_congr htext, hpos] at hlt
  rw [hb']
  refine .on (hbumped.text.trans htext) (.within hopen hreads fun howed => hspans.resolve_right fun hascii => ?_)
    (weight_lt_of_pos (hbumped.text.trans htext) hlt ?_) (.inr (.inl ?_))
  · rw [Text.utf8Size_of_lt hascii] at howed
    omega
  · rw [hbumped.pos, hpos]
    omega
  · rw [hbumped.start, hbumped.pos]
    omega

/-- The same state goes on with the character at hand. -/
theorem goes_consume (h : a.Open state before run (d :: left) 0 given) (hreads : state.Reads (run ++ [d]) left)
    (hspans : state.Spans ∨ d.toNat < 128) : a.Goes (follow (.consume, a)) :=
  h.goes_bump rfl rfl hreads hspans

/-- Another state goes on with the character at hand. -/
theorem goes_switch (h : a.Open state before run (d :: left) 0 given) (hreads : next.Reads (run ++ [d]) left)
    (hspans : next.Spans ∨ d.toNat < 128) : a.Goes (follow (.consume, a.switch next)) := by
  have hswitch := switch_eq h.states next
  refine (h.switch next).goes_bump ?_ ?_ hreads hspans
  · rw [hswitch]
  · rw [hswitch]

/-! ## Giving tokens -/

/-- A turn in which the run ends is right. -/
theorem goes_of_ends {r : Except Halt Automaton} (h : a.Open state before (c :: cs) left owed given) (hends : a.Ends left r) :
    a.Goes r := by
  refine hends.goes rfl ?_
  rw [weight, if_neg (by rw [h.states]; simp), if_pos h.started]
  omega

/-- A token of the run is given, and the run ends. -/
theorem emitSpan {text : List Char} {stop : Nat} (h : a.Open state before run left 0 given)
    (hstop : stop = Text.byteLength (before ++ text))
    (hscan : ∀ p, tokensFrom p (run ++ left) = (tokensFrom (p.after run) left).map (⟨kind, String.ofList text, p⟩ :: ·)) :
    a.Ends left (.ok (a.emitSpan kind stop).pop) := by
  have hpop : (a.emitSpan kind stop).pop = { a.emitSpan kind stop with states := [.whitespace] } := pop_eq h.states
  have hspan : (⟨kind, a.start.offset, stop, a.start⟩ : Emitted) =
      Token.emitted ⟨kind, String.ofList text, Location.start.after before⟩ := by
    rw [Token.emitted, Token.spanEnd, Token.spanStart, Token.byteLength, String.toList_ofList, h.start, hstop, Text.byteLength_append,
      ← h.start, h.start_offset]
  have hbetween : Between { a.emitSpan kind stop with states := [.whitespace] } (before ++ run) left
      (given ++ [⟨kind, String.ofList text, Location.start.after before⟩]) := by
    refine ⟨⟨?_, ?_, ?_⟩, rfl, h.start_le⟩
    · rw [List.append_nil]
      exact ⟨h.text, h.pos, h.line, h.column, h.newlines, h.inside⟩
    · rw [List.map_append, ← h.tokens, List.map_singleton, ← hspan]
      rfl
    · have hwhole := h.scan
      rw [hscan, ← Location.after_append] at hwhole
      refine hwhole.trans ?_
      rw [List.nil_append]
      cases tokensFrom (Location.start.after (before ++ run)) left with
      | error e => rfl
      | ok ts => exact congrArg Except.ok (List.append_cons given _ ts)
  rw [hpop]
  exact .between rfl (Nat.le_refl _) hbetween

/-- A run that is a lexeme is given as a token. -/
theorem emit (h : a.Open state before run left 0 given) (hlex : IsLexeme kind run left) : a.Ends left (.ok (a.emit kind).pop) :=
  h.emitSpan h.pos_eq fun p => tokensFrom_lexeme hlex p

/-- The run takes the character at hand as its last. -/
theorem goes_close (h : a.Open state before run (d :: left) 0 given) (hd : d.toNat < 128) (hlex : IsLexeme kind (run ++ [d]) left) :
    a.Goes (a.close kind >>= follow) := by
  obtain ⟨b, hb, hbumped, hopen⟩ := h.bump_eq
  rw [Text.utf8Size_of_lt hd] at hopen
  have hlt := h.lt_length
  -- The byte at hand is passed, so that whatever the stack was, fewer turns are left.
  have hclose : (a.close kind >>= follow) = .ok (b.emit kind).pop := by
    rw [close, hb]
    rfl
  rw [hclose]
  refine (hopen.emit hlex).goes hbumped.text ?_
  rw [weight, src_congr hbumped.text, hbumped.pos]
  omega

/-- The fault of the whole run is found at its start. -/
theorem refuse_start (h : a.Open state before run left owed given) (happ : run ++ left = c :: cs) (hc : Text.isBlank c = false)
    (hread : Courier.Lexeme.read c cs = .fault cause []) :
    ∃ halt, (∀ α : Type, (a.refuse a.start cause.message : Except Halt α) = .error halt) ∧ a.Refuses halt := by
  rw [h.start]
  refine refuse_goes ?_
  rw [h.fault happ hc hread, List.append_nil]

end Open

end Automaton

end Courier
