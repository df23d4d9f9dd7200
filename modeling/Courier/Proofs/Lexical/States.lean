import Courier.Proofs.Lexical.Turns

/-!
# The states of the automaton

One lemma for each state: with what the state has read of its run, its turn at the character at hand is right (`goes_alpha` and so on). Where
a run ends at a terminator or at the end of the text, one lemma serves both (`ends_word` and so on). It compares what the automaton looks up
in bytes with what the reader of the lexeme finds in characters.
-/

namespace Courier.Automaton

open Lexical

variable {a : Automaton} {before run left body cs ds : List Char} {n : Nat} {given : List Token} {state : LexState} {c d x : Char}
  {kind : TokenKind}

/-! ## Between tokens -/

namespace Between

/-- A run is begun on the character at hand, which is held. -/
theorem goes_hold (h : a.Between before left given) (hreads : state.Reads [] left) : a.Goes (.ok (a.begin state)) := by
  have hopen := h.begin state
  refine .on rfl (.within hopen hreads (fun hlt => absurd hlt (Nat.lt_irrefl 0))) ?_ (.inr (.inr ⟨state, h.states, rfl⟩))
  have hheld : ¬(a.begin state).start.offset < (a.begin state).pos := Nat.lt_irrefl _
  unfold weight
  rw [if_pos h.states, if_neg (by rw [hopen.states]; simp), if_neg hheld]
  exact Nat.lt_succ_self _

/-- A run is begun on the character at hand, which is passed. -/
theorem goes_begin (h : a.Between before (d :: left) given) (hreads : state.Reads [d] left) (hd : d.toNat < 128) :
    a.Goes (follow (.consume, a.begin state)) :=
  (h.begin state).goes_bump rfl rfl hreads (.inr hd)

/-- A blank is passed. -/
theorem goes_blank (h : a.Between before (d :: left) given) (hd : Text.isBlank d = true) : a.Goes (follow (.consume, a)) := by
  obtain ⟨b, hb, hbumped, hstands⟩ := h.toStands.bump_eq
  rw [List.append_nil, Text.utf8Size_of_lt (Text.ascii_of Text.Beyond.blank hd)] at hstands
  have hbetween : b.Between (before ++ [d]) left given := by
    refine ⟨⟨by rwa [List.append_nil], ?_, ?_⟩, ?_, ?_⟩
    · rw [hbumped.tokens, h.tokens]
    · rw [hbumped.text, h.scan, List.nil_append, tokensFrom_blank hd, Location.after_append]
      rfl
    · rw [hbumped.states, h.states]
    · rw [hbumped.start, hbumped.pos]
      exact Nat.le_succ_of_le h.start_le
  have hpos := hbumped.pos
  rw [follow, hb]
  exact .on hbumped.text (.between hbetween) (weight_lt_of_pos hbumped.text h.lt_length (by omega)) (.inl hbetween.states)

theorem goes_whitespace (h : a.Between before (d :: left) given) : a.Goes (a.whitespace d >>= follow) := by
  unfold whitespace
  split_ifs with hblank hletter hdigit hquote hmark hcolon hsingle
  · exact h.goes_blank hblank
  · exact h.goes_hold (.heldWord (isLetter_iff.1 hletter))
  · exact h.goes_hold (.heldNumber (isDigit_iff.1 hdigit))
  · obtain rfl : d = '"' := by simpa [Text.isQuote] using hquote
    exact h.goes_begin (.string List.not_mem_nil) (by decide)
  · obtain rfl : d = '#' := by simpa [Text.isCommentMark] using hmark
    exact h.goes_begin (.lineComment List.not_mem_nil (by decide)) (by decide)
  · subst hcolon
    exact h.goes_begin .colon (by decide)
  · obtain ⟨kind, hkind⟩ := Option.isSome_iff_exists.1 hsingle
    exact h.goes_begin (.single (ofChar?_eq_some.1 hkind)) (Text.ascii_of_ofChar? hkind)
  · rw [Bool.not_eq_true] at hblank hletter hdigit hquote hmark
    rw [Option.not_isSome_iff_eq_none] at hsingle
    rw [refuseCharacter, h.currentChar_eq]
    exact h.refuse_here rfl hblank (read_nothing hletter hdigit hquote hmark hcolon hsingle) follow

end Between

namespace Open

/-! ## Words -/

theorem ends_word (h : a.Open state before (c :: cs) left 0 given) (hc : Letter c) (hcs : ∀ d ∈ cs, Letter d ∨ Digit d)
    (hend : EndsRun left) : a.Ends left (do return (← a.emitWord).pop) := by
  have hword : a.emitWord = .ok (a.emit (Courier.Lexeme.wordKind (c :: cs))) := by
    rw [emitWord, h.slice_eq]
    rfl
  rw [hword]
  exact h.emit (.word hc hcs (wordKind_iff.1 rfl) hend)

theorem goes_endWord (h : a.Open state before (c :: cs) (d :: left) 0 given) (hc : Letter c) (hcs : ∀ d ∈ cs, Letter d ∨ Digit d)
    (hd : Text.isWordChar d = false) : a.Goes (a.endWord d >>= follow) := by
  unfold endWord
  cases hterm : Text.isTerminator d with
  | true =>
    rw [if_pos rfl, hold_pop]
    exact h.goes_of_ends (h.ends_word hc hcs (endsRun_cons hterm))
  | false =>
    rw [if_neg Bool.false_ne_true, refuseCharacter, h.currentChar_eq]
    exact h.refuse_here rfl (not_blank_of (by decide) (isLetter_iff.2 hc)) (read_word_runsOn hc hcs hd hterm) follow

theorem goes_alpha (h : a.Open .alpha before run (d :: left) 0 given) (hreads : LexState.alpha.Reads run (d :: left)) :
    a.Goes (a.dispatch d >>= follow) := by
  simp only [dispatch, h.state_eq]
  cases hreads with
  | heldWord hd =>
    rw [if_pos (isLetter_iff.2 hd)]
    exact h.goes_consume (.alpha hd (fun _ he => nomatch he)) (.inr (Text.ascii_of Text.Beyond.letter (isLetter_iff.2 hd)))
  | @alpha c cs _ hc hcs =>
    have hword : ∀ e ∈ cs, Letter e ∨ Digit e := fun e he => .inl (hcs e he)
    split_ifs with hletter hdigit
    · have hnext : ∀ e ∈ cs ++ [d], Letter e := forall_mem_concat hcs (isLetter_iff.1 hletter)
      exact h.goes_consume (.alpha hc hnext) (.inr (Text.ascii_of Text.Beyond.letter hletter))
    · have hnext : ∀ e ∈ cs ++ [d], Letter e ∨ Digit e := forall_mem_concat hword (.inr (isDigit_iff.1 hdigit))
      exact h.goes_switch (.alphaDigit hc hnext) (.inr (Text.ascii_of Text.Beyond.digit hdigit))
    · exact h.goes_endWord hc hword (by simp [Text.isWordChar, hletter, hdigit])

theorem goes_alphaDigit (h : a.Open .alphaDigit before run (d :: left) 0 given) (hreads : LexState.alphaDigit.Reads run (d :: left)) :
    a.Goes (a.dispatch d >>= follow) := by
  simp only [dispatch, h.state_eq]
  cases hreads with
  | @alphaDigit c cs _ hc hcs =>
    split_ifs with hd
    · have hword := isWordChar_iff.1 hd
      have hnext : ∀ e ∈ cs ++ [d], Letter e ∨ Digit e := forall_mem_concat hcs hword
      have hascii : d.toNat < 128 := by
        rcases hword with hletter | hdigit
        · exact Text.ascii_of Text.Beyond.letter (isLetter_iff.2 hletter)
        · exact Text.ascii_of Text.Beyond.digit (isDigit_iff.2 hdigit)
      exact h.goes_consume (.alphaDigit hc hnext) (.inr hascii)
    · exact h.goes_endWord hc hcs (Bool.not_eq_true _ ▸ hd)

/-! ## Numbers -/

/-- A number ends at the character at hand. -/
theorem goes_endNumber (h : a.Open state before (c :: cs) (d :: left) 0 given) (hc : Digit c)
    (hends : EndsRun (d :: left) → a.Ends (d :: left) (do return (← a.emitNumber kind).pop))
    (hrunsOn : Text.isTerminator d = false → Courier.Lexeme.read c (cs ++ d :: left) = .fault (.invalidInNumber d) (c :: cs)) :
    a.Goes (a.endNumber d kind >>= follow) := by
  unfold endNumber
  cases hterm : Text.isTerminator d with
  | true =>
    rw [if_pos rfl, hold_pop]
    exact h.goes_of_ends (hends (endsRun_cons hterm))
  | false =>
    rw [if_neg Bool.false_ne_true, h.currentChar_eq]
    exact h.refuse_here rfl (not_blank_of (by decide) (isDigit_iff.2 hc)) (hrunsOn hterm) follow

/-- A number whose bytes are one is given as a token, and any other is refused. -/
theorem ends_number (h : a.Open state before (c :: cs) left 0 given) (hc : Digit c) 
    (hgood : isWellFormed kind (Text.bytes (c :: cs)) = true → IsLexeme kind (c :: cs) left)
    (hbad : isWellFormed kind (Text.bytes (c :: cs)) = false → Courier.Lexeme.read c (cs ++ left) = .fault .malformedNumber []) :
    a.Ends left (do return (← a.emitNumber kind).pop) := by
  unfold emitNumber
  rw [h.bytesBetween_eq]
  cases hwell : isWellFormed kind (Text.bytes (c :: cs)) with
  | true =>
    have hemit := h.emit (hgood hwell)
    simpa [bind, Except.bind, pure, Except.pure, hwell] using hemit
  | false =>
    obtain ⟨halt, hhalt, hrefuses⟩ := h.refuse_start rfl (not_blank_of (by decide) (isDigit_iff.2 hc)) (hbad hwell)
    have hrefused : a.Ends left (.error halt) := .refused hrefuses
    simpa [bind, Except.bind, pure, Except.pure, hwell, hhalt] using hrefused

/-- A dotted number is one if its last byte is a digit. -/
theorem isWellFormed_numberKind (h : Grouped n run) : isWellFormed (numberKind n) (Text.bytes run) = true ↔ Dotted n run := by
  have hlast : ∀ (m : Nat) (front : List Char) {e : Char}, e.toNat < 128 →
      isWellFormed (numberKind (m + 1)) (Text.bytes (front ++ [e])) = Text.isDigit e := by
    intro m front e he
    obtain ⟨b, hbytes, rfl⟩ := Text.exists_bytes_concat front he
    rw [hbytes]
    cases m <;> simp [numberKind, isWellFormed]
  cases h with
  | whole h =>
    refine iff_of_true ?_ h
    obtain ⟨front, e, rfl, he⟩ := h.exists_last
    cases n with
    | zero => rfl
    | succ m => rw [hlast m front (Text.ascii_of Text.Beyond.digit (isDigit_iff.2 he)), isDigit_iff.2 he]
  | @dangling n run h =>
    refine iff_of_false ?_ (fun hdotted => hdotted.getLast? List.getLast?_concat)
    rw [hlast n run (by decide)]
    decide

/-- Groups of digits and dots end. -/
theorem ends_grouped (h : a.Open state before run left 0 given) (hrun : Grouped n run) (hend : EndsRun left)
    (hdot : left.head? ≠ some '.') : a.Ends left (do return (← a.emitNumber (numberKind n)).pop) := by
  obtain ⟨c, cs, rfl, hc⟩ := hrun.head
  refine h.ends_number hc (fun hwell => .dotted ((isWellFormed_numberKind hrun).1 hwell) hend hdot) (fun hwell => ?_)
  generalize hwhole : c :: cs = run at hrun hwell
  cases hrun with
  | whole hrun =>
    rw [(isWellFormed_numberKind (.whole hrun)).2 hrun] at hwell
    nomatch hwell
  | @dangling n run hrun =>
    obtain ⟨e, es, rfl, -⟩ := hrun.head
    obtain ⟨rfl, rfl⟩ := List.cons.inj hwhole
    exact hrun.read_dangling hend hdot

theorem goes_endGrouped (h : a.Open state before run (d :: left) 0 given) (hrun : Grouped n run)
    (hmark : run = ['0'] → d ∉ ['x', 'X', 'b', 'B']) (hdigit : Text.isDigit d = false) (hdot : d ≠ '.') :
    a.Goes (a.endNumber d (numberKind n) >>= follow) := by
  have hdotted : Courier.Lexeme.isDigitOrDot d = false := by simp [Courier.Lexeme.isDigitOrDot, hdigit, hdot]
  have hends : EndsRun (d :: left) → a.Ends (d :: left) (do return (← a.emitNumber (numberKind n)).pop) := fun hend =>
    h.ends_grouped hrun hend (by simpa using hdot)
  obtain ⟨c, cs, rfl, hc⟩ := hrun.head
  exact h.goes_endNumber hc hends fun hterm => hrun.read_runsOn hmark hdotted hterm

/-- The run of digits is a single zero, or it is not. -/
theorem leadingZero_eq (h : a.Open state before run left 0 given) (hrun : ∀ e ∈ run, Digit e) :
    a.leadingZero = .ok (decide (run = ['0'])) := by
  have hpos : a.pos = a.start.offset + Text.byteLength run := by rw [h.start_offset, h.pos_eq, Text.byteLength_append]
  unfold leadingZero
  -- The automaton is at the second byte of the run exactly behind a single digit.
  match run, hrun with
  | [], _ =>
    rw [if_neg (by rw [hpos, Text.byteLength]; omega)]
    rfl
  | [e], hrun =>
    have hascii : e.toNat < 128 := Text.ascii_of Text.Beyond.digit (isDigit_iff.2 (hrun e List.mem_cons_self))
    obtain ⟨b, hb, hshadows⟩ := h.byteAt_start
    have hzero : b = 48 ↔ e = '0' := hshadows.eq_iff (by decide)
    have hsame : (b == 48) = decide ([e] = ['0']) := by
      rw [Bool.eq_iff_iff, beq_iff_eq, hzero, decide_eq_true_iff, List.singleton_inj]
    rw [if_pos (by rw [hpos, Text.byteLength, Text.utf8Size_of_lt hascii]; rfl), hb, ← hsame]
    rfl
  | e :: e' :: es, _ =>
    have hsize := e.utf8Size_pos
    have hsize' := e'.utf8Size_pos
    rw [if_neg (by rw [hpos, Text.byteLength, Text.byteLength]; omega), decide_eq_false (by simp)]

theorem goes_integer (h : a.Open .integer before run (d :: left) 0 given) (hreads : LexState.integer.Reads run (d :: left)) :
    a.Goes (a.dispatch d >>= follow) := by
  simp only [dispatch, h.state_eq]
  unfold integer
  cases hreads with
  | heldNumber hd =>
    have hone : Dotted 0 [d] := .digits (by simp) (List.forall_mem_singleton.2 hd)
    rw [h.leadingZero_eq (fun _ he => nomatch he)]
    simp only [bind, Except.bind, pure, Except.pure]
    rw [if_pos (isDigit_iff.2 hd)]
    exact h.goes_consume (.integer hone) (.inr (Text.ascii_of Text.Beyond.digit (isDigit_iff.2 hd)))
  | integer hrun =>
    have hgrouped : Grouped 0 run := .whole hrun
    have hdigits : ∀ e ∈ run, Digit e := by
      cases hrun with
      | digits _ hds => exact hds
    rw [h.leadingZero_eq hdigits]
    simp only [bind, Except.bind, pure, Except.pure]
    split_ifs with hdigit hhex hbinary hdot
    · exact h.goes_consume (.integer (hrun.concat_digit (isDigit_iff.1 hdigit))) (.inr (Text.ascii_of Text.Beyond.digit hdigit))
    · obtain ⟨rfl, hd⟩ : run = ['0'] ∧ (d = 'x' ∨ d = 'X') := by simpa using hhex
      exact h.goes_switch (.hex hd (fun _ he => nomatch he)) (.inr (by rcases hd with rfl | rfl <;> decide))
    · obtain ⟨rfl, hd⟩ : run = ['0'] ∧ (d = 'b' ∨ d = 'B') := by simpa using hbinary
      exact h.goes_switch (.binary hd (fun _ he => nomatch he)) (.inr (by rcases hd with rfl | rfl <;> decide))
    · subst hdot
      exact h.goes_switch (.decimal (.dangling hrun)) (.inr (by decide))
    · -- Behind a single zero, the marks of a radix were told apart above.
      refine h.goes_endGrouped hgrouped (fun hzero => ?_) (Bool.not_eq_true _ ▸ hdigit) hdot
      simp only [hzero, decide_true, Bool.true_and, Bool.or_eq_true, beq_iff_eq, not_or] at hhex hbinary
      simp [hhex, hbinary]

/-- A dot goes on with a number if it is behind a digit. -/
theorem goes_dot (h : a.Open state before run ('.' :: left) 0 given) (hrun : Grouped (n + 1) run) : a.Goes (a.dot >>= follow) := by
  unfold dot
  cases hrun with
  | whole hrun =>
    obtain ⟨front, e, rfl, he⟩ := hrun.exists_last
    have hascii : e.toNat < 128 := Text.ascii_of Text.Beyond.digit (isDigit_iff.2 he)
    obtain ⟨b, hb, hshadows⟩ := h.byteBefore_eq
    obtain rfl := hshadows.ofUInt8_eq hascii
    rw [hb]
    simp only [bind, Except.bind, pure, Except.pure]
    rw [if_pos (isDigit_iff.2 he)]
    exact h.goes_switch (.version (.dangling hrun)) (.inr (by decide))
  | @dangling n run hrun =>
    obtain ⟨c, cs, rfl, hc⟩ := hrun.head
    obtain ⟨b, hb, hshadows⟩ := h.byteBefore_eq
    rw [hb]
    simp only [bind, Except.bind, pure, Except.pure]
    rw [hshadows.ofUInt8_eq (by decide), if_neg (by decide)]
    exact h.refuse_here rfl (not_blank_of (by decide) (isDigit_iff.2 hc)) hrun.read_secondDot follow

/-- Groups of digits and dots go on with digits and single dots. -/
theorem goes_grouped (h : a.Open state before run (d :: left) 0 given) (hrun : Grouped (n + 1) run)
    (hreads : Grouped (n + 1) (run ++ [d]) → state.Reads (run ++ [d]) left) :
    a.Goes ((if Text.isDigit d then .ok (.consume, a) else if d = '.' then a.dot else a.endNumber d (numberKind (n + 1))) >>= follow) := by
  split_ifs with hdigit hdot
  · exact h.goes_consume (hreads (hrun.concat_digit (isDigit_iff.1 hdigit))) (.inr (Text.ascii_of Text.Beyond.digit hdigit))
  · subst hdot
    exact h.goes_dot hrun
  · refine h.goes_endGrouped hrun (fun hzero => ?_) (Bool.not_eq_true _ ▸ hdigit) hdot
    have hcount := hrun.count
    rw [hzero] at hcount
    nomatch hcount

theorem goes_decimal (h : a.Open .decimal before run (d :: left) 0 given) (hreads : LexState.decimal.Reads run (d :: left)) :
    a.Goes (a.dispatch d >>= follow) := by
  simp only [dispatch, h.state_eq]
  cases hreads with
  | decimal hrun => exact h.goes_grouped (n := 0) hrun .decimal

theorem goes_version (h : a.Open .version before run (d :: left) 0 given) (hreads : LexState.version.Reads run (d :: left)) :
    a.Goes (a.dispatch d >>= follow) := by
  simp only [dispatch, h.state_eq]
  cases hreads with
  | @version n _ _ hrun => exact h.goes_grouped (n := n + 1) hrun .version

/-- A mark of a radix needs digits behind it. -/
theorem ends_radix (h : a.Open state before ('0' :: x :: ds) left 0 given)
    (hkind : ∀ bytes, isWellFormed kind bytes = decide (2 < bytes.length)) (hx : x.toNat < 128)
    (hlex : ds ≠ [] → IsLexeme kind ('0' :: x :: ds) left)
    (hempty : ds = [] → Courier.Lexeme.read '0' (x :: left) = .fault .malformedNumber []) :
    a.Ends left (do return (← a.emitNumber kind).pop) := by
  have hlength : (Text.bytes ('0' :: x :: ds)).length = 1 + (1 + Text.byteLength ds) := by
    rw [Text.length_bytes, Text.byteLength, Text.byteLength, Text.utf8Size_of_lt hx]
    rfl
  refine h.ends_number (isDigit_iff.1 rfl) (fun hwell => hlex ?_) (fun hwell => ?_)
  · rintro rfl
    rw [hkind, decide_eq_true_iff, hlength, Text.byteLength] at hwell
    omega
  · rw [hkind, decide_eq_false_iff_not, hlength] at hwell
    obtain rfl : ds = [] := Text.eq_nil_of_byteLength (by omega)
    exact hempty rfl

theorem ends_hexadecimal (h : a.Open state before ('0' :: x :: ds) left 0 given) (hx : x = 'x' ∨ x = 'X')
    (hds : ∀ e ∈ ds, HexDigit e) (hend : EndsRun left) : a.Ends left (do return (← a.emitNumber .hexadecimalLiteral).pop) :=
  h.ends_radix (fun _ => rfl) (by rcases hx with rfl | rfl <;> decide) (fun hne => .hexadecimal hx hne hds hend)
    (fun _ => read_hexadecimal_empty hx hend)

theorem ends_binary (h : a.Open state before ('0' :: x :: ds) left 0 given) (hx : x = 'b' ∨ x = 'B')
    (hds : ∀ e ∈ ds, e = '0' ∨ e = '1') (hend : EndsRun left) : a.Ends left (do return (← a.emitNumber .binaryLiteral).pop) :=
  h.ends_radix (fun _ => rfl) (by rcases hx with rfl | rfl <;> decide) (fun hne => .binary hx hne hds hend)
    (fun _ => read_binary_empty hx hend)

theorem goes_hex (h : a.Open .hex before run (d :: left) 0 given) (hreads : LexState.hex.Reads run (d :: left)) :
    a.Goes (a.dispatch d >>= follow) := by
  simp only [dispatch, h.state_eq]
  cases hreads with
  | @hex x ds _ hx hds =>
    split_ifs with hd
    · have hnext : ∀ e ∈ ds ++ [d], HexDigit e := forall_mem_concat hds (isHexDigit_iff.1 hd)
      exact h.goes_consume (.hex hx hnext) (.inr (Text.ascii_of Text.Beyond.hex hd))
    · exact h.goes_endNumber (isDigit_iff.1 rfl) (h.ends_hexadecimal hx hds)
        (read_hexadecimal_runsOn hx hds (Bool.not_eq_true _ ▸ hd))

theorem goes_binary (h : a.Open .binary before run (d :: left) 0 given) (hreads : LexState.binary.Reads run (d :: left)) :
    a.Goes (a.dispatch d >>= follow) := by
  simp only [dispatch, h.state_eq]
  cases hreads with
  | @binary x ds _ hx hds =>
    split_ifs with hd hdigit
    · have hnext : ∀ e ∈ ds ++ [d], e = '0' ∨ e = '1' := forall_mem_concat hds (isBinaryDigit_iff.1 hd)
      exact h.goes_consume (.binary hx hnext) (.inr (Text.ascii_of Text.Beyond.binary hd))
    · have hread : Courier.Lexeme.read '0' (x :: (ds ++ d :: left)) = _ := read_binary_runsOn hx hds (Bool.not_eq_true _ ▸ hd)
      rw [if_pos hdigit] at hread
      exact h.refuse_here rfl rfl hread follow
    · have hread : Courier.Lexeme.read '0' (x :: (ds ++ d :: left)) = _ := read_binary_runsOn hx hds (Bool.not_eq_true _ ▸ hd)
      rw [if_neg hdigit] at hread
      have hrunsOn : Text.isTerminator d = false →
          Courier.Lexeme.read '0' (x :: (ds ++ d :: left)) = .fault (.invalidInNumber d) ('0' :: x :: ds) := by
        intro hterm
        rw [hread, closeNumber_of_not_terminator hterm]
      exact h.goes_endNumber (isDigit_iff.1 rfl) (h.ends_binary hx hds) hrunsOn

/-! ## Strings and tokens of one or two characters -/

theorem goes_string (h : a.Open .string before run (d :: left) 0 given) (hreads : LexState.string.Reads run (d :: left)) :
    a.Goes (a.dispatch d >>= follow) := by
  simp only [dispatch, h.state_eq]
  cases hreads with
  | @string body _ hbody =>
    split_ifs with hd
    · obtain rfl : d = '"' := by simpa [Text.isQuote] using hd
      exact h.goes_close (by decide) (.string hbody)
    · have hne : '"' ≠ d := fun heq => hd (heq ▸ rfl)
      have hnext : '"' ∉ body ++ [d] := by simp [hbody, hne]
      exact h.goes_consume (.string hnext) (.inl trivial)

theorem ends_single (h : a.Open state before [c] left 0 given) (hc : (c, kind) ∈ singles) :
    a.Ends left (do return (← a.emitSingle).pop) := by
  have hkind := ofChar?_eq_some.2 hc
  have hascii := Text.ascii_of_ofChar? hkind
  obtain ⟨b, hb, hshadows⟩ := h.byteAt_start
  obtain rfl := hshadows.ofUInt8_eq hascii
  have hsingle : a.emitSingle = .ok (a.emit kind) := by
    rw [emitSingle, hb]
    simp only [bind, Except.bind, hkind]
    rfl
  rw [hsingle]
  exact h.emit (.single hc)

theorem goes_single (h : a.Open .single before run (d :: left) 0 given) (hreads : LexState.single.Reads run (d :: left)) :
    a.Goes (a.dispatch d >>= follow) := by
  simp only [dispatch, h.state_eq]
  cases hreads with
  | single hc =>
    rw [hold_pop]
    exact h.goes_of_ends (h.ends_single hc)

theorem goes_colon (h : a.Open .colon before run (d :: left) 0 given) (hreads : LexState.colon.Reads run (d :: left)) :
    a.Goes (a.dispatch d >>= follow) := by
  simp only [dispatch, h.state_eq]
  cases hreads with
  | colon =>
    split_ifs with heq hcolon
    · subst heq
      exact h.goes_close (by decide) .assignment
    · subst hcolon
      have hread : Courier.Lexeme.read ':' (':' :: left) = .fault .reservedColons [] := rfl
      obtain ⟨halt, hhalt, hrefuses⟩ := h.refuse_start rfl rfl hread
      rw [hhalt]
      exact .refused hrefuses
    · exact h.goes_of_ends (h.emit (.colon (by simpa using ⟨heq, hcolon⟩)))

/-! ## Comments -/

/-- A brace opens a block comment right behind the comment mark. -/
theorem opensBlock_eq (h : a.Open state before ('#' :: body) left 0 given) (d : Char) :
    a.opensBlock d = .ok (decide (d = '{' ∧ body = [])) := by
  have hpos : a.pos = a.start.offset + 1 ↔ body = [] := by
    have hone : Text.byteLength ('#' :: body) = 1 + Text.byteLength body := rfl
    rw [h.start_offset, h.pos_eq, Text.byteLength_append, hone]
    refine ⟨fun heq => Text.eq_nil_of_byteLength (by omega), ?_⟩
    rintro rfl
    rfl
  unfold opensBlock
  simp only [hpos]
  split_ifs with hopens
  · obtain ⟨-, rfl⟩ := id hopens
    have hrun : a.Open state before ([] ++ ['#']) left 0 given := h
    obtain ⟨b, hb, hshadows⟩ := hrun.byteBefore_eq
    rw [hb, (hshadows.eq_iff (e := 35) (by decide)).2 rfl, decide_eq_true hopens]
    rfl
  · rw [decide_eq_false hopens]

/-- The last byte of a line comment tells whether its last character is a carriage return. -/
theorem lastByte_eq (h : a.Open state before ('#' :: body) left 0 given) :
    ∃ b, a.byteBefore a.pos = .ok b ∧ (b = 13 ↔ body.getLast? = some '\r') := by
  obtain ⟨cs, c, hrun⟩ : ∃ cs c, '#' :: body = cs ++ [c] :=
    ⟨_, _, (List.dropLast_append_getLast (List.cons_ne_nil '#' body)).symm⟩
  have hlast : some (body.getLast?.getD '#') = some c := by rw [← List.getLast?_cons, hrun, List.getLast?_concat]
  obtain ⟨b, hb, hshadows⟩ := (hrun ▸ h : a.Open state before (cs ++ [c]) left 0 given).byteBefore_eq
  have hbyte : b = 13 ↔ c = '\r' := hshadows.eq_iff (by decide)
  refine ⟨b, hb, hbyte.trans ?_⟩
  obtain rfl := Option.some.inj hlast
  cases body.getLast? with
  | none => decide
  | some e => simp

/-- A line comment ends in front of a line feed or of the end of the text; one carriage return there is a blank. -/
theorem ends_lineComment (h : a.Open state before ('#' :: body) left 0 given) (hbody : '\n' ∉ body) (hmark : body.head? ≠ some '{')
    (hleft : left = [] ∨ left.head? = some '\n') : a.Ends left (do return (← a.emitLineComment).pop) := by
  obtain ⟨b, hb, hbyte⟩ := h.lastByte_eq
  unfold emitLineComment
  rw [if_pos h.started, hb]
  simp only [bind, Except.bind, pure, Except.pure]
  split_ifs with hreturn
  · obtain ⟨front, rfl⟩ := List.getLast?_eq_some_iff.1 (hbyte.1 hreturn)
    have hlex : IsLexeme .lineComment ('#' :: front) (['\r'] ++ left) := by
      refine .lineComment (fun hmem => hbody (List.mem_append_left _ hmem)) (.inl rfl) hleft ?_
      cases front with
      | nil => simp
      | cons e es => exact hmark
    have hstop : a.pos - 1 = Text.byteLength (before ++ '#' :: front) := by
      rw [h.pos_eq, ← List.cons_append, ← List.append_assoc, Text.byteLength_append (before ++ '#' :: front)]
      exact Nat.add_sub_cancel _ 1
    refine h.emitSpan hstop fun p => ?_
    have hscan := tokensFrom_lexeme hlex p
    rw [List.singleton_append, tokensFrom_blank rfl, List.append_cons] at hscan
    rwa [← List.cons_append, Location.after_append]
  · refine h.emit (.lineComment hbody (.inr ⟨rfl, fun hlast => hreturn (hbyte.2 hlast)⟩) hleft ?_)
    cases body with
    | nil => rcases hleft with rfl | hfeed <;> simp [*]
    | cons e body => exact hmark

/-- What stands behind an ASCII character at hand. -/
theorem next_eq (h : a.Open state before run (d :: left) 0 given) (hd : d.toNat < 128) :
    a.src[a.pos + 1]? = some 35 ↔ left.head? = some '#' := by
  have hpos : a.pos + 1 = Text.byteLength (before ++ run ++ [d]) := by
    rw [Text.byteLength_append, ← h.pos_eq, Text.byteLength, Text.utf8Size_of_lt hd]
    rfl
  have htext : a.text.toList = before ++ run ++ [d] ++ left := by
    rw [h.text, List.append_cons]
  rw [src_eq, htext, hpos]
  cases left with
  | nil =>
    rw [List.append_nil, List.getElem?_eq_none (by rw [Text.length_bytes])]
    exact iff_of_false (by simp) (by simp)
  | cons e left =>
    obtain ⟨b, hb, hshadows, -⟩ := Text.exists_getElem?_bytes (before ++ run ++ [d]) e left
    rw [hb, List.head?_cons, Option.some_inj, Option.some_inj]
    exact hshadows.eq_iff (by decide)

theorem goes_lineComment (h : a.Open .lineComment before run (d :: left) 0 given) (hreads : LexState.lineComment.Reads run (d :: left)) :
    a.Goes (a.dispatch d >>= follow) := by
  simp only [dispatch, h.state_eq]
  cases hreads with
  | @lineComment body _ hbody hmark =>
    unfold lineComment
    rw [h.opensBlock_eq]
    simp only [bind, Except.bind, pure, Except.pure]
    split_ifs with hopens hfeed
    · obtain ⟨rfl, rfl⟩ : d = '{' ∧ body = [] := by simpa using hopens
      exact h.goes_switch (.blockComment (by decide) (fun hbrace => absurd hbrace (by decide))) (.inl trivial)
    · subst hfeed
      have hgoes := h.goes_of_ends (h.ends_lineComment hbody hmark (.inr rfl))
      rwa [← hold_pop] at hgoes
    · have hnext : '\n' ∉ body ++ [d] := by simp [hbody, Ne.symm hfeed]
      refine h.goes_consume (.lineComment hnext ?_) (.inl trivial)
      cases body with
      | nil => simpa using hopens
      | cons e body => exact hmark

theorem goes_blockComment (h : a.Open .blockComment before run (d :: left) 0 given)
    (hreads : LexState.blockComment.Reads run (d :: left)) : a.Goes (a.dispatch d >>= follow) := by
  simp only [dispatch, h.state_eq]
  cases hreads with
  | @blockComment body _ hbody hclose =>
    split_ifs with hd
    · obtain ⟨rfl, hnext⟩ := hd
      obtain ⟨left, rfl⟩ := List.head?_eq_some_iff.1 ((h.next_eq (by decide)).1 hnext)
      exact h.goes_switch (.blockCommentClose hbody) (.inr (by decide))
    · -- A closing mark that ends here would have begun with the character before, in front of a comment mark.
      have hopen : ¬['}', '#'] <:+: body ++ [d] := by
        intro hinfix
        rcases List.infix_concat_iff.1 hinfix with hsuffix | hinfix
        · obtain ⟨front, hfront⟩ := hsuffix
          rw [List.append_cons] at hfront
          obtain ⟨rfl, hmark⟩ := List.append_inj' hfront rfl
          exact hclose List.getLast?_concat (by rw [List.head?_cons, ← List.singleton_inj.1 hmark])
        · exact hbody hinfix
      have hnext : (body ++ [d]).getLast? = some '}' → left.head? ≠ some '#' := by
        rw [List.getLast?_concat]
        intro hbrace hmark
        obtain rfl := Option.some.inj hbrace
        exact hd ⟨rfl, (h.next_eq (by decide)).2 hmark⟩
      exact h.goes_consume (.blockComment hopen hnext) (.inl trivial)

theorem goes_blockCommentClose (h : a.Open .blockCommentClose before run (d :: left) 0 given)
    (hreads : LexState.blockCommentClose.Reads run (d :: left)) : a.Goes (a.dispatch d >>= follow) := by
  simp only [dispatch, h.state_eq]
  cases hreads with
  | @blockCommentClose body _ hbody =>
    have hlex : IsLexeme .blockComment ('#' :: '{' :: (body ++ ['}']) ++ ['#']) left := by
      rw [List.cons_append, List.cons_append, List.append_assoc]
      exact .blockComment hbody
    exact h.goes_close (by decide) hlex

end Open

end Courier.Automaton
