import Courier.Proofs.Lexical.Readers
import Courier.Proofs.Text.Lines
import Courier.Token.Scan.Lemmas
import Courier.Token.Stream

/-!
# Texts are cut line by line

A line feed ends whatever the end of a text ends, and the scanner goes on behind it as at the start of a text; only a string or a block
comment that is left open goes on over it. So the tokens of two texts with a line feed between them are those of the first and then
those of the second, moved down, and a fault of either is the fault of both (`Stream.tokenize_feed`).
-/

namespace Courier

open Lexical Text

/-! ## Moving down -/

/-- The place that a place becomes when so many lines, and bytes, are put above its text. -/
def Location.below (p : Location) (lines bytes : Nat) : Location :=
  ⟨p.line + lines, p.column, p.offset + bytes⟩

/-- The token with its place moved down. -/
def Token.below (t : Token) (lines bytes : Nat) : Token :=
  { t with location := t.location.below lines bytes }

/-- The failure with its place moved down. -/
def LexError.below (e : LexError) (lines bytes : Nat) : LexError :=
  { e with location := e.location.below lines bytes }

theorem Location.next_below (p : Location) (lines bytes : Nat) (c : Char) :
    (p.below lines bytes).next c = (p.next c).below lines bytes := by
  unfold next below
  split
  · simp only [Location.mk.injEq, true_and]
    omega
  · simp only [Location.mk.injEq, true_and]
    omega

theorem Location.after_below (p : Location) (lines bytes : Nat) (cs : List Char) :
    (p.below lines bytes).after cs = (p.after cs).below lines bytes := by
  induction cs generalizing p with
  | nil => rfl
  | cons c cs ih => rw [after_cons, after_cons, next_below, ih]

/-- A text is cut alike wherever it starts. -/
theorem tokensFrom_below (p : Location) (lines bytes : Nat) (cs : List Char) :
    tokensFrom (p.below lines bytes) cs = ((tokensFrom p cs).map (List.map (fun t => t.below lines bytes))).mapError
      (fun fault => (fault.1, fault.2.below lines bytes)) := by
  refine scan_induction (P := fun p cs => tokensFrom (p.below lines bytes) cs =
    ((tokensFrom p cs).map (List.map (fun t => t.below lines bytes))).mapError
      (fun fault => (fault.1, fault.2.below lines bytes))) ?_ ?_ ?_ ?_ p cs
  · exact fun _ => rfl
  · intro p c cs hblank ih
    rw [tokensFrom_blank hblank, tokensFrom_blank hblank, Location.next_below, ih]
  · intro p c cs kind text rest hblank hread ih
    rw [tokensFrom_token hblank hread, tokensFrom_token hblank hread, Location.after_below, ih]
    cases tokensFrom (p.after text) rest <;> rfl
  · intro p c cs cause before hblank hread
    rw [tokensFrom_fault hblank hread, tokensFrom_fault hblank hread, Location.after_below]
    rfl

/-! ## Lexemes in front of a line feed -/

/-- A fault that more text may undo: a string or a block comment is left open. -/
def LexFault.LeftOpen (cause : LexFault) : Prop :=
  cause = .unterminatedString ∨ cause = .unterminatedComment

namespace Lexeme

/-- The lexeme with more text behind what is left. -/
def followed (more : List Char) : Lexeme → Lexeme
  | token kind text rest => token kind text (rest ++ more)
  | fault cause before => fault cause before

/-- The lexeme is not left open. -/
def Settled : Lexeme → Prop
  | token _ _ _ => True
  | fault cause _ => ¬cause.LeftOpen

variable (cs ds : List Char)

theorem takeWhile_feed {p : Char → Bool} (hp : p '\n' = false) : (cs ++ '\n' :: ds).takeWhile p = cs.takeWhile p := by
  induction cs with
  | nil => simp [hp]
  | cons c cs ih => simp only [List.cons_append, List.takeWhile_cons, ih]

theorem dropWhile_feed {p : Char → Bool} (hp : p '\n' = false) : (cs ++ '\n' :: ds).dropWhile p = cs.dropWhile p ++ '\n' :: ds := by
  induction cs with
  | nil => simp [hp]
  | cons c cs ih =>
    simp only [List.cons_append, List.dropWhile_cons, ih]
    split <;> rfl

theorem readWord_feed : readWord (cs ++ '\n' :: ds) = (readWord cs).followed ('\n' :: ds) := by
  unfold readWord
  simp only [takeWhile_feed cs ds (p := Text.isWordChar) (by decide), dropWhile_feed cs ds (p := Text.isWordChar) (by decide)]
  cases cs.dropWhile Text.isWordChar with
  | nil => rfl
  | cons c rest =>
    simp only [List.cons_append]
    split <;> rfl

theorem closeNumber_feed (kind : TokenKind) (wellFormed : Bool) (number rest : List Char) :
    closeNumber kind wellFormed number (rest ++ '\n' :: ds) = (closeNumber kind wellFormed number rest).followed ('\n' :: ds) := by
  have hhead : (rest ++ '\n' :: ds).head?.filter (fun c => !Text.isTerminator c) =
      rest.head?.filter (fun c => !Text.isTerminator c) := by
    cases rest <;> rfl
  unfold closeNumber
  rw [hhead]
  split
  · rfl
  · split <;> rfl

theorem readHexadecimal_feed (mark : List Char) :
    readHexadecimal mark (cs ++ '\n' :: ds) = (readHexadecimal mark cs).followed ('\n' :: ds) := by
  unfold readHexadecimal
  simp only [takeWhile_feed cs ds (p := Text.isHexDigit) (by decide), dropWhile_feed cs ds (p := Text.isHexDigit) (by decide),
    closeNumber_feed]

theorem readBinary_feed (mark : List Char) : readBinary mark (cs ++ '\n' :: ds) = (readBinary mark cs).followed ('\n' :: ds) := by
  have hhead : ∀ rest : List Char, (rest ++ '\n' :: ds).head?.filter Text.isDigit = rest.head?.filter Text.isDigit :=
    fun rest => by cases rest <;> rfl
  unfold readBinary
  simp only [takeWhile_feed cs ds (p := Text.isBinaryDigit) (by decide),
    dropWhile_feed cs ds (p := Text.isBinaryDigit) (by decide), hhead]
  split
  · rfl
  · exact closeNumber_feed _ _ _ _ _

theorem readDotted_feed : readDotted (cs ++ '\n' :: ds) = (readDotted cs).followed ('\n' :: ds) := by
  unfold readDotted
  simp only [takeWhile_feed cs ds (p := isDigitOrDot) (by decide), dropWhile_feed cs ds (p := isDigitOrDot) (by decide)]
  split
  · rfl
  · exact closeNumber_feed _ _ _ _ _

/-- What stands first and is no line feed stood first without the line feed. -/
theorem exists_cons_of_feed {cs ds rest : List Char} {x : Char} (hx : x ≠ '\n') (h : cs ++ '\n' :: ds = x :: rest) :
    ∃ r, cs = x :: r ∧ r ++ '\n' :: ds = rest := by
  cases cs with
  | nil => exact absurd (List.cons.inj h).1.symm hx
  | cons c cs =>
    obtain ⟨rfl, htail⟩ := List.cons.inj h
    exact ⟨cs, rfl, htail⟩

/-- A line feed is no mark of a radix. -/
theorem readNumber_feed : readNumber (cs ++ '\n' :: ds) = (readNumber cs).followed ('\n' :: ds) := by
  have hmark : ∀ {x : Char} {rest : List Char}, x ≠ '\n' → cs ++ '\n' :: ds = '0' :: x :: rest → ∃ r, cs = '0' :: x :: r := by
    intro x rest hx h
    obtain ⟨r, rfl, htail⟩ := exists_cons_of_feed (by decide) h
    obtain ⟨r', rfl, -⟩ := exists_cons_of_feed hx htail
    exact ⟨r', rfl⟩
  conv_rhs => unfold readNumber
  split
  · exact readHexadecimal_feed _ ds _
  · exact readHexadecimal_feed _ ds _
  · exact readBinary_feed _ ds _
  · exact readBinary_feed _ ds _
  · rename_i hx hX hb hB
    refine Eq.trans ?_ (readDotted_feed cs ds)
    unfold readNumber
    split
    · rename_i heq
      obtain ⟨r, hr⟩ := hmark (by decide) heq
      exact absurd hr (hx r)
    · rename_i heq
      obtain ⟨r, hr⟩ := hmark (by decide) heq
      exact absurd hr (hX r)
    · rename_i heq
      obtain ⟨r, hr⟩ := hmark (by decide) heq
      exact absurd hr (hb r)
    · rename_i heq
      obtain ⟨r, hr⟩ := hmark (by decide) heq
      exact absurd hr (hB r)
    · rfl

theorem readString_feed (h : (readString cs).Settled) : readString (cs ++ '\n' :: ds) = (readString cs).followed ('\n' :: ds) := by
  cases hread : readString cs with
  | fault cause before =>
    unfold readString at hread h
    split at hread
    · rename_i hdrop
      rw [hdrop] at h
      exact absurd (.inl rfl) h
    · nomatch hread
  | token kind text rest =>
    obtain ⟨body, hkind, htext, rfl, hbody⟩ := readString_eq_token.1 hread
    exact readString_eq_token.2 ⟨body, hkind, htext, by simp, hbody⟩

theorem readBlockComment_feed (h : (readBlockComment cs).Settled) :
    readBlockComment (cs ++ '\n' :: ds) = (readBlockComment cs).followed ('\n' :: ds) := by
  cases hread : readBlockComment cs with
  | fault cause before =>
    unfold readBlockComment at hread h
    split at hread
    · nomatch hread
    · rename_i hclose
      rw [hclose] at h
      exact absurd (.inr rfl) h
  | token kind text rest =>
    obtain ⟨body, hkind, htext, rfl, hbody⟩ := readBlockComment_eq_token.1 hread
    exact readBlockComment_eq_token.2 ⟨body, hkind, htext, by simp, hbody⟩

theorem readLineComment_feed : readLineComment (cs ++ '\n' :: ds) = (readLineComment cs).followed ('\n' :: ds) := by
  unfold readLineComment
  simp only [takeWhile_feed cs ds (p := (· != '\n')) (by decide), dropWhile_feed cs ds (p := (· != '\n')) (by decide)]
  split <;> rfl

theorem readComment_feed (h : (readComment cs).Settled) :
    readComment (cs ++ '\n' :: ds) = (readComment cs).followed ('\n' :: ds) := by
  cases hcs : cs with
  | nil => exact readLineComment_feed [] ds
  | cons c cs' =>
    by_cases hc : c = '{'
    · subst hc
      rw [hcs] at h
      exact readBlockComment_feed cs' ds h
    · have hline : ∀ more, readComment (c :: more) = readLineComment (c :: more) := by
        intro more
        unfold readComment
        split
        · rename_i heq
          exact absurd (List.cons.inj heq).1 hc
        · rfl
      rw [List.cons_append, hline, hline]
      exact readLineComment_feed (c :: cs') ds

theorem readColon_feed : readColon (cs ++ '\n' :: ds) = (readColon cs).followed ('\n' :: ds) := by
  conv_rhs => unfold readColon
  split
  · rfl
  · rfl
  · rename_i hequals hcolon
    unfold readColon
    split
    · rename_i heq
      obtain ⟨r, hr, -⟩ := exists_cons_of_feed (by decide) heq
      exact absurd hr (hequals r)
    · rename_i heq
      obtain ⟨r, hr, -⟩ := exists_cons_of_feed (by decide) heq
      exact absurd hr (hcolon r)
    · rfl

theorem readSingle_feed (c : Char) : readSingle c (cs ++ '\n' :: ds) = (readSingle c cs).followed ('\n' :: ds) := by
  unfold readSingle
  split <;> rfl

/-- A lexeme that is not left open is read in front of a line feed as it is at the end of a text. -/
theorem read_feed (c : Char) (h : (read c cs).Settled) : read c (cs ++ '\n' :: ds) = (read c cs).followed ('\n' :: ds) := by
  unfold read at h ⊢
  split
  · exact readWord_feed (c :: cs) ds
  split
  · exact readNumber_feed (c :: cs) ds
  split
  · rename_i hletter hdigit hquote
    rw [if_neg hletter, if_neg hdigit, if_pos hquote] at h
    exact readString_feed cs ds h
  split
  · rename_i hletter hdigit hquote hmark
    rw [if_neg hletter, if_neg hdigit, if_neg hquote, if_pos hmark] at h
    exact readComment_feed cs ds h
  split
  · exact readColon_feed cs ds
  · exact readSingle_feed cs ds c

end Lexeme

/-- A text with a line feed and another text behind it: by the steps of the scan over the first. Where that is at fault, and not left
open, the fault is that of the whole; else the scan goes on behind the line feed. -/
theorem tokensFrom_feed (p : Location) (cs ds : List Char) (h : ∀ fault, tokensFrom p cs = .error fault → ¬fault.1.LeftOpen) :
    tokensFrom p (cs ++ '\n' :: ds) = (tokensFrom p cs).bind
      (fun ts => (tokensFrom (p.after (cs ++ ['\n'])) ds).map (ts ++ ·)) := by
  revert h
  refine scan_induction (P := fun p cs => (∀ fault, tokensFrom p cs = .error fault → ¬fault.1.LeftOpen) →
    tokensFrom p (cs ++ '\n' :: ds) = (tokensFrom p cs).bind
      (fun ts => (tokensFrom (p.after (cs ++ ['\n'])) ds).map (ts ++ ·))) ?_ ?_ ?_ ?_ p cs
  · intro p _
    rw [List.nil_append, List.nil_append, tokensFrom_blank (by decide), tokensFrom_nil]
    have hfirst : p.after ['\n'] = p.next '\n' := rfl
    rw [hfirst]
    cases tokensFrom (p.next '\n') ds <;> rfl
  · intro p c cs hblank ih h
    rw [tokensFrom_blank hblank] at h
    rw [List.cons_append, tokensFrom_blank hblank, tokensFrom_blank hblank, ih h]
    rfl
  · intro p c cs kind text rest hblank hread ih h
    have hfollowed := Lexeme.read_feed cs ds c (by rw [hread]; trivial)
    have hcovers := Lexeme.covers_read c cs
    rw [hread] at hfollowed hcovers
    rw [tokensFrom_token hblank hread] at h
    rw [List.cons_append, tokensFrom_token hblank hfollowed, tokensFrom_token hblank hread, ← hcovers.1, List.append_assoc,
      Location.after_append, ih]
    · cases tokensFrom (p.after text) rest with
      | error fault => rfl
      | ok ts => cases tokensFrom ((p.after text).after (rest ++ ['\n'])) ds <;> rfl
    · intro fault hfault
      rw [hfault] at h
      exact h fault rfl
  · intro p c cs cause before hblank hread h
    rw [tokensFrom_fault hblank hread] at h
    have hfollowed := Lexeme.read_feed cs ds c (by rw [hread]; exact h _ rfl)
    rw [hread] at hfollowed
    rw [List.cons_append, tokensFrom_fault hblank hfollowed, tokensFrom_fault hblank hread]
    rfl

/-! ## Whole texts -/

theorem toList_feed (a b : String) : (a ++ "\n" ++ b).toList = a.toList ++ '\n' :: b.toList := by
  rw [String.toList_append, String.toList_append, List.append_assoc]
  rfl

theorem byteLength_feed (a : String) : byteLength (a.toList ++ ['\n']) = a.utf8ByteSize + 1 := by
  rw [byteLength_append, utf8ByteSize_eq]
  rfl

/-- Behind a line feed a new line begins. -/
theorem Location.after_feed (p : Location) (cs : List Char) :
    p.after (cs ++ ['\n']) = ⟨p.line + (cs.count '\n' + 1), 1, p.offset + byteLength (cs ++ ['\n'])⟩ := by
  induction cs generalizing p with
  | nil => rfl
  | cons c cs ih =>
    rw [List.cons_append, after_cons, ih, byteLength, List.count_cons]
    unfold next
    split
    · rename_i hc
      subst hc
      have hone : Char.utf8Size '\n' = 1 := rfl
      simp only [Location.mk.injEq, true_and, beq_self_eq_true, if_true, hone]
      omega
    · rename_i hc
      simp only [Location.mk.injEq, true_and, beq_iff_eq, hc, if_false]
      omega

/-- Behind a text and a line feed, places are those of a text of its own, moved down. -/
theorem Location.start_after_feed (a : String) : Location.start.after (a.toList ++ ['\n']) =
    Location.start.below ((newlineOffsets 0 a.toList).length + 1) (a.utf8ByteSize + 1) := by
  rw [after_feed, byteLength_feed, length_newlineOffsets]
  rfl

/-- The line of an offset in the second of two texts. -/
theorem lineAt_feed_right (a b : String) (n : Nat) : lineAt (a ++ "\n" ++ b) (n + (a.utf8ByteSize + 1)) = lineAt b n := by
  unfold lineAt
  rw [toList_feed, ← byteLength_feed, Nat.add_comm, lineAhead_feed]

/-- The line of a right place of the first of two texts. -/
theorem lineAt_feed_left {a : String} {p : Location} (h : IsPlace a.toList p) (b : String) :
    lineAt (a ++ "\n" ++ b) p.offset = lineAt a p.offset := by
  obtain ⟨lines, front, back, rest, ha, hlines, hline, hrest, -, -, hoffset, hshown⟩ := (shows_lineAt h).line
  have hwhole : (a ++ "\n" ++ b).toList = lines ++ (front ++ (back ++ (rest ++ '\n' :: b.toList))) := by
    rw [toList_feed, ha]
    simp only [List.append_assoc]
  have hend : rest ++ '\n' :: b.toList = [] ∨ (rest ++ '\n' :: b.toList).head? = some '\n' := by
    rcases hrest with rfl | hrest
    · exact .inr rfl
    · obtain ⟨r, rfl⟩ := List.head?_eq_some_iff.1 hrest
      exact .inr rfl
  rw [hshown, hoffset]
  exact lineAt_eq hwhole hlines hline hend

/-- The line feeds of two texts with one between them. -/
theorem newlineOffsets_feed (a b : String) : newlineOffsets 0 (a ++ "\n" ++ b).toList =
    newlineOffsets 0 a.toList ++ a.utf8ByteSize :: (newlineOffsets 0 b.toList).map (· + (a.utf8ByteSize + 1)) := by
  have hone : Char.utf8Size '\n' = 1 := rfl
  rw [toList_feed, newlineOffsets_append, newlineOffsets_cons, if_pos rfl, ← newlineOffsets_add, utf8ByteSize_eq, hone, Nat.add_assoc,
    Nat.zero_add, List.singleton_append]

namespace Stream

variable {file text : String}

theorem newlines_of_tokenize {s : Stream} (h : tokenize file text = .ok s) : s.newlines = newlineOffsets 0 text.toList := by
  obtain ⟨ts, -, rfl⟩ := tokenize_eq_ok.1 h
  rfl

/-- The tokens of a text that is cut, a line feed and another text. -/
theorem tokensOf_feed {a : String} {sa : Stream} (h : tokenize file a = .ok sa) (b : String) :
    tokensOf (a ++ "\n" ++ b) =
      (((tokensOf b).map (List.map (fun t => t.below (sa.newlines.length + 1) (a.utf8ByteSize + 1)))).mapError
        (fun fault => (fault.1, fault.2.below (sa.newlines.length + 1) (a.utf8ByteSize + 1)))).map (sa.tokens ++ ·) := by
  have hnewlines := newlines_of_tokenize h
  obtain ⟨ts, hts, rfl⟩ := tokenize_eq_ok.1 h
  rw [tokensOf] at hts
  have hscan := tokensFrom_feed .start a.toList b.toList (fun fault hfault => by rw [hts] at hfault; nomatch hfault)
  rw [hts, Location.start_after_feed, tokensFrom_below, ← hnewlines] at hscan
  rw [tokensOf, toList_feed, hscan]
  rfl

/-- A text that is at fault, and not left open, is so in front of every other text. -/
theorem tokenize_feed_error {a : String} {e : LexError} (h : tokenize file a = .error e) (hopen : ¬e.fault.LeftOpen) (b : String) :
    tokenize file (a ++ "\n" ++ b) = .error e := by
  obtain ⟨hfile, hfault, hline⟩ := tokenize_eq_error.1 h
  rw [tokensOf] at hfault
  have hscan := tokensFrom_feed .start a.toList b.toList (fun fault hfault' => by
    obtain rfl := Except.error.inj (hfault.symm.trans hfault')
    exact hopen)
  have hplace : IsPlace a.toList e.location := by
    obtain ⟨before, after, ha, hlocation⟩ := exists_of_tokensFrom_error hfault
    rw [ha, hlocation]
    exact isPlace_after before after
  refine tokenize_eq_error.2 ⟨hfile, ?_, ?_⟩
  · rw [tokensOf, toList_feed, hscan, hfault]
    rfl
  · rw [lineAt_feed_left hplace, hline]

/-- The stream of a text of so many bytes, a line feed and another text, given by the streams of the two. -/
structure Stacked (above below : Stream) (bytes : Nat) (s : Stream) : Prop where
  /-- The tokens of the first come first, and those of the second are moved down by its lines and bytes. -/
  tokens : s.tokens = above.tokens ++ below.tokens.map (fun t => t.below (above.newlines.length + 1) (bytes + 1))
  /-- So are the bytes they span. -/
  spans : s.tokens.map (fun t => (t.spanStart, t.spanEnd)) = above.tokens.map (fun t => (t.spanStart, t.spanEnd)) ++
    below.tokens.map (fun t => (t.spanStart + (bytes + 1), t.spanEnd + (bytes + 1)))
  newlines : s.newlines = above.newlines ++ bytes :: below.newlines.map (· + (bytes + 1))

theorem stacked_of_tokens {a b : String} {sa sb : Stream} (ha : tokenize file a = .ok sa) (hb : tokenize file b = .ok sb) :
    sa.Stacked sb a.utf8ByteSize (ofTokens file (a ++ "\n" ++ b)
      (sa.tokens ++ sb.tokens.map (fun t => t.below (sa.newlines.length + 1) (a.utf8ByteSize + 1)))) := by
  refine ⟨rfl, ?_, ?_⟩
  · have hspan : ∀ (t : Token) (lines bytes : Nat), ((t.below lines bytes).spanStart, (t.below lines bytes).spanEnd) =
        (t.spanStart + bytes, t.spanEnd + bytes) := fun t lines bytes => Prod.ext rfl (Nat.add_right_comm _ _ _)
    rw [tokens_ofTokens, List.map_append, List.map_map]
    simp only [Function.comp_def, hspan]
  · rw [newlines_of_tokenize ha, newlines_of_tokenize hb]
    exact newlineOffsets_feed a b

/-- A text, a line feed and another text are cut as the two are, one below the other: the tokens of the first come first and those of the
second are moved down, and a fault of either is the fault of both, unless the first is left open. -/
theorem tokenize_feed (file a b : String) :
    (∀ sa, tokenize file a = .ok sa →
      (∀ sb, tokenize file b = .ok sb → ∃ s, tokenize file (a ++ "\n" ++ b) = .ok s ∧ sa.Stacked sb a.utf8ByteSize s) ∧
      ∀ e, tokenize file b = .error e →
        tokenize file (a ++ "\n" ++ b) = .error (e.below (sa.newlines.length + 1) (a.utf8ByteSize + 1))) ∧
    ∀ e, tokenize file a = .error e → e.message ≠ "unterminated string literal" → e.message ≠ "unterminated block comment" →
      tokenize file (a ++ "\n" ++ b) = .error e := by
  refine ⟨fun sa ha => ⟨fun sb hb => ⟨_, tokenize_eq_ok.2 ⟨_, ?_, rfl⟩, stacked_of_tokens ha hb⟩, fun e he => ?_⟩,
    fun e he hstring hcomment => tokenize_feed_error he ?_ b⟩
  · have hcut := tokensOf_feed ha b
    obtain ⟨ts, hts, rfl⟩ := tokenize_eq_ok.1 hb
    rw [hts] at hcut
    exact hcut
  · have hcut := tokensOf_feed ha b
    obtain ⟨hfile, hfault, hline⟩ := tokenize_eq_error.1 he
    rw [hfault] at hcut
    exact tokenize_eq_error.2 ⟨hfile, hcut, hline.trans (lineAt_feed_right a b _).symm⟩
  · rintro (hfault | hfault)
    · exact hstring (by rw [LexError.message, hfault]; rfl)
    · exact hcomment (by rw [LexError.message, hfault]; rfl)

/-- A line comment with a carriage return, a string over two lines, and faults in the first text and in the second. -/
theorem tokenize_feed_returns :
    (∃ sa sb s, tokenize "unit" "x # é\r" = .ok sa ∧ tokenize "unit" "\"y\n\" :=" = .ok sb ∧
      tokenize "unit" ("x # é\r" ++ "\n" ++ "\"y\n\" :=") = .ok s ∧ sa.Stacked sb "x # é\r".utf8ByteSize s) ∧
    (∃ sa e, tokenize "unit" "x # é\r" = .ok sa ∧ tokenize "unit" "y\n 1..2" = .error e ∧
      tokenize "unit" ("x # é\r" ++ "\n" ++ "y\n 1..2") =
        .error (e.below (sa.newlines.length + 1) ("x # é\r".utf8ByteSize + 1))) ∧
    ∃ e, tokenize "unit" "x\n1." = .error e ∧ tokenize "unit" ("x\n1." ++ "\n" ++ "\"y") = .error e := by
  obtain ⟨sa, ha⟩ := exists_tokenize "unit" "x # é\r" (by decide +kernel)
  obtain ⟨sb, hb⟩ := exists_tokenize "unit" "\"y\n\" :=" (by decide +kernel)
  have hfault : tokenize "unit" "y\n 1..2" = .error ⟨"unit", .unexpectedDot, ⟨2, 4, 5⟩, " 1..2"⟩ := by decide +kernel
  have hfault' : tokenize "unit" "x\n1." = .error ⟨"unit", .malformedNumber, ⟨2, 1, 2⟩, "1."⟩ := by decide +kernel
  obtain ⟨s, hs, hstacked⟩ := ((tokenize_feed "unit" "x # é\r" "\"y\n\" :=").1 sa ha).1 sb hb
  exact ⟨⟨sa, sb, s, ha, hb, hs, hstacked⟩, ⟨sa, _, ha, hfault, ((tokenize_feed "unit" _ _).1 sa ha).2 _ hfault⟩,
    _, hfault', (tokenize_feed "unit" _ "\"y").2 _ hfault' (by decide) (by decide)⟩

end Stream

end Courier
