import Courier.Token.Scan.Lemmas

/-!
# The character at fault

A text that cannot be cut into tokens is stopped by one of its characters. `Lexeme.Blames` says of a reader's fault that the place it is
reported at is that of a character of the text, no blank, and that a fault which tells a character tells this one; every reader's faults
are of this kind (`Lexeme.blames_read`), and so is the fault of a whole text (`exists_blamed_of_tokensFrom_error`).
-/

namespace Courier

/-- The character that a fault of a text is about is the one given, where the fault tells it. That a file was tokenized before is no
fault of its text. -/
def LexFault.IsAbout (d : Char) : LexFault → Prop
  | invalidCharacter c | invalidInNumber c | invalidBinaryDigit c => c = d
  | alreadyTokenized _ => False
  | _ => True

namespace Lexeme

/-- A fault is reported at a character of the text which is no blank, and is about that character. -/
def Blames (cs : List Char) : Lexeme → Prop
  | token _ _ _ => True
  | fault cause before => ∃ d after, cs = before ++ d :: after ∧ Text.isBlank d = false ∧ cause.IsAbout d

theorem blames_front {c : Char} {cause : LexFault} (hc : Text.isBlank c = false) (h : cause.IsAbout c) (cs : List Char) :
    (fault cause []).Blames (c :: cs) :=
  ⟨c, cs, rfl, hc, h⟩

theorem isBlank_of_not_terminator {c : Char} (h : Text.isTerminator c = false) : Text.isBlank c = false :=
  (Bool.or_eq_false_iff.1 h).1

theorem isBlank_of_isDigit {c : Char} (h : Text.isDigit c = true) : Text.isBlank c = false := by
  cases hblank : Text.isBlank c with
  | false => rfl
  | true =>
    simp only [Text.isBlank, Bool.or_eq_true, beq_iff_eq] at hblank
    rcases hblank with ((((rfl | rfl) | rfl) | rfl) | rfl) | rfl <;> exact absurd h (by decide)

theorem blames_readWord {c : Char} {cs : List Char} : (readWord (c :: cs)).Blames (c :: cs) := by
  have happ := List.takeWhile_append_dropWhile (p := Text.isWordChar) (l := c :: cs)
  unfold readWord
  simp only
  split
  · trivial
  · rename_i d rest hrest
    split
    · trivial
    · rename_i hd
      exact ⟨d, rest, by rw [← hrest, happ], isBlank_of_not_terminator (Bool.eq_false_iff.2 hd), rfl⟩

/-- A number is at fault at what runs on from it or, if it has no proper end, at its start. -/
theorem blames_closeNumber {c : Char} {cs number rest : List Char} (hc : Text.isBlank c = false) (h : number ++ rest = c :: cs)
    (kind : TokenKind) (wellFormed : Bool) : (closeNumber kind wellFormed number rest).Blames (c :: cs) := by
  unfold closeNumber
  split
  · rename_i d hd
    obtain ⟨hhead, hd⟩ := Option.filter_eq_some_iff.1 hd
    obtain ⟨after, rfl⟩ := List.head?_eq_some_iff.1 hhead
    exact ⟨d, after, h.symm, isBlank_of_not_terminator (by simpa using hd), rfl⟩
  · split
    · trivial
    · exact blames_front hc (by trivial) cs

theorem blames_readHexadecimal {c : Char} (hc : Text.isBlank c = false) (mark cs : List Char) :
    (readHexadecimal (c :: mark) cs).Blames (c :: mark ++ cs) := by
  refine blames_closeNumber hc ?_ _ _
  rw [List.append_assoc, List.takeWhile_append_dropWhile]
  rfl

theorem blames_readBinary {c : Char} (hc : Text.isBlank c = false) (mark cs : List Char) :
    (readBinary (c :: mark) cs).Blames (c :: mark ++ cs) := by
  have happ : c :: mark ++ cs.takeWhile Text.isBinaryDigit ++ cs.dropWhile Text.isBinaryDigit = c :: mark ++ cs := by
    rw [List.append_assoc, List.takeWhile_append_dropWhile]
  unfold readBinary
  simp only
  split
  · rename_i d hd
    obtain ⟨hhead, hd⟩ := Option.filter_eq_some_iff.1 hd
    obtain ⟨after, hrest⟩ := List.head?_eq_some_iff.1 hhead
    exact ⟨d, after, by rw [← hrest, happ], isBlank_of_isDigit hd, rfl⟩
  · exact blames_closeNumber hc happ _ _

/-- Behind what lies before the second of two dots comes that dot. -/
theorem exists_of_beforeSecondDot {run before : List Char} (h : beforeSecondDot run = some before) :
    ∃ after, run = before ++ '.' :: after := by
  fun_induction beforeSecondDot run generalizing before with
  | case1 rest =>
    obtain rfl := Option.some.inj h
    exact ⟨rest, rfl⟩
  | case2 c cs _ ih =>
    obtain ⟨front, hfront, rfl⟩ := Option.map_eq_some_iff.1 h
    obtain ⟨after, rfl⟩ := ih hfront
    exact ⟨after, rfl⟩
  | case3 => nomatch h

theorem blames_readDotted {c : Char} (hc : Text.isBlank c = false) (cs : List Char) : (readDotted (c :: cs)).Blames (c :: cs) := by
  have happ := List.takeWhile_append_dropWhile (p := isDigitOrDot) (l := c :: cs)
  unfold readDotted
  simp only
  split
  · rename_i hbefore
    obtain ⟨after, hrun⟩ := exists_of_beforeSecondDot hbefore
    refine ⟨'.', after ++ (c :: cs).dropWhile isDigitOrDot, ?_, rfl, trivial⟩
    rw [← List.cons_append, ← List.append_assoc, ← hrun, happ]
  · exact blames_closeNumber hc happ _ _

theorem blames_readNumber {c : Char} (hc : Text.isBlank c = false) (cs : List Char) : (readNumber (c :: cs)).Blames (c :: cs) := by
  unfold readNumber
  split
  case h_5 => exact blames_readDotted hc cs
  all_goals
    rename_i heq
    obtain ⟨rfl, rfl⟩ := List.cons.inj heq
  · exact blames_readHexadecimal hc ['x'] _
  · exact blames_readHexadecimal hc ['X'] _
  · exact blames_readBinary hc ['b'] _
  · exact blames_readBinary hc ['B'] _

theorem blames_readString (cs : List Char) : (readString cs).Blames ('"' :: cs) := by
  unfold readString
  split
  · exact blames_front rfl (by trivial) cs
  · trivial

theorem blames_readComment (cs : List Char) : (readComment cs).Blames ('#' :: cs) := by
  unfold readComment
  split
  · unfold readBlockComment
    split
    · trivial
    · exact blames_front rfl (by trivial) _
  · unfold readLineComment
    simp only
    split <;> trivial

theorem blames_readColon (cs : List Char) : (readColon cs).Blames (':' :: cs) := by
  unfold readColon
  split
  · trivial
  · exact blames_front rfl (by trivial) _
  · trivial

theorem blames_readSingle {c : Char} (hc : Text.isBlank c = false) (cs : List Char) : (readSingle c cs).Blames (c :: cs) := by
  unfold readSingle
  split
  · trivial
  · exact blames_front hc (by rfl) cs

/-- Every fault of a reader is about a character of the text. -/
theorem blames_read {c : Char} (hc : Text.isBlank c = false) (cs : List Char) : (read c cs).Blames (c :: cs) := by
  unfold read
  split
  · exact blames_readWord
  · split
    · exact blames_readNumber hc cs
    · split
      · rename_i h
        obtain rfl : c = '"' := by simpa [Text.isQuote] using h
        exact blames_readString cs
      · split
        · rename_i h
          obtain rfl : c = '#' := by simpa [Text.isCommentMark] using h
          exact blames_readComment cs
        · split
          · rename_i h
            subst h
            exact blames_readColon cs
          · exact blames_readSingle hc cs

end Lexeme

/-- A text that cannot be cut into tokens is blamed on the place of one of its characters, which is no blank. -/
theorem exists_blamed_of_tokensFrom_error {p l : Location} {cs : List Char} {cause : LexFault}
    (h : tokensFrom p cs = .error (cause, l)) :
    ∃ before d after, cs = before ++ d :: after ∧ l = p.after before ∧ Text.isBlank d = false ∧ cause.IsAbout d := by
  revert h
  refine scan_induction (P := fun p cs => tokensFrom p cs = .error (cause, l) →
    ∃ before d after, cs = before ++ d :: after ∧ l = p.after before ∧ Text.isBlank d = false ∧ cause.IsAbout d) ?_ ?_ ?_ ?_ p cs
  · exact fun p h => nomatch h
  · intro p c cs hblank ih h
    rw [tokensFrom_blank hblank] at h
    obtain ⟨before, d, after, rfl, hl, hd⟩ := ih h
    exact ⟨c :: before, d, after, rfl, hl, hd⟩
  · intro p c cs kind text rest hblank hread ih h
    have hcovers := Lexeme.covers_read c cs
    rw [hread] at hcovers
    rw [tokensFrom_token hblank hread] at h
    cases hscan : tokensFrom (p.after text) rest with
    | ok ts =>
      rw [hscan] at h
      nomatch h
    | error fault =>
      rw [hscan] at h
      obtain rfl : fault = (cause, l) := Except.error.inj h
      obtain ⟨before, d, after, hrest, hl, hd⟩ := ih hscan
      refine ⟨text ++ before, d, after, ?_, ?_, hd⟩
      · rw [← hcovers.1, hrest, List.append_assoc]
      · rw [hl, Location.after_append]
  · intro p c cs cause' before hblank hread h
    have hblames := Lexeme.blames_read hblank cs
    rw [hread] at hblames
    rw [tokensFrom_fault hblank hread] at h
    obtain ⟨rfl, rfl⟩ := Prod.mk.inj (Except.error.inj h)
    obtain ⟨d, after, hcs, hd⟩ := hblames
    exact ⟨before, d, after, hcs, rfl, hd⟩

end Courier
