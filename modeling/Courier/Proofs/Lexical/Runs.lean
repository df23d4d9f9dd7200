import Courier.Proofs.Lexical.Tokenize
import Courier.Token.Automaton

/-!
# Runs of the automaton

What a state of the automaton has read of its run, and what may stand behind that (`LexState.Reads`). A run that ends is a lexeme, or the
readers of lexemes find a fault there. The lemmas on faults say which one, and the place that is blamed: what lies before it is the run, or
nothing.
-/

namespace Courier

namespace Lexical

variable {n : Nat} {run left cs ds : List Char} {c d : Char}

/-! ## Ends of runs -/

theorem endsRun_nil : EndsRun [] :=
  fun _ h => nomatch h

theorem endsRun_cons (h : Text.isTerminator d = true) : EndsRun (d :: left) := by
  intro e he
  obtain rfl := Option.some.inj he
  exact isTerminator_iff.1 h

/-- What a class without terminators holds is no blank. -/
theorem not_blank_of {p : Char → Bool} (hp : terminators.all (fun c => !p c) = true) (h : p c = true) : Text.isBlank c = false := by
  cases hblank : Text.isBlank c with
  | false => rfl
  | true =>
    have hnot := List.all_eq_true.1 hp c (mem_terminators (.inl (isBlank_iff.1 hblank)))
    rw [h] at hnot
    nomatch hnot

theorem forall_mem_concat {p : Char → Prop} (hcs : ∀ e ∈ cs, p e) (hd : p d) : ∀ e ∈ cs ++ [d], p e :=
  List.forall_mem_append.2 ⟨hcs, List.forall_mem_singleton.2 hd⟩

/-! ## Dotted runs -/

theorem Dotted.concat_digit (h : Dotted n run) (hd : Digit d) : Dotted n (run ++ [d]) := by
  induction h with
  | digits _ hds => exact .digits (by simp) (forall_mem_concat hds hd)
  | @dot ds run n hne hds _ ih =>
    rw [List.append_assoc, List.cons_append]
    exact .dot hne hds ih

theorem Dotted.concat_dot (h : Dotted n run) (hd : Digit d) : Dotted (n + 1) (run ++ ['.'] ++ [d]) := by
  have hone : Dotted 0 [d] := .digits (by simp) (by simpa using hd)
  induction h with
  | @digits ds hne hds =>
    rw [List.append_assoc]
    exact .dot hne hds hone
  | @dot ds run n hne hds _ ih =>
    rw [List.append_assoc, List.append_assoc, List.cons_append, ← List.append_assoc]
    exact .dot hne hds ih

/-- A dotted number ends in a digit. -/
theorem Dotted.exists_last (h : Dotted n run) : ∃ front d, run = front ++ [d] ∧ Digit d := by
  obtain ⟨c, cs, rfl, -⟩ := h.head
  have hlast : (c :: cs).getLast? = some ((c :: cs).getLast (List.cons_ne_nil c cs)) := List.getLast?_eq_some_getLast _
  have hne : (c :: cs).getLast (List.cons_ne_nil c cs) ≠ '.' := fun hdot => h.getLast? (hdot ▸ hlast)
  have hmem := h.isDigitOrDot _ (List.getLast_mem (List.cons_ne_nil c cs))
  refine ⟨_, _, (List.dropLast_append_getLast (List.cons_ne_nil c cs)).symm, isDigit_iff.1 ?_⟩
  simpa [Courier.Lexeme.isDigitOrDot, hne] using hmem

/-- Groups of digits with `n` single dots between them, or behind the last of them. -/
inductive Grouped : Nat → List Char → Prop where
  | whole {n : Nat} {run : List Char} (h : Dotted n run) : Grouped n run
  | dangling {n : Nat} {run : List Char} (h : Dotted n run) : Grouped (n + 1) (run ++ ['.'])

theorem Grouped.concat_digit (h : Grouped n run) (hd : Digit d) : Grouped n (run ++ [d]) := by
  cases h with
  | whole h => exact .whole (h.concat_digit hd)
  | dangling h => exact .whole (h.concat_dot hd)

theorem Grouped.isDigitOrDot (h : Grouped n run) : ∀ c ∈ run, Courier.Lexeme.isDigitOrDot c = true := by
  cases h with
  | whole h => exact h.isDigitOrDot
  | dangling h => exact forall_mem_concat h.isDigitOrDot rfl

theorem Grouped.head (h : Grouped n run) : ∃ d ds, run = d :: ds ∧ Digit d := by
  cases h with
  | whole h => exact h.head
  | dangling h =>
    obtain ⟨d, ds, rfl, hd⟩ := h.head
    exact ⟨d, _, rfl, hd⟩

theorem Grouped.count (h : Grouped n run) : run.count '.' = n := by
  cases h with
  | whole h => exact h.count
  | dangling h => rw [List.count_append, h.count, List.count_singleton_self]

/-- A dotted number holds no second dot, and ends in none. -/
theorem Dotted.beforeSecondDot_append (h : Dotted n run) (cs : List Char) :
    Courier.Lexeme.beforeSecondDot (run ++ cs) = (Courier.Lexeme.beforeSecondDot cs).map (run ++ ·) := by
  have hdigits : ∀ {ds : List Char} (xs : List Char), (∀ d ∈ ds, Digit d) →
      Courier.Lexeme.beforeSecondDot (ds ++ xs) = (Courier.Lexeme.beforeSecondDot xs).map (ds ++ ·) := by
    intro ds xs hds
    induction ds with
    | nil => simp
    | cons d ds ih =>
      rw [List.cons_append, beforeSecondDot_cons (.inl (hds d List.mem_cons_self).ne_dot),
        ih (fun e he => hds e (List.mem_cons_of_mem d he)), Option.map_map]
      rfl
  induction h with
  | digits _ hds => exact hdigits cs hds
  | @dot ds run n _ hds hrun ih =>
    obtain ⟨d, rest, rfl, hd⟩ := hrun.head
    rw [List.append_assoc, hdigits _ hds, List.cons_append, beforeSecondDot_cons (.inr (by simpa using hd.ne_dot)), ih, Option.map_map,
      Option.map_map]
    congr 1
    funext front
    simp

theorem Grouped.beforeSecondDot (h : Grouped n run) : Courier.Lexeme.beforeSecondDot run = none := by
  cases h with
  | whole h => exact h.beforeSecondDot
  | dangling h =>
    rw [h.beforeSecondDot_append]
    rfl

/-! ## Faults of numbers -/

theorem closeNumber_of_not_terminator (hd : Text.isTerminator d = false) (kind : TokenKind) (wellFormed : Bool) :
    Courier.Lexeme.closeNumber kind wellFormed run (d :: ds) = .fault (.invalidInNumber d) run := by
  have hfound : (d :: ds).head?.filter (fun c => !Text.isTerminator c) = some d := by
    rw [List.head?_cons, Option.filter_some, hd]
    rfl
  unfold Courier.Lexeme.closeNumber
  rw [hfound]

theorem closeNumber_of_malformed (h : EndsRun left) (kind : TokenKind) :
    Courier.Lexeme.closeNumber kind false run left = .fault .malformedNumber [] := by
  unfold Courier.Lexeme.closeNumber
  rw [endsRun_iff.1 h]
  rfl

/-- Digits and dots are read as a dotted number unless a mark of a radix stands behind a single zero. -/
theorem Grouped.read_eq (h : Grouped n (c :: cs)) (hmark : c :: cs = ['0'] → ∀ d ∈ left.head?, d ∉ ['x', 'X', 'b', 'B']) :
    Courier.Lexeme.read c (cs ++ left) = Courier.Lexeme.readDotted (c :: cs ++ left) := by
  obtain ⟨e, es, he, hdigit⟩ := h.head
  obtain ⟨rfl, rfl⟩ := List.cons.inj he
  have hno : ∀ x ∈ ['x', 'X', 'b', 'B'], ∀ r, c = '0' → cs ++ left ≠ x :: r := by
    rintro x hx r rfl heq
    cases cs with
    | nil => exact hmark rfl x (by rw [← List.nil_append left, heq]; rfl) hx
    | cons e es =>
      obtain rfl : e = x := (List.cons.inj heq).1
      have hrun := h.isDigitOrDot e (by simp)
      revert hrun hx
      simp only [List.mem_cons, List.not_mem_nil, or_false]
      rintro (rfl | rfl | rfl | rfl) <;> decide
  rw [read_digit hdigit]
  unfold Courier.Lexeme.readNumber
  split
  case h_5 => rfl
  all_goals
    rename_i heq
    obtain ⟨hc, hrest⟩ := List.cons.inj heq
    exact absurd hrest (hno _ (by simp) _ hc)

/-- A number that goes on with a character which no number has. -/
theorem Grouped.read_runsOn (h : Grouped n (c :: cs)) (hmark : c :: cs = ['0'] → d ∉ ['x', 'X', 'b', 'B'])
    (hd : Courier.Lexeme.isDigitOrDot d = false) (hend : Text.isTerminator d = false) :
    Courier.Lexeme.read c (cs ++ d :: ds) = .fault (.invalidInNumber d) (c :: cs) := by
  have hstop : ∀ e ∈ (d :: ds).head?, Courier.Lexeme.isDigitOrDot e = false := by simpa using hd
  obtain ⟨htake, hdrop⟩ := takeWhile_run h.isDigitOrDot hstop
  rw [h.read_eq (by simpa using hmark)]
  unfold Courier.Lexeme.readDotted
  simp only [htake, hdrop, h.beforeSecondDot]
  exact closeNumber_of_not_terminator hend _ _

/-- A number that ends in a dot. -/
theorem Dotted.read_dangling (h : Dotted n (c :: cs)) (hend : EndsRun left) (hdot : left.head? ≠ some '.') :
    Courier.Lexeme.read c (cs ++ ['.'] ++ left) = .fault .malformedNumber [] := by
  have hgrouped : Grouped (n + 1) (c :: (cs ++ ['.'])) := .dangling h
  have hstop : ∀ d ∈ left.head?, Courier.Lexeme.isDigitOrDot d = false := by
    intro d hd
    have hdigit := hend.stops (p := Text.isDigit) (by decide) d hd
    have hne : d ≠ '.' := fun h => hdot (h ▸ hd)
    simp [Courier.Lexeme.isDigitOrDot, hdigit, hne]
  obtain ⟨htake, hdrop⟩ := takeWhile_run hgrouped.isDigitOrDot hstop
  rw [hgrouped.read_eq (fun hzero => by simp at hzero)]
  unfold Courier.Lexeme.readDotted
  simp only [htake, hdrop, hgrouped.beforeSecondDot]
  have hlast : ((c :: (cs ++ ['.'])).getLast? != some '.') = false := by
    rw [← List.cons_append, List.getLast?_concat]
    rfl
  rw [hlast]
  exact closeNumber_of_malformed hend _

/-- A number with two dots in a row. -/
theorem Dotted.read_secondDot (h : Dotted n (c :: cs)) :
    Courier.Lexeme.read c (cs ++ ['.'] ++ '.' :: ds) = .fault .unexpectedDot (c :: (cs ++ ['.'])) := by
  have hgrouped : Grouped (n + 1) (c :: (cs ++ ['.'])) := .dangling h
  have htake : (c :: (cs ++ ['.']) ++ '.' :: ds).takeWhile Courier.Lexeme.isDigitOrDot =
      c :: cs ++ '.' :: '.' :: ds.takeWhile Courier.Lexeme.isDigitOrDot := by
    rw [List.takeWhile_append_of_pos hgrouped.isDigitOrDot, List.takeWhile_cons_of_pos rfl]
    simp
  rw [hgrouped.read_eq (fun hzero => by simp at hzero)]
  unfold Courier.Lexeme.readDotted
  simp only [htake, h.beforeSecondDot_append]
  rfl

/-- What is read behind the mark of a radix. -/
theorem read_hexadecimal {x : Char} (hx : x = 'x' ∨ x = 'X') :
    Courier.Lexeme.read '0' (x :: cs) = Courier.Lexeme.readHexadecimal ['0', x] cs := by
  rw [read_digit (isDigit_iff.1 rfl)]
  rcases hx with rfl | rfl <;> rfl

theorem read_binary {x : Char} (hx : x = 'b' ∨ x = 'B') :
    Courier.Lexeme.read '0' (x :: cs) = Courier.Lexeme.readBinary ['0', x] cs := by
  rw [read_digit (isDigit_iff.1 rfl)]
  rcases hx with rfl | rfl <;> rfl

theorem read_hexadecimal_runsOn {x : Char} (hx : x = 'x' ∨ x = 'X') (hds : ∀ e ∈ ds, HexDigit e) (hd : Text.isHexDigit d = false)
    (hend : Text.isTerminator d = false) :
    Courier.Lexeme.read '0' (x :: (ds ++ d :: cs)) = .fault (.invalidInNumber d) ('0' :: x :: ds) := by
  have hstop : ∀ e ∈ (d :: cs).head?, Text.isHexDigit e = false := by simpa using hd
  obtain ⟨htake, hdrop⟩ := takeWhile_run (fun e he => isHexDigit_iff.2 (hds e he)) hstop
  rw [read_hexadecimal hx]
  unfold Courier.Lexeme.readHexadecimal
  simp only [htake, hdrop]
  exact closeNumber_of_not_terminator hend _ _

theorem read_hexadecimal_empty {x : Char} (hx : x = 'x' ∨ x = 'X') (hend : EndsRun left) :
    Courier.Lexeme.read '0' (x :: left) = .fault .malformedNumber [] := by
  have hnone : ∀ e ∈ ([] : List Char), Text.isHexDigit e = true := fun _ he => nomatch he
  obtain ⟨htake, hdrop⟩ := takeWhile_run hnone (hend.stops (by decide))
  rw [List.nil_append] at htake hdrop
  rw [read_hexadecimal hx]
  unfold Courier.Lexeme.readHexadecimal
  simp only [htake, hdrop]
  exact closeNumber_of_malformed hend _

theorem read_binary_runsOn {x : Char} (hx : x = 'b' ∨ x = 'B') (hds : ∀ e ∈ ds, e = '0' ∨ e = '1')
    (hd : Text.isBinaryDigit d = false) : Courier.Lexeme.read '0' (x :: (ds ++ d :: cs)) =
      if Text.isDigit d then .fault (.invalidBinaryDigit d) ('0' :: x :: ds)
      else Courier.Lexeme.closeNumber .binaryLiteral (!ds.isEmpty) ('0' :: x :: ds) (d :: cs) := by
  have hstop : ∀ e ∈ (d :: cs).head?, Text.isBinaryDigit e = false := by simpa using hd
  obtain ⟨htake, hdrop⟩ := takeWhile_run (fun e he => isBinaryDigit_iff.2 (hds e he)) hstop
  rw [read_binary hx]
  unfold Courier.Lexeme.readBinary
  simp only [htake, hdrop, List.head?_cons, Option.filter_some]
  cases Text.isDigit d <;> rfl

theorem read_binary_empty {x : Char} (hx : x = 'b' ∨ x = 'B') (hend : EndsRun left) :
    Courier.Lexeme.read '0' (x :: left) = .fault .malformedNumber [] := by
  have hnone : ∀ e ∈ ([] : List Char), Text.isBinaryDigit e = true := fun _ he => nomatch he
  obtain ⟨htake, hdrop⟩ := takeWhile_run hnone (hend.stops (by decide))
  rw [List.nil_append] at htake hdrop
  have hdigit : left.head?.filter Text.isDigit = none :=
    Option.filter_eq_none_iff.2 (fun c hc => by simp [hend.stops (p := Text.isDigit) (by decide) c hc])
  rw [read_binary hx]
  unfold Courier.Lexeme.readBinary
  simp only [htake, hdrop, hdigit]
  exact closeNumber_of_malformed hend _

/-! ## Other faults -/

/-- A word that goes on with a character which no word has. -/
theorem read_word_runsOn (hc : Letter c) (hcs : ∀ e ∈ cs, Letter e ∨ Digit e) (hd : Text.isWordChar d = false)
    (hend : Text.isTerminator d = false) : Courier.Lexeme.read c (cs ++ d :: ds) = .fault (.invalidCharacter d) (c :: cs) := by
  have hrun : ∀ e ∈ c :: cs, Text.isWordChar e = true :=
    List.forall_mem_cons.2 ⟨isWordChar_iff.2 (.inl hc), fun e he => isWordChar_iff.2 (hcs e he)⟩
  have hstop : ∀ e ∈ (d :: ds).head?, Text.isWordChar e = false := by simpa using hd
  obtain ⟨htake, hdrop⟩ := takeWhile_run hrun hstop
  rw [List.cons_append] at htake hdrop
  unfold Courier.Lexeme.read Courier.Lexeme.readWord
  simp only [isLetter_iff.2 hc, htake, hdrop, hend, if_true, Bool.false_eq_true, if_false]

theorem read_string_unterminated (h : '"' ∉ cs) : Courier.Lexeme.read '"' cs = .fault .unterminatedString [] := by
  have hdrop : cs.dropWhile (fun c => !Text.isQuote c) = [] := by
    refine List.dropWhile_eq_nil_iff.2 (fun c hc => ?_)
    have hne : c ≠ '"' := fun heq => h (heq ▸ hc)
    simp [Text.isQuote, hne]
  have hread : Courier.Lexeme.read '"' cs = Courier.Lexeme.readString cs := rfl
  rw [hread, Courier.Lexeme.readString, hdrop]

theorem read_blockComment_unterminated (h : ¬['}', '#'] <:+: cs) :
    Courier.Lexeme.read '#' ('{' :: cs) = .fault .unterminatedComment [] := by
  have hclose : Courier.Lexeme.closeComment cs = none := by
    refine Option.eq_none_iff_forall_not_mem.2 (fun found hfound => h ?_)
    obtain ⟨body, -, rfl, -⟩ := closeComment_eq_some.1 hfound
    exact ⟨body, found.2, by simp⟩
  have hread : Courier.Lexeme.read '#' ('{' :: cs) = Courier.Lexeme.readBlockComment cs := rfl
  rw [hread, Courier.Lexeme.readBlockComment, hclose]

/-- A character that begins nothing. -/
theorem read_nothing (hletter : Text.isLetter c = false) (hdigit : Text.isDigit c = false) (hquote : Text.isQuote c = false)
    (hmark : Text.isCommentMark c = false) (hcolon : c ≠ ':') (hsingle : TokenKind.ofChar? c = none) :
    Courier.Lexeme.read c cs = .fault (.invalidCharacter c) [] := by
  unfold Courier.Lexeme.read Courier.Lexeme.readSingle
  simp only [hletter, hdigit, hquote, hmark, hcolon, hsingle, Bool.false_eq_true, if_false]

end Lexical

/-! ## What a state has read -/

open Lexical

/-- What a state on top of the stack has read of its run, and what is left behind that. -/
inductive LexState.Reads : LexState → (run left : List Char) → Prop where
  /-- The first character of a word is held: nothing is read yet. -/
  | heldWord {c : Char} {left : List Char} (hc : Letter c) : Reads .alpha [] (c :: left)
  | alpha {c : Char} {cs left : List Char} (hc : Letter c) (hcs : ∀ d ∈ cs, Letter d) : Reads .alpha (c :: cs) left
  | alphaDigit {c : Char} {cs left : List Char} (hc : Letter c) (hcs : ∀ d ∈ cs, Letter d ∨ Digit d) :
    Reads .alphaDigit (c :: cs) left
  /-- The first digit of a number is held. -/
  | heldNumber {c : Char} {left : List Char} (hc : Digit c) : Reads .integer [] (c :: left)
  | integer {run left : List Char} (h : Dotted 0 run) : Reads .integer run left
  | decimal {run left : List Char} (h : Grouped 1 run) : Reads .decimal run left
  | version {n : Nat} {run left : List Char} (h : Grouped (n + 2) run) : Reads .version run left
  | hex {x : Char} {ds left : List Char} (hx : x = 'x' ∨ x = 'X') (hds : ∀ d ∈ ds, HexDigit d) : Reads .hex ('0' :: x :: ds) left
  | binary {x : Char} {ds left : List Char} (hx : x = 'b' ∨ x = 'B') (hds : ∀ d ∈ ds, d = '0' ∨ d = '1') :
    Reads .binary ('0' :: x :: ds) left
  | string {body left : List Char} (hbody : '"' ∉ body) : Reads .string ('"' :: body) left
  | single {c : Char} {kind : TokenKind} {left : List Char} (hc : (c, kind) ∈ singles) : Reads .single [c] left
  | colon {left : List Char} : Reads .colon [':'] left
  | lineComment {body left : List Char} (hbody : '\n' ∉ body) (hmark : body.head? ≠ some '{') : Reads .lineComment ('#' :: body) left
  /-- No closing mark was passed, and none was begun. -/
  | blockComment {body left : List Char} (hbody : ¬['}', '#'] <:+: body) (hclose : body.getLast? = some '}' → left.head? ≠ some '#') :
    Reads .blockComment ('#' :: '{' :: body) left
  | blockCommentClose {body left : List Char} (hbody : ¬['}', '#'] <:+: body) :
    Reads .blockCommentClose ('#' :: '{' :: (body ++ ['}'])) ('#' :: left)

/-- The runs that may hold any character. -/
def LexState.Spans : LexState → Prop
  | .string | .lineComment | .blockComment => True
  | _ => False

end Courier
