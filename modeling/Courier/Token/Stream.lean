import Courier.Token.Scan

/-!
# Token streams

The tokens of one file under a cursor, with one slot for a saved cursor. A cursor is a place between two tokens: what lies
behind it, nearest first, and what lies ahead. Moves that leave the tokens, and a second mark, are refused with a
`CursorError` and change nothing.
-/

namespace Courier

/-- A misuse of a cursor. -/
inductive CursorError where
  | atEnd
  | atBegin
  | outOfRange (offset : Int)
  | markInUse
  | noMark
  deriving DecidableEq, Repr, Inhabited

/-- The wording of a misuse. -/
def CursorError.message : CursorError → String
  | atEnd => "cursor is already past the last token"
  | atBegin => "cursor is already at the first token"
  | outOfRange offset => s!"no token at relative offset {offset}"
  | markInUse => "a cursor mark is already saved"
  | noMark => "no cursor mark to restore"

/-- A place in a list of tokens: the tokens behind it, nearest first, and those ahead. -/
structure Cursor where
  behind : List Token
  ahead : List Token
  deriving DecidableEq, Repr, Inhabited

namespace Cursor

/-- The cursor before the first of some tokens. -/
def ofList (tokens : List Token) : Cursor :=
  ⟨[], tokens⟩

/-- All the tokens, in order. -/
def toList (c : Cursor) : List Token :=
  c.behind.reverse ++ c.ahead

/-- The number of tokens behind. -/
def position (c : Cursor) : Nat :=
  c.behind.length

/-- The place behind the next token. -/
def advance? (c : Cursor) : Option Cursor :=
  match c.ahead with
  | [] => none
  | t :: rest => some ⟨t :: c.behind, rest⟩

/-- The place before the previous token. -/
def retreat? (c : Cursor) : Option Cursor :=
  match c.behind with
  | [] => none
  | t :: rest => some ⟨rest, t :: c.ahead⟩

/-- The place before the first token. -/
def rewind (c : Cursor) : Cursor :=
  ofList c.toList

/-- The token `offset` places after the next one; the one just behind is at -1. -/
def relative? (c : Cursor) (offset : Int) : Option Token :=
  match offset with
  | .ofNat n => c.ahead[n]?
  | .negSucc n => c.behind[n]?

@[simp] theorem toList_ofList (tokens : List Token) : (ofList tokens).toList = tokens := rfl

@[simp] theorem toList_rewind (c : Cursor) : c.rewind.toList = c.toList := rfl

/-- Moving on keeps the tokens. -/
theorem toList_advance? {c d : Cursor} (h : c.advance? = some d) : d.toList = c.toList := by
  obtain ⟨behind, ahead⟩ := c
  cases ahead with
  | nil => simp [advance?] at h
  | cons t rest =>
    simp only [advance?, Option.some.injEq] at h
    subst h
    simp [toList]

/-- Moving back keeps the tokens. -/
theorem toList_retreat? {c d : Cursor} (h : c.retreat? = some d) : d.toList = c.toList := by
  obtain ⟨behind, ahead⟩ := c
  cases behind with
  | nil => simp [retreat?] at h
  | cons t rest =>
    simp only [retreat?, Option.some.injEq] at h
    subst h
    simp [toList]

end Cursor

/-- The tokens of one file under a cursor. -/
structure Stream where
  file : String
  source : String
  cursor : Cursor
  saved : Option Cursor
  deriving DecidableEq, Repr, Inhabited

namespace Stream

/-- The stream of a file's tokens, at its beginning and without a mark. -/
def ofTokens (file source : String) (tokens : List Token) : Stream :=
  ⟨file, source, .ofList tokens, none⟩

/-- The stream of a file's text, or why the text cannot be cut into tokens. -/
def tokenize (file source : String) : Except LexError Stream :=
  match tokensOf source with
  | .ok tokens => .ok (ofTokens file source tokens)
  | .error (fault, location) => .error ⟨file, fault, location, Text.lineAt source location.offset⟩

/-- All the tokens of the file, in order. -/
def tokens (s : Stream) : List Token :=
  s.cursor.toList

/-- The byte offsets of the line feeds of the source. -/
def newlines (s : Stream) : List Nat :=
  Text.newlineOffsets 0 s.source.toList

/-- The number of tokens behind the cursor. -/
def position (s : Stream) : Nat :=
  s.cursor.position

/-- The tokens ahead of the cursor. -/
def ahead (s : Stream) : List Token :=
  s.cursor.ahead

/-- Whether every token lies behind the cursor. -/
def atEnd (s : Stream) : Bool :=
  s.ahead.isEmpty

/-- The token right ahead of the cursor. -/
def current? (s : Stream) : Option Token :=
  s.ahead.head?

/-- The stream with its cursor moved. -/
def moveTo (s : Stream) (c : Cursor) : Stream :=
  { s with cursor := c }

/-- Moves the cursor over the next token. -/
def advance (s : Stream) : Except CursorError Stream :=
  match s.cursor.advance? with
  | some c => .ok (s.moveTo c)
  | none => .error .atEnd

/-- Moves the cursor back over the previous token. -/
def retreat (s : Stream) : Except CursorError Stream :=
  match s.cursor.retreat? with
  | some c => .ok (s.moveTo c)
  | none => .error .atBegin

/-- The token at an offset from the next one. -/
def relative (s : Stream) (offset : Int) : Except CursorError Token :=
  match s.cursor.relative? offset with
  | some t => .ok t
  | none => .error (.outOfRange offset)

/-- A number as a signed 64-bit word shows it. -/
def signedWord (n : Nat) : Int :=
  Int.bmod n 18446744073709551616

/-- The token `n` places after the next one. An offset out of range is reported as a signed 64-bit word. -/
def peek (s : Stream) (n : Nat) : Except CursorError Token :=
  match s.ahead[n]? with
  | some t => .ok t
  | none => .error (.outOfRange (signedWord n))

/-- The token just behind the cursor. -/
def peekBehind (s : Stream) : Except CursorError Token :=
  s.relative (-1)

/-- Saves the cursor in the slot, if the slot is free. -/
def mark (s : Stream) : Except CursorError Stream :=
  match s.saved with
  | some _ => .error .markInUse
  | none => .ok { s with saved := some s.cursor }

/-- Moves the cursor back to the saved one and frees the slot. -/
def restore (s : Stream) : Except CursorError Stream :=
  match s.saved with
  | some c => .ok { s with cursor := c, saved := none }
  | none => .error .noMark

/-- Rewinds the cursor to the first token and frees the slot. -/
def reset (s : Stream) : Stream :=
  { s with cursor := s.cursor.rewind, saved := none }

/-- The next token that is no comment, at the cursor or ahead of it. -/
def significant? (s : Stream) : Option Token :=
  s.ahead.find? (fun t => !t.isComment)

/-- The line of the source that holds a byte offset. -/
def lineAt (s : Stream) (offset : Nat) : String :=
  Text.lineAt s.source offset

/-- The place behind the last character of the source. -/
def endLocation (s : Stream) : Location :=
  Text.endOfText s.source

theorem tokenize_eq_ok {file source : String} {s : Stream} :
    tokenize file source = .ok s ↔ ∃ ts, tokensOf source = .ok ts ∧ s = ofTokens file source ts := by
  unfold tokenize
  constructor
  · intro h
    split at h
    · rename_i ts hts
      exact ⟨ts, hts, (Except.ok.inj h).symm⟩
    · nomatch h
  · rintro ⟨ts, hts, rfl⟩
    rw [hts]

theorem tokenize_eq_error {file source : String} {e : LexError} :
    tokenize file source = .error e ↔ e.file = file ∧ tokensOf source = .error (e.fault, e.location) ∧
      e.sourceLine = Text.lineAt source e.location.offset := by
  unfold tokenize
  constructor
  · intro h
    split at h
    · nomatch h
    · rename_i cause location hfault
      obtain rfl := Except.error.inj h
      exact ⟨rfl, hfault, rfl⟩
  · rintro ⟨rfl, hfault, hline⟩
    rw [hfault]
    simp only [← hline]

theorem exists_tokenize (file source : String) (h : (tokenize file source).isOk = true) : ∃ s, tokenize file source = .ok s := by
  cases hs : tokenize file source with
  | ok s => exact ⟨s, rfl⟩
  | error e =>
    rw [hs] at h
    nomatch h

@[simp] theorem tokens_ofTokens (file source : String) (ts : List Token) : (ofTokens file source ts).tokens = ts := rfl

@[simp] theorem tokens_reset (s : Stream) : s.reset.tokens = s.tokens := rfl

/-- Moving on keeps the tokens. -/
theorem tokens_advance {s s' : Stream} (h : s.advance = .ok s') : s'.tokens = s.tokens := by
  unfold advance at h
  split at h
  · rename_i c hc
    injection h with h
    rw [← h]
    exact Cursor.toList_advance? hc
  · nomatch h

/-- Moving back keeps the tokens. -/
theorem tokens_retreat {s s' : Stream} (h : s.retreat = .ok s') : s'.tokens = s.tokens := by
  unfold retreat at h
  split at h
  · rename_i c hc
    injection h with h
    rw [← h]
    exact Cursor.toList_retreat? hc
  · nomatch h

end Stream

end Courier
