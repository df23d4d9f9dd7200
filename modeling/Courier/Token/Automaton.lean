import Courier.Text.Slice
import Courier.Token.Scan

/-!
# The scanner as an automaton

A text is cut into tokens byte by byte, by an automaton with a stack of states. At the bottom of the stack blanks are passed. Where a run
is recognized by its first character, its state is pushed, and the character is consumed or held, so that the new state sees it again. A
run ends at a terminator, which is held as well and starts a token of its own.

Bytes, slices of the text and its lines are looked up by numbers of bytes. Each lookup may fail, and a failure stops the automaton
(`Halt.outOfPlace`).
-/

namespace Courier

/-! ## States -/

/-- What the automaton is reading. -/
inductive LexState where
  | whitespace
  | alpha
  | alphaDigit
  | integer
  | decimal
  | version
  | hex
  | binary
  | string
  /-- A token of one character. -/
  | single
  /-- A colon, which may become an assignment. -/
  | colon
  | lineComment
  | blockComment
  /-- The brace of the closing mark of a block comment. -/
  | blockCommentClose
  deriving DecidableEq, Repr, Inhabited

/-- What is done with a byte that was seen: it is passed, or left for the new state on top. -/
inductive Step where
  | consume
  | hold
  deriving DecidableEq, Repr, Inhabited

/-- Why the automaton stops. -/
inductive Halt where
  /-- The text is refused, with a message, the place to blame and the line that holds it. -/
  | refused (message : String) (place : Location) (line : String)
  /-- A lookup was out of range or inside a character. -/
  | outOfPlace
  deriving DecidableEq, Repr, Inhabited

/-- A token as the automaton gives it: its kind, the bytes it takes and its place. -/
structure Emitted where
  kind : TokenKind
  spanStart : Nat
  spanEnd : Nat
  location : Location
  deriving DecidableEq, Repr, Inhabited

/-- The automaton on its way over a text. -/
structure Automaton where
  text : String
  /-- The byte at hand. -/
  pos : Nat
  line : Nat
  column : Nat
  /-- The stack of states, the top first. -/
  states : List LexState
  /-- Where the run on top of the stack started. -/
  start : Location
  tokens : List Emitted
  newlines : List Nat
  deriving DecidableEq, Repr, Inhabited

namespace Automaton

/-- The automaton before a text. -/
def ofText (text : String) : Automaton :=
  ⟨text, 0, 1, 1, [.whitespace], ⟨0, 0, 0⟩, [], []⟩

/-! ## Lookups -/

/-- The bytes of the text. -/
def src (a : Automaton) : List UInt8 :=
  a.text.toUTF8.data.toList

/-- The byte with a number. -/
def byteAt (a : Automaton) (i : Nat) : Except Halt UInt8 :=
  match a.src[i]? with
  | some b => .ok b
  | none => .error .outOfPlace

/-- The byte before the one with a number. -/
def byteBefore (a : Automaton) : Nat → Except Halt UInt8
  | 0 => .error .outOfPlace
  | i + 1 => a.byteAt i

/-- The bytes between two numbers. -/
def bytesBetween (a : Automaton) (start stop : Nat) : Except Halt (List UInt8) :=
  if start ≤ stop ∧ stop ≤ a.src.length then .ok ((a.src.drop start).take (stop - start)) else .error .outOfPlace

/-- The characters between two numbers of bytes. -/
def slice (a : Automaton) (start stop : Nat) : Except Halt (List Char) :=
  match Text.slice? a.text.toList start stop with
  | some cs => .ok cs
  | none => .error .outOfPlace

/-- The line that holds a byte, without one carriage return at its end. It is cut out between the line feeds around the byte. -/
def lineAt (a : Automaton) (offset : Nat) : Except Halt String := do
  let before ← a.slice 0 offset
  let behind ← a.slice offset a.src.length
  let front := Text.byteLength (Text.lastLine before)
  let back := Text.byteLength (behind.takeWhile (· != '\n'))
  let line ← a.slice (offset - front) (offset + back)
  return String.ofList (Text.dropReturn line.reverse).reverse

/-- The place of the byte at hand. -/
def here (a : Automaton) : Location :=
  ⟨a.line, a.column, a.pos⟩

/-- The character that starts at the byte at hand, or NUL at the end of the text. -/
def currentChar (a : Automaton) : Except Halt Char := do
  return (← a.slice a.pos a.src.length).headD '\x00'

/-! ## Refusals -/

/-- Refuses the text, blaming a place. -/
def refuse {α : Type} (a : Automaton) (place : Location) (message : String) : Except Halt α := do
  .error (.refused message place (← a.lineAt place.offset))

/-- Refuses the text for the character at hand. -/
def refuseCharacter {α : Type} (a : Automaton) : Except Halt α := do
  a.refuse a.here (LexFault.invalidCharacter (← a.currentChar)).message

/-! ## The stack -/

/-- The state on top of the stack. -/
def state (a : Automaton) : LexState :=
  a.states.headD .whitespace

/-- Starts a run at the byte at hand. -/
def begin (a : Automaton) (state : LexState) : Automaton :=
  { a with start := a.here, states := state :: a.states }

/-- Goes on with a run in another state. -/
def switch (a : Automaton) (state : LexState) : Automaton :=
  match a.states with
  | _ :: rest => { a with states := state :: rest }
  | [] => a

/-- Ends a run; the bottom of the stack stays. -/
def pop (a : Automaton) : Automaton :=
  match a.states with
  | _ :: below :: rest => { a with states := below :: rest }
  | _ => a

/-- Passes the byte at hand. The bytes of a character share the column of the first of them. -/
def bump (a : Automaton) : Except Halt Automaton := do
  let b ← a.byteAt a.pos
  if b = 10 then
    return { a with newlines := a.newlines ++ [a.pos], line := a.line + 1, column := 1, pos := a.pos + 1 }
  else if b &&& 0xC0 ≠ 0x80 then return { a with column := a.column + 1, pos := a.pos + 1 }
  else return { a with pos := a.pos + 1 }

/-! ## Tokens -/

/-- Gives the token of the run, which ends before a byte. -/
def emitSpan (a : Automaton) (kind : TokenKind) (stop : Nat) : Automaton :=
  { a with tokens := a.tokens ++ [⟨kind, a.start.offset, stop, a.start⟩] }

/-- Gives the token of the run, which ends before the byte at hand. -/
def emit (a : Automaton) (kind : TokenKind) : Automaton :=
  a.emitSpan kind a.pos

/-- Gives the token of a word. -/
def emitWord (a : Automaton) : Except Halt Automaton := do
  return a.emit (Lexeme.wordKind (← a.slice a.start.offset a.pos))

/-- Whether the bytes of a number are one: digits stand behind the mark of a radix, and a dotted number ends in a digit. -/
def isWellFormed : TokenKind → List UInt8 → Bool
  | .hexadecimalLiteral, run | .binaryLiteral, run => 2 < run.length
  | .decimalLiteral, run | .versionLiteral, run => run.getLast?.any (fun b => Text.isDigit (Char.ofUInt8 b))
  | _, _ => true

/-- Gives the token of a number, if it is one. -/
def emitNumber (a : Automaton) (kind : TokenKind) : Except Halt Automaton := do
  if isWellFormed kind (← a.bytesBetween a.start.offset a.pos) then return a.emit kind
  else a.refuse a.start LexFault.malformedNumber.message

/-- Gives the token of a run of one character. -/
def emitSingle (a : Automaton) : Except Halt Automaton := do
  match TokenKind.ofChar? (Char.ofUInt8 (← a.byteAt a.start.offset)) with
  | some kind => return a.emit kind
  | none => a.refuse a.start "invalid character"

/-- Gives the token of a line comment, which one carriage return before the byte at hand is no part of. -/
def emitLineComment (a : Automaton) : Except Halt Automaton := do
  if a.start.offset < a.pos then
    let last ← a.byteBefore a.pos
    return a.emitSpan .lineComment (if last = 13 then a.pos - 1 else a.pos)
  else return a.emitSpan .lineComment a.pos

/-! ## Bytes -/

/-- A byte where a word does not go on. -/
def endWord (a : Automaton) (c : Char) : Except Halt (Step × Automaton) := do
  if Text.isTerminator c then return (.hold, (← a.emitWord).pop) else a.refuseCharacter

/-- A byte where a number does not go on. -/
def endNumber (a : Automaton) (c : Char) (kind : TokenKind) : Except Halt (Step × Automaton) := do
  if Text.isTerminator c then return (.hold, (← a.emitNumber kind).pop)
  else a.refuse a.here (LexFault.invalidInNumber (← a.currentChar)).message

/-- A byte between tokens. -/
def whitespace (a : Automaton) (c : Char) : Except Halt (Step × Automaton) :=
  if Text.isBlank c then .ok (.consume, a)
  else if Text.isLetter c then .ok (.hold, a.begin .alpha)
  else if Text.isDigit c then .ok (.hold, a.begin .integer)
  else if Text.isQuote c then .ok (.consume, a.begin .string)
  else if Text.isCommentMark c then .ok (.consume, a.begin .lineComment)
  else if c = ':' then .ok (.consume, a.begin .colon)
  else if (TokenKind.ofChar? c).isSome then .ok (.consume, a.begin .single)
  else a.refuseCharacter

/-- Whether the run is a single zero. -/
def leadingZero (a : Automaton) : Except Halt Bool :=
  if a.pos = a.start.offset + 1 then (· == 48) <$> a.byteAt a.start.offset else .ok false

/-- A byte behind digits. A mark behind a single leading zero picks the radix. -/
def integer (a : Automaton) (c : Char) : Except Halt (Step × Automaton) := do
  let zero ← a.leadingZero
  if Text.isDigit c then return (.consume, a)
  else if zero && (c == 'x' || c == 'X') then return (.consume, a.switch .hex)
  else if zero && (c == 'b' || c == 'B') then return (.consume, a.switch .binary)
  else if c = '.' then return (.consume, a.switch .decimal)
  else a.endNumber c .integerLiteral

/-- A dot behind digits and dots, which must be behind a digit. -/
def dot (a : Automaton) : Except Halt (Step × Automaton) := do
  if Text.isDigit (Char.ofUInt8 (← a.byteBefore a.pos)) then return (.consume, a.switch .version)
  else a.refuse a.here LexFault.unexpectedDot.message

/-- Whether a byte opens a block comment: it is a brace right behind the comment mark of the run. -/
def opensBlock (a : Automaton) (c : Char) : Except Halt Bool :=
  if c = '{' ∧ a.pos = a.start.offset + 1 then (· == 35) <$> a.byteBefore a.pos else .ok false

/-- A byte of a line comment, which a brace right behind its mark makes a block comment. -/
def lineComment (a : Automaton) (c : Char) : Except Halt (Step × Automaton) := do
  let opens ← a.opensBlock c
  if opens then return (.consume, a.switch .blockComment)
  else if c = '\n' then return (.hold, (← a.emitLineComment).pop)
  else return (.consume, a)

/-- Passes the byte at hand as the last of a run, and gives its token. -/
def close (a : Automaton) (kind : TokenKind) : Except Halt (Step × Automaton) := do
  return (.hold, ((← a.bump).emit kind).pop)

/-- What the state on top makes of the byte at hand, read as a character. -/
def dispatch (a : Automaton) (c : Char) : Except Halt (Step × Automaton) :=
  match a.state with
  | .whitespace => a.whitespace c
  | .alpha =>
    if Text.isLetter c then .ok (.consume, a)
    else if Text.isDigit c then .ok (.consume, a.switch .alphaDigit)
    else a.endWord c
  | .alphaDigit => if Text.isWordChar c then .ok (.consume, a) else a.endWord c
  | .integer => a.integer c
  | .decimal =>
    if Text.isDigit c then .ok (.consume, a) else if c = '.' then a.dot else a.endNumber c .decimalLiteral
  | .version =>
    if Text.isDigit c then .ok (.consume, a) else if c = '.' then a.dot else a.endNumber c .versionLiteral
  | .hex => if Text.isHexDigit c then .ok (.consume, a) else a.endNumber c .hexadecimalLiteral
  | .binary =>
    if Text.isBinaryDigit c then .ok (.consume, a)
    else if Text.isDigit c then a.refuse a.here (LexFault.invalidBinaryDigit c).message
    else a.endNumber c .binaryLiteral
  | .string => if Text.isQuote c then a.close .stringLiteral else .ok (.consume, a)
  | .single => do return (.hold, (← a.emitSingle).pop)
  | .colon =>
    if c = '=' then a.close .assignment
    else if c = ':' then a.refuse a.start LexFault.reservedColons.message
    else .ok (.hold, (a.emit .colon).pop)
  | .lineComment => a.lineComment c
  | .blockComment =>
    if c = '}' ∧ a.src[a.pos + 1]? = some 35 then .ok (.consume, a.switch .blockCommentClose) else .ok (.consume, a)
  | .blockCommentClose => a.close .blockComment

/-! ## Runs -/

/-- Passes the byte at hand, unless it is held. -/
def follow : Step × Automaton → Except Halt Automaton
  | (.consume, next) => next.bump
  | (.hold, next) => .ok next

/-- One turn: the state on top sees the byte at hand. -/
def turn (a : Automaton) : Except Halt Automaton := do
  follow (← a.dispatch (Char.ofUInt8 (← a.byteAt a.pos)))

/-- Ends the run that is open at the end of the text. -/
def finish (a : Automaton) : Except Halt Automaton := do
  match a.state with
  | .whitespace => return a.pop
  | .alpha | .alphaDigit => return (← a.emitWord).pop
  | .integer => return (← a.emitNumber .integerLiteral).pop
  | .decimal => return (← a.emitNumber .decimalLiteral).pop
  | .version => return (← a.emitNumber .versionLiteral).pop
  | .hex => return (← a.emitNumber .hexadecimalLiteral).pop
  | .binary => return (← a.emitNumber .binaryLiteral).pop
  | .single => return (← a.emitSingle).pop
  | .colon => return (a.emit .colon).pop
  | .lineComment => return (← a.emitLineComment).pop
  | .string => a.refuse a.start LexFault.unterminatedString.message
  | .blockComment | .blockCommentClose => a.refuse a.start LexFault.unterminatedComment.message

/-- How the automaton ends, if it does so within a number of turns. -/
def run? : Nat → Automaton → Option (Except Halt Automaton)
  | turns, a =>
    if a.pos < a.src.length then
      match turns with
      | 0 => none
      | turns + 1 =>
        match a.turn with
        | .ok next => run? turns next
        | .error halt => some (.error halt)
    else some a.finish

end Automaton

end Courier
