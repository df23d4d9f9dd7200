import Courier.Grammar.State

/-!
# Lookahead

Some statements can only be told apart by tokens far ahead. A scan passes over the tokens of the stream, skipping comments, and
answers whether they are what it looks for; the cursor is put back afterwards, and no node is made.
-/

namespace Courier

/-- A scan moves the cursor of a stream and answers whether it found what it looked for. -/
abbrev Scan : Type :=
  StateM Stream Bool

namespace Scan

/-- The stream past the comments at the front of the tokens ahead. -/
def skipComments (s : Stream) : List Token → Stream
  | [] => s
  | t :: rest =>
    if t.isComment then
      match s.advance with
      | .ok next => skipComments next rest
      | .error _ => s
    else s

/-- The kind of the next token that is no comment. -/
def kind? : StateM Stream (Option TokenKind) := fun s =>
  let s := skipComments s s.ahead
  (s.current?.map Token.kind, s)

/-- Passes over the next token if it has a kind. -/
def accept (kind : TokenKind) : Scan := do
  if (← kind?) == some kind then
    match (← get).advance with
    | .ok next =>
      set next
      return true
    | .error _ => return false
  else return false

/-- Passes over tokens of the given kinds. -/
def acceptAll : List TokenKind → Scan
  | [] => return true
  | kind :: rest => do
    if ← accept kind then acceptAll rest else return false

/-- Passes over the dots and names that go on with a dotted name, at most once for each of the given tokens. -/
def dottedTail : List Token → Scan
  | [] => return true
  | _ :: rest => do
    if (← kind?) == some .dot then
      if ← acceptAll [.dot, .identifier] then dottedTail rest else return false
    else return true

/-- Passes over a dotted name. -/
def dottedName : Scan := do
  if ← accept .identifier then dottedTail (← get).ahead else return false

end Scan

namespace Parser

/-- The answer of a scan; the cursor is where it was. -/
def speculate (scan : Scan) : Parser Bool := do
  move Stream.mark
  let matched ← fun s =>
    let (matched, stream) := scan.run s.stream
    .ok matched { s with stream := stream }
  move Stream.restore
  return matched

/-- Whether the next tokens have the given kinds. -/
def lookAhead (kinds : List TokenKind) : Parser Bool :=
  speculate (Scan.acceptAll kinds)

/-- Whether a variable definition is next: a name, a colon, a type and the end of the statement. -/
def looksLikeVariableDefinition : Parser Bool :=
  speculate do
    if ← Scan.acceptAll [.identifier, .colon] then
      if ← Scan.dottedName then Scan.accept .endOfStatement else return false
    else return false

/-- Whether a plain assignment is next: a dotted name and the assignment operator. -/
def looksLikePlainAssignment : Parser Bool :=
  speculate do
    if ← Scan.dottedName then Scan.accept .assignment else return false

end Parser

end Courier
