import Courier.Grammar.Fault
import Courier.Tree.Basic

/-!
# The parser

A parser reads a stream and grows a tree. The operations here are all that the productions are made of: looking at the next
token, taking it, making and linking nodes, failing, repeating, and the guard around a production.

Comments are no part of the grammar. Whenever a parser looks at the next token, the comments before it become nodes: of the
innermost open block or, before any block is open, of the first block that will be.
-/

namespace Courier

/-- A production that was entered: the chain of constructs from its own outwards, and where the next token stood. -/
structure Entry where
  constructs : List Construct
  place : Location
  deriving DecidableEq, Repr, Inhabited

/-- What a parser works on. The chain of constructs and the open blocks are held innermost first. -/
structure ParserState where
  stream : Stream
  tree : Tree
  constructs : List Construct
  /-- The open blocks, which take the comments met. -/
  blocks : List NodeId
  /-- The comments met before any block was open. -/
  pendingComments : List NodeId
  /-- The flags read for the next node. -/
  pendingFlags : Option (List String)
  /-- Whether a node that had a parent was attached to another. The parser asserts that this never happens. -/
  reattached : Bool
  /-- The productions entered so far, the latest first. -/
  entered : List Entry
  /-- Whether failures are to tell the constructs they happen in. -/
  traces : Bool
  deriving DecidableEq, Repr, Inhabited

/-- What a production remembers of its beginning: the chain of constructs, the open blocks and the number of nodes. -/
structure Checkpoint where
  constructs : List Construct
  blocks : List NodeId
  size : Nat
  deriving DecidableEq, Repr, Inhabited

/-- A parser. A failure keeps the state it left. -/
abbrev Parser : Type → Type :=
  EStateM ParseError ParserState

namespace ParserState

/-- The state at the beginning of a stream. -/
def initial (s : Stream) (trace : Bool) : ParserState :=
  ⟨s.reset, .empty s.file, [], [], [], none, false, [], trace⟩

/-- Where the next token that is no comment starts, or the end of the input. -/
def here (s : ParserState) : Location :=
  match s.stream.significant? with
  | some t => t.location
  | none => s.stream.endLocation

/-- The chain of constructs as a failure tells it: outermost first, if it is to be told. -/
def chain (s : ParserState) : List Construct :=
  if s.traces then s.constructs.reverse else []

/-- The failure with a fault at a place. -/
def errorAt (s : ParserState) (location : Location) (fault : ParseFault) : ParseError :=
  ⟨s.stream.file, fault, location, s.stream.lineAt location.offset, none, s.chain⟩

/-- Makes a node of a comment and links it, or keeps it for the first block. -/
def placeComment (s : ParserState) (t : Token) : ParserState :=
  let (id, tree) := s.tree.alloc (.comment t.text) t.location
  match s.blocks with
  | block :: _ => { s with tree := tree.attachComment block id }
  | [] => { s with tree := tree, pendingComments := s.pendingComments ++ [id] }

/-- Takes the comments at the front of the tokens ahead. -/
def takeComments (s : ParserState) : List Token → ParserState
  | [] => s
  | t :: rest =>
    if t.isComment then
      match s.stream.advance with
      | .ok stream => takeComments ({ s with stream := stream }.placeComment t) rest
      | .error _ => s
    else s

/-- Makes a node. It takes the flags that are pending; a block is open from now on and takes the comments that are pending. -/
def openNode (s : ParserState) (payload : Payload) (location : Location) : NodeId × ParserState :=
  let (id, tree) := s.tree.alloc payload location
  let tree :=
    match s.pendingFlags with
    | some flags => tree.setFlags id flags
    | none => tree
  if payload.kind.isContainer then
    (id, { s with
      tree := s.pendingComments.foldl (fun t c => t.attachComment id c) tree
      blocks := id :: s.blocks
      pendingComments := []
      pendingFlags := none })
  else (id, { s with tree := tree, pendingFlags := none })

/-- What is remembered at the beginning of a production. -/
def checkpoint (s : ParserState) : Checkpoint :=
  ⟨s.constructs, s.blocks, s.tree.size⟩

/-- The state inside a production, which is recorded as entered. -/
def enter (s : ParserState) (construct : Construct) : ParserState :=
  { s with
    constructs := construct :: s.constructs
    entered := ⟨construct :: s.constructs, s.here⟩ :: s.entered }

/-- The state after a production that succeeded: the chain and the open blocks are those of its beginning. -/
def leave (s : ParserState) (before : Checkpoint) : ParserState :=
  { s with constructs := before.constructs, blocks := before.blocks }

/-- The state after a production that failed, and the kind of the first node destroyed: every node made since its beginning is
destroyed. -/
def abandon (s : ParserState) (before : Checkpoint) : Option Kind × ParserState :=
  let (first, tree) := s.tree.discardFrom before.size
  (first, { s with
    tree := tree
    constructs := before.constructs
    blocks := before.blocks
    pendingComments := s.pendingComments.filter (· < before.size)
    pendingFlags := none })

end ParserState

namespace Parser

/-! ## Failing -/

/-- Fails at a place. -/
def failAt {α : Type} (location : Location) (fault : ParseFault) : Parser α :=
  fun s => .error (s.errorAt location fault) s

/-- Fails at the next token. -/
def fail {α : Type} (fault : ParseFault) : Parser α :=
  fun s => .error (s.errorAt s.here fault) s

/-- Fails at the next token, with its text. -/
def failFound {α : Type} (fault : Option String → ParseFault) : Parser α :=
  fun s => .error (s.errorAt s.here (fault (s.stream.significant?.map Token.text))) s

/-! ## Tokens -/

/-- A move of the stream's cursor. -/
def move (f : Stream → Except CursorError Stream) : Parser Unit := fun s =>
  match f s.stream with
  | .ok stream => .ok () { s with stream := stream }
  | .error cause => .error (s.errorAt s.here (.cursor cause)) s

/-- The next token, once the comments before it are taken. -/
def current? : Parser (Option Token) := fun s =>
  let s := s.takeComments s.stream.ahead
  .ok s.stream.current? s

/-- The kind of the next token and the keyword it is, if any. -/
def look : Parser (Option TokenKind × Option Keyword) := do
  let next ← current?
  return (next.map Token.kind, next.bind Token.keyword?)

/-- Whether the next token has a kind. -/
def atKind (kind : TokenKind) : Parser Bool := do
  let (next, _) ← look
  return next == some kind

/-- Whether the next token is a keyword. -/
def atKeyword (word : Keyword) : Parser Bool := do
  let (_, next) ← look
  return next == some word

/-- Whether a block goes on: its end and the end of the input stop it. -/
def inBlock : Parser Bool := do
  let (next, _) ← look
  return next != some .rightBrace && next.isSome

/-- Where the next token starts, or the end of the input. -/
def location : Parser Location := do
  let next ← current?
  match next with
  | some t => return t.location
  | none => return (← get).stream.endLocation

/-- Takes the next token. -/
def take : Parser Token := do
  let next ← current?
  match next with
  | some t =>
    move Stream.advance
    return t
  | none => fail .endOfInput

/-- Takes the next token, which must have a kind. -/
def expect (kind : TokenKind) (what : String) : Parser Token := do
  if ← atKind kind then take else failFound (.expected what)

/-- Takes the next token, which must be a keyword. -/
def expectKeyword (word : Keyword) : Parser Token := do
  if ← atKeyword word then take else failFound (.expected s!"'{word.text}'")

/-- Takes the next token, which must be an identifier, and gives its text. -/
def identifier (what : String) : Parser String := do
  return (← expect .identifier what).text

/-! ## Nodes -/

/-- Makes a node. -/
def openNode (payload : Payload) (location : Location) : Parser NodeId := fun s =>
  let (id, s) := s.openNode payload location
  .ok id s

/-- Makes a node the last child of another. -/
def attach (parent child : NodeId) : Parser Unit :=
  modify (fun s => { s with
    tree := s.tree.attach parent child
    reattached := s.reattached || s.tree.hasParent child })

/-- Keeps flags for the next node. -/
def keepFlags (flags : List String) : Parser Unit :=
  modify (fun s => { s with pendingFlags := some flags })

/-- Where the node of an id starts. -/
def nodeLocation (id : NodeId) : Parser Location := do
  match (← get).tree.node? id with
  | some n => return n.location
  | none => location

/-! ## Repetition and the guard -/

/-- Repeats a step as long as `more` holds, at most once for each of the given tokens and once again. -/
def repeatFor {α : Type} (more : Parser Bool) (step : α → Parser α) : List Token → α → Parser α
  | [], a => do if ← more then step a else return a
  | _ :: rest, a => do if ← more then repeatFor more step rest (← step a) else return a

/-- Repeats a step as long as `more` holds. Every step of the grammar takes a token, so the tokens ahead bound the rounds. -/
def repeatWhile {α : Type} (more : Parser Bool) (step : α → Parser α) (a : α) : Parser α := do
  repeatFor more step (← get).stream.ahead a

/-- Runs a production's body as part of its construct. A success leaves the chain of constructs and the open blocks as they
were; a failure also destroys every node made since. -/
def guarded {α : Type} (construct : Construct) (body : Parser α) : Parser α := fun s =>
  let before := s.checkpoint
  match body (s.enter construct) with
  | .ok a t =>
    if t.constructs = construct :: before.constructs then .ok a (t.leave before)
    else
      let (first, u) := t.abandon before
      .error ((t.errorAt t.here (.unbalanced construct)).discarding first) u
  | .error e t =>
    let (first, u) := t.abandon before
    .error (e.discarding first) u

end Parser

end Courier
