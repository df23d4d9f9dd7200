import Courier.Grammar.Declaration
import Courier.Grammar.Expression
import Courier.Grammar.Statement
import Courier.Grammar.Unit
import Courier.Grammar.Value

/-!
# Parsing a stream

The grammar as a whole: every rule's body, and the recursion that ties them. Productions may be nested up to a limit, their
room; a rule that is entered without room fails, before anything of it is done.
-/

namespace Courier

/-- The body of a rule's production. -/
def Rule.body {α : Type} (inner : Inner) : Rule α → Parser α
  | unit => Grammar.unit inner
  | codeFragment => Grammar.codeFragment inner
  | flags => Grammar.flags
  | moduleBlock => Grammar.moduleBlock inner
  | namespaceBlock => Grammar.namespaceBlock inner
  | statements => Grammar.statements inner
  | statement => Grammar.statement inner
  | classBlock => Grammar.classBlock inner
  | scopeBlock => Grammar.scopeBlock inner
  | recordBlock => Grammar.recordBlock inner
  | messageBlock => Grammar.messageBlock inner
  | messageDeclaration => Grammar.messageDeclaration inner
  | param => Grammar.param inner
  | returnType => Grammar.returnType inner
  | typeDeclaration => Grammar.typeDeclaration
  | variableDefinition => Grammar.variableDefinition inner
  | assignment => Grammar.assignment inner
  | expression => Grammar.expression inner
  | returnExpression => Grammar.returnExpression inner
  | groupedExpression => Grammar.groupedExpression inner
  | sendMessage receiver => Grammar.sendMessage inner receiver
  | message => Grammar.message inner
  | argument => Grammar.argument inner
  | literal => Grammar.literal
  | arrayLiteral => Grammar.arrayLiteral inner
  | inst => Grammar.inst

/-- The parser of a rule inside which at most `room` productions may be nested, itself among them. -/
def Rule.parse : Nat → {α : Type} → Rule α → Parser α
  | 0, _, _ => Parser.fail .nestedTooDeeply
  | room + 1, _, rule => Parser.guarded rule.construct (rule.body ⟨fun inside => parse room inside⟩)

/-- The most productions that may be nested in a parse. -/
def maxNesting : Nat :=
  256

/-- The tree of a unit that was parsed: its root takes the comments behind the unit. -/
def ParserState.finish (s : ParserState) (root : NodeId) : Tree :=
  (s.pendingComments.foldl (fun t c => t.attachComment root c) s.tree).setRoot root

/-- How the program was built. -/
inductive Build where
  | debug | release
  deriving DecidableEq, Repr, Inhabited

/-- Whether parse failures tell the constructs they happened in where nothing is said of it: those of a debug build do. -/
def tracesByDefault (build : Build := .debug) : Bool :=
  build = .debug

namespace Stream

/-- Parses a stream from its beginning, whatever its cursor and its mark are, with at most `room` nested productions. Also gives the
stream as the parser left it. -/
def parseWithin (room : Nat) (s : Stream) (trace : Bool) : Except ParseError Tree × Stream :=
  match Rule.unit.parse room (.initial s trace) with
  | .ok root t => (.ok (t.finish root), t.stream)
  | .error e t => (.error e, t.stream)

/-- Parses a stream from its beginning. Without `trace`, a failure does not tell the constructs it happened in. -/
def parse (s : Stream) (trace : Bool) : Except ParseError Tree × Stream :=
  s.parseWithin maxNesting trace

end Stream

end Courier
