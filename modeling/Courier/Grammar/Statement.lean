import Courier.Grammar.Lookahead
import Courier.Grammar.Value

/-!
# Statements

A statement is a class, a record, or a variable definition, an assignment or an expression with a semicolon behind it. Those that
start with an identifier are told apart by lookahead.
-/

namespace Courier.Grammar

open Courier.Parser

/-- A variable definition: `IDENT ':' type`. -/
def variableDefinition (inner : Inner) : Parser NodeId :=
  typedNode inner "variable name" (fun name typeName => .variable name (some typeName))

/-- Whether a name with a type is next. -/
def atTypedName : Parser Bool :=
  lookAhead [.identifier, .colon]

/-- An assignment: `(variableDefinition | inst) ':=' argument`. The value is the one parameter of a message. -/
def assignment (inner : Inner) : Parser NodeId := do
  let start ← location
  let node ← openNode .assignment start
  let target ← if ← atTypedName then inner.parse .variableDefinition else inner.parse .inst
  let operator ← expect .assignment "':='"
  let message ← openNode (.message ":=" none) operator.location
  let value ← inner.parse .argument
  attach message value
  attach node target
  attach node message
  return node

/-- A statement that starts with an identifier, without its semicolon. -/
def namedStatement (inner : Inner) : Parser NodeId := do
  if ← looksLikeVariableDefinition then inner.parse .variableDefinition
  else if ← atTypedName then inner.parse .assignment
  else if ← looksLikePlainAssignment then inner.parse .assignment
  else inner.parse .expression

/-- A statement that ends in a semicolon. -/
def closedStatement (inner : Inner) : Parser NodeId := do
  let node ← if ← atKind .identifier then namedStatement inner else inner.parse .expression
  let _ ← expect .endOfStatement "';'"
  return node

/-- A statement. -/
def statement (inner : Inner) : Parser NodeId := do
  match ← look with
  | (_, some .classWord) => inner.parse .classBlock
  | (_, some .record) => inner.parse .recordBlock
  | _ => closedStatement inner

/-- The statements up to the end of the block they stand in, which may be none. -/
def statements (inner : Inner) : Parser NodeId := do
  let start ← location
  let block ← openNode .statementsBlock start
  repeatWhile inBlock (fun _ => do attach block (← inner.parse .statement)) ()
  return block

end Courier.Grammar
