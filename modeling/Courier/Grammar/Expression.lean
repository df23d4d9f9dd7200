import Courier.Grammar.Rule

/-!
# Expressions

An expression is a value, or a value and a message sent to it. The parameters of a message are expressions themselves, so
operators nest to the right and have no precedence.
-/

namespace Courier.Grammar

open Courier.Parser

/-- What a message can be sent to: a grouped expression, an array, a literal, a closure or an instance. -/
def primary (inner : Inner) : Parser NodeId := do
  match ← look with
  | (some .leftParen, _) => inner.parse .groupedExpression
  | (some .leftBracket, _) => inner.parse .arrayLiteral
  | (some .identifier, _) => inner.parse .inst
  | (_, some .nil) => inner.parse .literal
  | (_, some .msg) => inner.parse .messageBlock
  | (_, some .self) | (_, some .super) => inner.parse .inst
  | (some kind, _) => if kind.isLiteral then inner.parse .literal else failFound (.expected "expression")
  | (none, _) => failFound (.expected "expression")

/-- Whether a message is next. -/
def startsMessage : Parser Bool := do
  match ← look with
  | (some kind, _) => return kind == .identifier || kind.isMessageOperator
  | (none, _) => return false

/-- An expression: `returnExpression | primary message?`. -/
def expression (inner : Inner) : Parser NodeId := do
  if ← atKeyword .returnWord then inner.parse .returnExpression
  else
    let value ← primary inner
    if ← startsMessage then inner.parse (.sendMessage value) else return value

/-- A parameter of a message or an assigned value: any expression but a return. -/
def argument (inner : Inner) : Parser NodeId := do
  if ← atKeyword .returnWord then fail .returnAsValue else inner.parse .expression

/-- The value that a return gives back; a bare return gives nil. -/
def returned (inner : Inner) : Parser NodeId := do
  if ← atKind .endOfStatement then openNode .nil (← location) else inner.parse .argument

/-- A return: `'return' argument?`. -/
def returnExpression (inner : Inner) : Parser NodeId := do
  let start ← location
  let _ ← expectKeyword .returnWord
  let node ← openNode .returnExpression start
  attach node (← returned inner)
  return node

/-- An expression in parentheses: `'(' expression ')'`. -/
def groupedExpression (inner : Inner) : Parser NodeId := do
  let start ← location
  let _ ← expect .leftParen "'('"
  let group ← openNode .groupedExpression start
  attach group (← inner.parse .expression)
  let _ ← expect .rightParen "')'"
  return group

/-- A message sent to a receiver. The send starts where its receiver does. -/
def sendMessage (inner : Inner) (receiver : NodeId) : Parser NodeId := do
  let send ← openNode .sendMessage (← nodeLocation receiver)
  let message ← inner.parse .message
  attach send receiver
  attach send message
  return send

/-- A message: `IDENT (':' argument)*` or an operator and one argument. -/
def message (inner : Inner) : Parser NodeId := do
  let start ← location
  match ← look with
  | (some kind, _) =>
    if kind = .identifier then
      let node ← openNode (.message (← identifier "message name") none) start
      repeatWhile (atKind .colon) (fun _ => do
        let _ ← take
        attach node (← inner.parse .argument)) ()
      return node
    else if kind.isMessageOperator then
      let operator ← take
      let node ← openNode (.message operator.text none) start
      attach node (← inner.parse .argument)
      return node
    else failFound (.expected "message")
  | (none, _) => failFound (.expected "message")

end Courier.Grammar
