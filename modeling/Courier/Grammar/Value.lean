import Courier.Grammar.Rule

/-!
# Names, types and literals

The productions at the leaves of the grammar: dotted names as types and as instances, literals, and arrays of them.
-/

namespace Courier.Grammar

open Courier.Parser

/-- The rest of a dotted name, behind what was read of it: `('.' IDENT)*`. -/
def dottedRest (what name : String) : Parser String :=
  repeatWhile (atKind .dot) (fun name => do
    let _ ← take
    return name ++ "." ++ (← identifier what)) name

/-- A type: `IDENT ('.' IDENT)*`. -/
def typeDeclaration : Parser String := do
  dottedRest "type name after '.'" (← identifier "type name")

/-- A name with its type: `IDENT ':' type`. What the name is of is told in the errors. -/
def nameWithType (inner : Inner) (what : String) : Parser (String × String) := do
  let name ← identifier what
  let _ ← expect .colon ("':' after " ++ what)
  return (name, ← inner.parse .typeDeclaration)

/-- A node that is a name with its type. -/
def typedNode (inner : Inner) (what : String) (payload : String → String → Payload) : Parser NodeId := do
  let start ← location
  let named ← nameWithType inner what
  openNode (payload named.1 named.2) start

/-- The first name of an instance: an identifier or one of the receivers that are keywords. -/
def instanceHead : Parser String := do
  match ← look with
  | (some .identifier, _) | (_, some .self) | (_, some .super) => return (← take).text
  | _ => failFound (.expected "a name")

/-- An instance: `(IDENT | 'self' | 'super') ('.' IDENT)*`. -/
def inst : Parser NodeId := do
  let start ← location
  let name ← dottedRest "name after '.'" (← instanceHead)
  openNode (.inst name none) start

/-- A string's text without its quotes. -/
def unquote (text : String) : String :=
  match text.toList with
  | '"' :: rest => if rest.getLast? = some '"' then String.ofList rest.dropLast else text
  | _ => text

/-- The payload of a literal token. A version is no value, and a boolean is written in lower case. -/
def literalPayload? (t : Token) : Option Payload :=
  match t.kind with
  | .integerLiteral => some (.literal .integer t.text)
  | .decimalLiteral => some (.literal .decimal t.text)
  | .hexadecimalLiteral => some (.literal .hex t.text)
  | .binaryLiteral => some (.literal .binary t.text)
  | .booleanLiteral => some (.literal .boolean (String.ofList (t.text.toList.map Char.toLower)))
  | .stringLiteral => some (.literal .string (unquote t.text))
  | .keyword => if t.keyword? = some .nil then some .nil else none
  | _ => none

/-- A literal: one token. -/
def literal : Parser NodeId := do
  let t ← take
  match literalPayload? t with
  | some payload => openNode payload t.location
  | none => failAt t.location (.notAValue t.text)

/-- An element of an array: a literal or an instance. -/
def element (inner : Inner) : Parser NodeId := do
  match ← look with
  | (some .identifier, _) => inner.parse .inst
  | (_, some .nil) => inner.parse .literal
  | (some kind, _) =>
    if kind.isLiteral then inner.parse .literal else failFound (.expected "literal or name in array literal")
  | (none, _) => failFound (.expected "literal or name in array literal")

/-- The elements of an array, which are its children: `element (',' element)*`. -/
def elements (inner : Inner) (array : NodeId) : Parser Unit := do
  attach array (← element inner)
  repeatWhile (atKind .comma) (fun _ => do
    let _ ← take
    attach array (← element inner)) ()

/-- An array: `'[' elements? ']'`. One that is not closed is blamed on its bracket. -/
def arrayLiteral (inner : Inner) : Parser NodeId := do
  let start ← location
  let _ ← expect .leftBracket "'['"
  let array ← openNode .arrayLiteral start
  if !(← atKind .rightBracket) then elements inner array
  if ← atKind .rightBracket then
    let _ ← take
    return array
  else failAt start .unterminatedArray

end Courier.Grammar
