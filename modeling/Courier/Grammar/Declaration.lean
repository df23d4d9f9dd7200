import Courier.Grammar.Lookahead
import Courier.Grammar.Value

/-!
# Declarations

Classes with their scopes and message blocks, records, and the declarations of messages: parameters and return types. A closure
is a message block whose declaration has no name.
-/

namespace Courier.Grammar

open Courier.Parser

/-- The superclass of a class or record: `('inherits' type)?`. -/
def superclass (inner : Inner) : Parser (Option String) := do
  if ← atKeyword .inherits then
    let _ ← take
    return some (← inner.parse .typeDeclaration)
  else return none

/-- The member variables of a block: `(variableDefinition ';')*`. -/
def memberVariables (inner : Inner) (owner : NodeId) : Parser Unit :=
  repeatWhile inBlock (fun _ => do
    let member ← inner.parse .variableDefinition
    let _ ← expect .endOfStatement "';'"
    attach owner member) ()

/-- The visibility that opens a scope. -/
def visibility : Parser Visibility := do
  match ← look with
  | (_, some .publicWord) => return .publicly
  | (_, some .privateWord) => return .privately
  | _ => failFound (.expected "'public' or 'private'")

/-- A scope: `('public' | 'private') '{' memberVariables '}'`. -/
def scopeBlock (inner : Inner) : Parser NodeId := do
  let start ← location
  let seen ← visibility
  let _ ← take
  let scope ← openNode (.scope seen) start
  let _ ← expect .leftBrace "'\x7b'"
  memberVariables inner scope
  let _ ← expect .rightBrace "'\x7d'"
  return scope

/-- A record: `'record' IDENT superclass '{' memberVariables '}'`. -/
def recordBlock (inner : Inner) : Parser NodeId := do
  let start ← location
  let _ ← expectKeyword .record
  let name ← identifier "record name"
  let parent ← superclass inner
  let record ← openNode (.recordBlock name parent) start
  let _ ← expect .leftBrace "'\x7b'"
  memberVariables inner record
  let _ ← expect .rightBrace "'\x7d'"
  return record

/-- A member of a class: a scope, or a message block with flags before it. -/
def classMember (inner : Inner) : Parser NodeId := do
  match ← look with
  | (_, some .publicWord) | (_, some .privateWord) => inner.parse .scopeBlock
  | (some .atSign, _) =>
    inner.parse .flags
    inner.parse .messageBlock
  | (_, some .msg) => inner.parse .messageBlock
  | _ => failFound (.expected "'public', 'private' or 'msg' in class body")

/-- A class: `'class' IDENT superclass '{' classMember* '}'`. -/
def classBlock (inner : Inner) : Parser NodeId := do
  let start ← location
  let _ ← expectKeyword .classWord
  let name ← identifier "class name"
  let parent ← superclass inner
  let node ← openNode (.classBlock name parent) start
  let _ ← expect .leftBrace "'\x7b'"
  repeatWhile inBlock (fun _ => do attach node (← classMember inner)) ()
  let _ ← expect .rightBrace "'\x7d'"
  return node

/-- A message block: `messageDeclaration '{' statements '}'`. -/
def messageBlock (inner : Inner) : Parser NodeId := do
  let start ← location
  let block ← openNode .messageBlock start
  attach block (← inner.parse .messageDeclaration)
  let _ ← expect .leftBrace "'\x7b'"
  attach block (← inner.parse .statements)
  let _ ← expect .rightBrace "'\x7d'"
  return block

/-- A parameter: `IDENT ':' type`. -/
def param (inner : Inner) : Parser NodeId :=
  typedNode inner "parameter name" .param

/-- The parameters of a declaration: `param (',' param)*`. -/
def params (inner : Inner) (declaration : NodeId) : Parser Unit := do
  attach declaration (← inner.parse .param)
  repeatWhile (atKind .comma) (fun _ => do
    let _ ← take
    attach declaration (← inner.parse .param)) ()

/-- The parameters of a declaration in either form, behind a colon or between parentheses, or none. -/
def paramList (inner : Inner) (declaration : NodeId) : Parser Unit := do
  match ← look with
  | (some .colon, _) =>
    let _ ← take
    params inner declaration
  | (some .leftParen, _) =>
    let _ ← take
    if !(← atKind .rightParen) then params inner declaration
    let _ ← expect .rightParen "')' after parameters"
  | _ => return ()

/-- A declaration: `'msg' IDENT? paramList returnType?`. -/
def messageDeclaration (inner : Inner) : Parser NodeId := do
  let start ← location
  let _ ← expectKeyword .msg
  let name ← if ← atKind .identifier then some <$> identifier "message name" else pure none
  let declaration ← openNode (.messageDeclaration name) start
  paramList inner declaration
  if ← atKind .leftBracket then attach declaration (← inner.parse .returnType)
  return declaration

/-- A field of a named return type: `IDENT ':' type`. -/
def returnField (inner : Inner) : Parser (String × String) :=
  nameWithType inner "field name"

/-- Items with commas between them: `item (',' item)*`. -/
def separated {α : Type} (item : Parser α) : Parser (List α) := do
  let first ← item
  repeatWhile (atKind .comma) (fun items => do
    let _ ← take
    return items ++ [← item]) [first]

/-- The payload of a return type: named fields if the first name has a colon behind it, types otherwise. -/
def returnPayload (inner : Inner) : Parser Payload := do
  if ← lookAhead [.identifier, .colon] then .namedTuple <$> separated (returnField inner)
  else .tuple <$> separated (inner.parse .typeDeclaration)

/-- A return type: `'[' type (',' type)* ']'` or `'[' returnField (',' returnField)* ']'`. -/
def returnType (inner : Inner) : Parser NodeId := do
  let start ← location
  let _ ← expect .leftBracket "'['"
  let payload ← returnPayload inner
  if ← atKind .rightBracket then
    let _ ← take
    openNode payload start
  else failFound .unclosedReturnType

end Courier.Grammar
