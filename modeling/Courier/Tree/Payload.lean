/-!
# What a node stands for

The kinds of node, and the payload of a node: the names, texts and values it carries besides its children. A payload has one
kind and a one-line description.
-/

namespace Courier

/-- A place in a tree's array of nodes. -/
abbrev NodeId := Nat

/-- The kind of a node. -/
inductive Kind where
  | comment
  | integerLiteral | decimalLiteral | hexLiteral | binaryLiteral | booleanLiteral | stringLiteral
  | arrayLiteral | nil | variable | inst | tuple | namedTuple
  | groupedExpression | message | sendMessage | assignment | returnExpression
  | param | messageDeclaration | messageBlock | scope | classBlock | recordBlock
  | statementsBlock | namespaceBlock | codeFragmentBlock | moduleBlock
  deriving DecidableEq, Repr, Inhabited

namespace Kind

/-- Every kind. -/
def all : List Kind :=
  [comment, integerLiteral, decimalLiteral, hexLiteral, binaryLiteral, booleanLiteral, stringLiteral, arrayLiteral, nil,
    «variable», inst, tuple, namedTuple, groupedExpression, message, sendMessage, assignment, returnExpression, param,
    messageDeclaration, messageBlock, scope, classBlock, recordBlock, statementsBlock, namespaceBlock, codeFragmentBlock,
    moduleBlock]

/-- The name a kind is shown by. -/
def name : Kind → String
  | comment => "Comment"
  | integerLiteral => "IntegerLiteral"
  | decimalLiteral => "DecimalLiteral"
  | hexLiteral => "HexLiteral"
  | binaryLiteral => "BinaryLiteral"
  | booleanLiteral => "BooleanLiteral"
  | stringLiteral => "StringLiteral"
  | arrayLiteral => "ArrayLiteral"
  | nil => "Nil"
  | «variable» => "Variable"
  | inst => "Instance"
  | tuple => "Tuple"
  | namedTuple => "NamedTuple"
  | groupedExpression => "GroupedExpression"
  | message => "Message"
  | sendMessage => "SendMessage"
  | assignment => "Assignment"
  | returnExpression => "ReturnExpression"
  | param => "Param"
  | messageDeclaration => "MessageDeclaration"
  | messageBlock => "MessageBlock"
  | scope => "Scope"
  | classBlock => "ClassBlock"
  | recordBlock => "RecordBlock"
  | statementsBlock => "StatementsBlock"
  | namespaceBlock => "NamespaceBlock"
  | codeFragmentBlock => "CodeFragmentBlock"
  | moduleBlock => "ModuleBlock"

/-- The kind of a name. -/
def ofName? (s : String) : Option Kind :=
  all.find? (fun k => k.name == s)

/-- The blocks: kinds that are left again after their children when a tree is walked, and that take the comments met inside
them. -/
def isContainer : Kind → Bool
  | messageBlock | scope | classBlock | recordBlock | statementsBlock | namespaceBlock | codeFragmentBlock
  | moduleBlock => true
  | _ => false

end Kind

/-- The visibility of a scope. -/
inductive Visibility where
  | publicly | privately
  deriving DecidableEq, Repr, Inhabited

/-- The word of a visibility. -/
def Visibility.word : Visibility → String
  | publicly => "public"
  | privately => "private"

/-- The literals whose payload is their text. -/
inductive LiteralKind where
  | integer | decimal | hex | binary | boolean | string
  deriving DecidableEq, Repr, Inhabited

/-- The kind of node a literal is. -/
def LiteralKind.kind : LiteralKind → Kind
  | integer => .integerLiteral
  | decimal => .decimalLiteral
  | hex => .hexLiteral
  | binary => .binaryLiteral
  | boolean => .booleanLiteral
  | string => .stringLiteral

/-- What a node stands for, without its children. -/
inductive Payload where
  | comment (text : String)
  | literal (kind : LiteralKind) (value : String)
  /-- The children are the elements. -/
  | arrayLiteral
  | nil
  | variable (name : String) (typeName : Option String)
  /-- A receiver or operand; a dotted chain of names is one instance. -/
  | inst (name : String) (typeName : Option String)
  | tuple (types : List String)
  | namedTuple (fields : List (String × String))
  /-- The child is the wrapped expression. -/
  | groupedExpression
  /-- The children are the parameters; the return value is filled in by later passes. -/
  | message (name : String) (returnValue : Option NodeId)
  /-- The children are the receiver and the message. -/
  | sendMessage
  /-- The children are the target and a message that holds the value. -/
  | assignment
  /-- The child is the returned value. -/
  | returnExpression
  | param (name typeName : String)
  /-- A closure has no name. The children are the parameters and, if it is declared, the return type. -/
  | messageDeclaration (name : Option String)
  /-- The children are the declaration and the statements. -/
  | messageBlock
  /-- The children are the member variables. -/
  | scope (visibility : Visibility)
  /-- The children are the scopes and message blocks. -/
  | classBlock (name : String) (superclass : Option String)
  /-- The children are the member variables. -/
  | recordBlock (name : String) (superclass : Option String)
  | statementsBlock
  /-- The children are nested namespaces, or one block of statements. -/
  | namespaceBlock (name : String)
  /-- The children are namespaces, or one block of statements. -/
  | codeFragmentBlock
  /-- The child is the code fragment. -/
  | moduleBlock (name : String) (version : Option String)
  deriving DecidableEq, Repr, Inhabited

namespace Payload

/-- The kind of a payload. -/
def kind : Payload → Kind
  | comment _ => .comment
  | literal k _ => k.kind
  | arrayLiteral => .arrayLiteral
  | nil => .nil
  | «variable» _ _ => .variable
  | inst _ _ => .inst
  | tuple _ => .tuple
  | namedTuple _ => .namedTuple
  | groupedExpression => .groupedExpression
  | message _ _ => .message
  | sendMessage => .sendMessage
  | assignment => .assignment
  | returnExpression => .returnExpression
  | param _ _ => .param
  | messageDeclaration _ => .messageDeclaration
  | messageBlock => .messageBlock
  | scope _ => .scope
  | classBlock _ _ => .classBlock
  | recordBlock _ _ => .recordBlock
  | statementsBlock => .statementsBlock
  | namespaceBlock _ => .namespaceBlock
  | codeFragmentBlock => .codeFragmentBlock
  | moduleBlock _ _ => .moduleBlock

/-- The return value of a message; no other payload has one. -/
def returnValue : Payload → Option NodeId
  | message _ r => r
  | _ => none

/-- The payload without a return value that fails a test. -/
def filterReturnValue (p : NodeId → Bool) : Payload → Payload
  | message name r => .message name (r.filter p)
  | other => other

/-- A text behind a separator, or nothing. -/
def suffixed (separator : String) : Option String → String
  | some s => separator ++ s
  | none => ""

/-- What follows the kind's name in the description of a payload. -/
def detail : Payload → String
  | comment text => " " ++ text
  | literal .string value => " \"" ++ value ++ "\""
  | literal _ value => " " ++ value
  | «variable» name typeName | inst name typeName => " " ++ name ++ suffixed " : " typeName
  | tuple types => " [" ++ String.intercalate ", " types ++ "]"
  | namedTuple fields => " [" ++ String.intercalate ", " (fields.map (fun (n, t) => n ++ ":" ++ t)) ++ "]"
  | message name _ => " " ++ name
  | param name typeName => " " ++ name ++ " : " ++ typeName
  | messageDeclaration name => " " ++ name.getD "closure"
  | scope visibility => " " ++ visibility.word
  | classBlock name superclass | recordBlock name superclass => " " ++ name ++ suffixed " inherits " superclass
  | namespaceBlock name => " " ++ name
  | moduleBlock name version => " " ++ name ++ suffixed " " version
  | arrayLiteral | nil | groupedExpression | sendMessage | assignment | returnExpression | messageBlock | statementsBlock
  | codeFragmentBlock => ""

/-- The description of a payload: its kind's name and its detail. -/
def describe (p : Payload) : String :=
  p.kind.name ++ p.detail

end Payload

end Courier
