import Courier.Grammar.State

/-!
# The rules of the grammar

Each rule stands for a production and yields a value of its own type: most yield the node they made, a type yields its name, and
flags are kept for the next node. A production's body is written against the parsers of the rules inside it (`Inner`), so that
the recursion of the grammar is tied in one place.
-/

namespace Courier

/-- The rules, by the type of what they yield. -/
inductive Rule : Type → Type where
  | unit : Rule NodeId
  | codeFragment : Rule NodeId
  | flags : Rule Unit
  | moduleBlock : Rule NodeId
  | namespaceBlock : Rule NodeId
  | statements : Rule NodeId
  | statement : Rule NodeId
  | classBlock : Rule NodeId
  | scopeBlock : Rule NodeId
  | recordBlock : Rule NodeId
  | messageBlock : Rule NodeId
  | messageDeclaration : Rule NodeId
  | param : Rule NodeId
  | returnType : Rule NodeId
  | typeDeclaration : Rule String
  | variableDefinition : Rule NodeId
  | assignment : Rule NodeId
  | expression : Rule NodeId
  | returnExpression : Rule NodeId
  | groupedExpression : Rule NodeId
  /-- A message sent to a receiver that was parsed before. -/
  | sendMessage (receiver : NodeId) : Rule NodeId
  | message : Rule NodeId
  | argument : Rule NodeId
  | literal : Rule NodeId
  | arrayLiteral : Rule NodeId
  | inst : Rule NodeId

/-- The construct of a rule. -/
def Rule.construct {α : Type} : Rule α → Construct
  | unit => .unit
  | codeFragment => .codeFragment
  | flags => .flags
  | moduleBlock => .moduleBlock
  | namespaceBlock => .namespaceBlock
  | statements => .statements
  | statement => .statement
  | classBlock => .classBlock
  | scopeBlock => .scopeBlock
  | recordBlock => .recordBlock
  | messageBlock => .messageBlock
  | messageDeclaration => .messageDeclaration
  | param => .param
  | returnType => .returnType
  | typeDeclaration => .typeDeclaration
  | variableDefinition => .variableDefinition
  | assignment => .assignment
  | expression => .expression
  | returnExpression => .returnExpression
  | groupedExpression => .groupedExpression
  | sendMessage _ => .sendMessage
  | message => .message
  | argument => .argument
  | literal => .literal
  | arrayLiteral => .arrayLiteral
  | inst => .inst

/-- The parsers of the rules inside a production. -/
structure Inner where
  parse : {α : Type} → Rule α → Parser α

end Courier
