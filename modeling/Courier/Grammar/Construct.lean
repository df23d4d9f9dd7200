/-!
# Constructs

The constructs a parse may be inside of, as a reader of a parse error knows them. The constructs a parse is inside of form a
chain from the unit to the innermost one.
-/

namespace Courier

/-- What is being parsed: one for each production of the grammar. -/
inductive Construct where
  | unit | codeFragment | flags | moduleBlock | namespaceBlock | statements | statement
  | classBlock | scopeBlock | recordBlock | messageBlock | messageDeclaration | param | returnType
  | typeDeclaration | variableDefinition | assignment
  | expression | returnExpression | groupedExpression | sendMessage | message | argument
  | literal | arrayLiteral | inst
  deriving DecidableEq, Repr, Inhabited

/-- The name of a construct. -/
def Construct.name : Construct → String
  | unit => "unit"
  | codeFragment => "code fragment"
  | flags => "flags"
  | moduleBlock => "module"
  | namespaceBlock => "namespace"
  | statements => "statements"
  | statement => "statement"
  | classBlock => "class"
  | scopeBlock => "scope"
  | recordBlock => "record"
  | messageBlock => "message block"
  | messageDeclaration => "message declaration"
  | param => "parameter"
  | returnType => "return type"
  | typeDeclaration => "type declaration"
  | variableDefinition => "variable definition"
  | assignment => "assignment"
  | expression => "expression"
  | returnExpression => "return expression"
  | groupedExpression => "grouped expression"
  | sendMessage => "message send"
  | message => "message"
  | argument => "argument"
  | literal => "literal"
  | arrayLiteral => "array literal"
  | inst => "instance"

end Courier
