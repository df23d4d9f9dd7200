import Courier.Tree.Basic

/-!
# The shapes of trees

What may stand below what: `Payload.Admits` tells by the payload of a node what its children may stand for, in their order, and a tree
is well shaped if every node has such children (`Tree.Shapely`). The lists of kinds here are those that a grammar would have
names for: what a message can be sent to, what can be passed to it, what can be a statement.
-/

namespace Courier

namespace Kind

/-- The literals. -/
def literals : List Kind :=
  [integerLiteral, decimalLiteral, hexLiteral, binaryLiteral, booleanLiteral, stringLiteral]

/-- The elements of an array. -/
def elements : List Kind :=
  literals ++ [nil, inst]

/-- What a message can be sent to. -/
def receivers : List Kind :=
  elements ++ [arrayLiteral, groupedExpression, messageBlock]

/-- What can be passed to a message, assigned or returned. -/
def values : List Kind :=
  receivers ++ [sendMessage]

/-- What stands for an expression. -/
def expressions : List Kind :=
  values ++ [returnExpression]

/-- The statements other than variables. -/
def statements : List Kind :=
  expressions ++ [classBlock, recordBlock, assignment]

end Kind

namespace Payload

/-- A variable with a type. -/
def IsTyped (p : Payload) : Prop :=
  ∃ name typeName, p = «variable» name (some typeName)

/-- What a declaration returns: types or named fields, and not none of them. -/
def IsReturnType : Payload → Prop
  | tuple types => types ≠ []
  | namedTuple fields => fields ≠ []
  | _ => False

/-- The names of messages that are operators. -/
def operators : List String :=
  ["+", "-", "*", "/", "%", ":="]

/-- The children that a node may have, in order, by its payload and theirs. -/
def Admits : Payload → List Payload → Prop
  | moduleBlock _ _, below => below = [codeFragmentBlock]
  | codeFragmentBlock, below | namespaceBlock _, below =>
    below = [statementsBlock] ∨ (below ≠ [] ∧ ∀ c ∈ below, c.kind = .namespaceBlock)
  | statementsBlock, below => ∀ c ∈ below, c.IsTyped ∨ c.kind ∈ Kind.statements
  | classBlock _ _, below => ∀ c ∈ below, c.kind ∈ [Kind.scope, .messageBlock]
  | scope _, below | recordBlock _ _, below => ∀ c ∈ below, c.IsTyped
  | messageBlock, below => ∃ name, below = [messageDeclaration name, statementsBlock]
  | messageDeclaration _, below => ∃ params returns, below = params ++ returns ∧ (∀ c ∈ params, c.kind = .param) ∧
      returns.length ≤ 1 ∧ ∀ c ∈ returns, c.IsReturnType
  | sendMessage, below => ∃ receiver name, below = [receiver, message name none] ∧ receiver.kind ∈ Kind.receivers
  | message name _, below => (∀ c ∈ below, c.kind ∈ Kind.values) ∧ (name ∈ operators → below.length = 1)
  | assignment, below => ∃ target, below = [target, message ":=" none] ∧ (target.IsTyped ∨ target.kind = .inst)
  | returnExpression, below => ∃ value, below = [value] ∧ value.kind ∈ Kind.values
  | groupedExpression, below => ∃ value, below = [value] ∧ value.kind ∈ Kind.expressions
  | arrayLiteral, below => ∀ c ∈ below, c.kind ∈ Kind.elements
  | comment _, below | literal _ _, below | nil, below | «variable» _ _, below | inst _ _, below | tuple _, below
  | namedTuple _, below | param _ _, below => below = []

/-- The payloads of a unit's root. -/
def IsUnit (p : Payload) : Prop :=
  p.kind ∈ [Kind.codeFragmentBlock, .moduleBlock]

end Payload

namespace Tree

/-- The payload of the node of an id. -/
def payload? (t : Tree) (id : NodeId) : Option Payload :=
  (t.node? id).map Node.payload

/-- Every node of a tree has children as its payload admits them and comments that are comments, and the root is a unit. -/
structure Shapely (t : Tree) : Prop where
  children {id : NodeId} {n : Node} (h : t.node? id = some n) :
    ∃ below, n.children.map t.payload? = below.map some ∧ n.payload.Admits below
  comments {id : NodeId} {n : Node} (h : t.node? id = some n) {c : NodeId} (hc : c ∈ n.comments) :
    ∃ text, t.payload? c = some (.comment text)
  root : ∃ id p, t.root = some id ∧ t.payload? id = some p ∧ p.IsUnit

end Tree

end Courier
