import Courier.Json.Basic
import Courier.Tree.Basic

/-!
# The JSON of a tree

One object for each node that is no comment, nested as the nodes are: the kind, the payload's fields, line and column, and, only
where there are any, the flags, the texts of the comments, the return value and the children.
-/

namespace Courier

/-- The fields of a payload besides its kind. The return value of a message is no field of it. -/
def Payload.fields : Payload → List (String × Json)
  | comment text => [("text", .text text)]
  | literal _ value => [("value", .text value)]
  | «variable» name typeName | inst name typeName => [("name", .text name), ("type_name", .ofText? typeName)]
  | tuple types => [("fields", .ofTexts types)]
  | namedTuple fields => [("fields", .array (fields.map (fun (n, t) => .ofTexts [n, t])))]
  | message name _ => [("name", .text name)]
  | param name typeName => [("name", .text name), ("type_name", .text typeName)]
  | messageDeclaration name => [("name", .ofText? name)]
  | scope visibility => [("visibility", .text visibility.word)]
  | classBlock name superclass | recordBlock name superclass => [("name", .text name), ("superclass", .ofText? superclass)]
  | namespaceBlock name => [("name", .text name)]
  | moduleBlock name version => [("name", .text name), ("version", .ofText? version)]
  | arrayLiteral | nil | groupedExpression | sendMessage | assignment | returnExpression | messageBlock | statementsBlock
  | codeFragmentBlock => []

namespace Tree

/-- The text of a comment node; other nodes have none. -/
def commentText? (t : Tree) (id : NodeId) : Option String :=
  match (t.node? id).map Node.payload with
  | some (.comment text) => some text
  | _ => none

/-- The object of a node. `fuel` bounds the levels; the size of a tree is enough where no node lies below itself. -/
def jsonFrom (t : Tree) : Nat → NodeId → Json
  | 0, _ => .null
  | fuel + 1, id =>
    match t.node? id with
    | none => .null
    | some n =>
      .ofFields <|
        [("kind", .text n.kind.name), ("line", .number n.location.line), ("column", .number n.location.column)]
          ++ n.payload.fields
          ++ (n.flags.map (fun flags => ("flags", Json.ofTexts flags))).toList
          ++ Json.fieldOfItems "comments" ((n.comments.filterMap t.commentText?).map .text)
          ++ (n.payload.returnValue.map (fun id => ("return_value", t.jsonFrom fuel id))).toList
          ++ Json.fieldOfItems "children" (n.children.map (t.jsonFrom fuel))

/-- The nested JSON of a tree; null without a root. -/
def toJson (t : Tree) : Json :=
  match t.root with
  | some root => t.jsonFrom t.size root
  | none => .null

end Tree

end Courier
