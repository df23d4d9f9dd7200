import Courier.Tree.Basic

/-!
# The dump of a tree

One entry for each node below the root, in preorder and with comments before children: two spaces for each level, the node's
description, its flags if it has any, and a line feed.
-/

namespace Courier.Tree

/-- The flags of a node as an entry shows them. -/
def flagSuffix : Option (List String) → String
  | some flags => " @[" ++ String.intercalate ", " flags ++ "]"
  | none => ""

/-- The indent of a level. -/
def indent (level : Nat) : String :=
  String.ofList (List.replicate (2 * level) ' ')

/-- The entry of a node at a level. -/
def entry (level : Nat) (n : Node) : String :=
  indent level ++ n.payload.describe ++ flagSuffix n.flags ++ "\n"

/-- The entries of the nodes below an id, itself first. `fuel` bounds the levels; the size of a tree is enough where
no node lies below itself. -/
def entriesFrom (t : Tree) : Nat → Nat → NodeId → List String
  | 0, _, _ => []
  | fuel + 1, level, id =>
    match t.node? id with
    | some n => entry level n :: n.below.flatMap (t.entriesFrom fuel (level + 1))
    | none => []

/-- The entries of the nodes below the root. -/
def entries (t : Tree) : List String :=
  match t.root with
  | some root => t.entriesFrom t.size 0 root
  | none => []

/-- The dump of a tree: its entries, one behind the other. -/
def dump (t : Tree) : String :=
  String.join t.entries

end Courier.Tree
