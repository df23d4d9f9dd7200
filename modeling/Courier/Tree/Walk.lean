import Courier.Tree.Basic

/-!
# Walking a tree

A walk visits a node, then what lies below its comments, then what lies below its offspring; a container is visited a second
time when it is left. The visitor is any effect; one that fails ends the walk.

Nothing keeps a node from being linked below itself, and a walk that meets such a ring goes round it until the visitor fails. So
a walk is told how many visits the visitor lasts. One that looks at nothing but the node needs no such number: it fails the first
time round or never.
-/

namespace Courier

/-- The side a node is visited on. Only containers are left. -/
inductive Phase where
  | enter | exit
  deriving DecidableEq, Repr, Inhabited

/-- The word of a phase. -/
def Phase.word : Phase → String
  | enter => "enter"
  | exit => "exit"

namespace Tree

/-- Walks the nodes below an id, itself first, down as many levels as `fuel` says. -/
def walkFrom {m : Type → Type} [Monad m] (t : Tree) (visit : Node → NodeId → Phase → m Unit) : Nat → NodeId → m Unit
  | 0, _ => pure ()
  | fuel + 1, id =>
    match t.node? id with
    | none => pure ()
    | some n => do
      visit n id .enter
      n.below.forM (t.walkFrom visit fuel)
      if n.kind.isContainer then visit n id .exit

/-- Walks the nodes below an id, itself first. Without a ring no way down is longer than the tree is large, and `visits` does not
matter; in a ring the visitor fails within `visits` visits, and since each level takes one, the walk gets no deeper than that. -/
def walk {m : Type → Type} [Monad m] (t : Tree) (visit : Node → NodeId → Phase → m Unit) (visits : Nat) (id : NodeId) :
    m Unit :=
  t.walkFrom visit (t.size + visits) id

/-- Walks the nodes below the root; without a root there is nothing to visit. -/
def walkAll {m : Type → Type} [Monad m] (t : Tree) (visit : Node → NodeId → Phase → m Unit) (visits : Nat) : m Unit :=
  match t.root with
  | some root => t.walk visit visits root
  | none => pure ()

end Tree

end Courier
