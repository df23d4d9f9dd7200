import Courier.Text.Location
import Courier.Tree.Payload

/-!
# The tree of a unit

The nodes of a tree lie in one array, in the order they were made, and refer to each other by their places in it. The operations
here make nodes, link them and destroy the youngest; what they do to an id that lies outside the array is nothing.

A link is written on both sides: a child or comment is listed by its parent and names it. Destroying nodes scrubs the lists and
the return values of the older ones, not their parents.
-/

namespace Courier

/-- A node: what it stands for, where it starts, and its links. `children` does not hold the return value of a message, which
is in the payload. -/
structure Node where
  payload : Payload
  location : Location
  parent : Option NodeId
  children : List NodeId
  comments : List NodeId
  flags : Option (List String)
  deriving DecidableEq, Repr, Inhabited

namespace Node

/-- A new node, with no links and no flags. -/
def fresh (payload : Payload) (location : Location) : Node :=
  ⟨payload, location, none, [], [], none⟩

/-- The kind of a node. -/
def kind (n : Node) : Kind :=
  n.payload.kind

/-- The children of a node and, behind them, the return value of a message. -/
def offspring (n : Node) : List NodeId :=
  n.children ++ n.payload.returnValue.toList

/-- Everything a node lists: its comments, then its offspring. -/
def below (n : Node) : List NodeId :=
  n.comments ++ n.offspring

/-- The node without references to the nodes at or behind `mark`, except for its parent. -/
def scrub (mark : Nat) (n : Node) : Node :=
  { n with
    payload := n.payload.filterReturnValue (· < mark)
    children := n.children.filter (· < mark)
    comments := n.comments.filter (· < mark) }

end Node

/-- The tree of one unit. -/
structure Tree where
  file : String
  nodes : Array Node
  root : Option NodeId
  deriving DecidableEq, Repr, Inhabited

namespace Tree

/-- The tree of a file, before any node is made. -/
def empty (file : String) : Tree :=
  ⟨file, #[], none⟩

/-- The number of nodes. -/
def size (t : Tree) : Nat :=
  t.nodes.size

/-- The node of an id. -/
def node? (t : Tree) (id : NodeId) : Option Node :=
  t.nodes[id]?

/-- The ids of all nodes, oldest first. -/
def ids (t : Tree) : List NodeId :=
  List.range t.size

/-- The kind of the node of an id. -/
def kind? (t : Tree) (id : NodeId) : Option Kind :=
  (t.node? id).map Node.kind

/-- The offspring of a node that have a kind. -/
def offspringOfKind (t : Tree) (id : NodeId) (kind : Kind) : List NodeId :=
  match t.node? id with
  | some n => n.offspring.filter (fun c => t.kind? c == some kind)
  | none => []

/-- The tree with one node changed. -/
def update (t : Tree) (id : NodeId) (f : Node → Node) : Tree :=
  { t with nodes := t.nodes.modify id f }

/-- Makes a node. Its id is the number of nodes before. -/
def alloc (t : Tree) (payload : Payload) (location : Location) : NodeId × Tree :=
  (t.size, { t with nodes := t.nodes.push (.fresh payload location) })

/-- Whether a node has a parent. -/
def hasParent (t : Tree) (id : NodeId) : Bool :=
  (t.node? id).any (fun n => n.parent.isSome)

/-- Names the parent of a node. -/
def setParent (t : Tree) (id parent : NodeId) : Tree :=
  t.update id (fun n => { n with parent := some parent })

/-- Makes a node the last child of another. -/
def attach (t : Tree) (parent child : NodeId) : Tree :=
  (t.setParent child parent).update parent (fun n => { n with children := n.children ++ [child] })

/-- Makes a node the last comment of another. -/
def attachComment (t : Tree) (parent comment : NodeId) : Tree :=
  (t.setParent comment parent).update parent (fun n => { n with comments := n.comments ++ [comment] })

/-- Gives a node its flags. -/
def setFlags (t : Tree) (id : NodeId) (flags : List String) : Tree :=
  t.update id (fun n => { n with flags := some flags })

/-- Makes a node the root. -/
def setRoot (t : Tree) (id : NodeId) : Tree :=
  { t with root := some id }

/-- Whether a node is there, has no parent and is not the root. -/
def isDetached (t : Tree) (id : NodeId) : Bool :=
  match t.node? id with
  | some n => n.parent.isNone && t.root != some id
  | none => false

/-- Fills the return value of a message. The message must have none yet, and the value must be another node that is
detached. -/
def setReturnValue? (t : Tree) (message value : NodeId) : Option Tree :=
  if message = value || !t.isDetached value then none
  else
    match (t.node? message).map Node.payload with
    | some (.message name none) =>
      some ((t.update message (fun n => { n with payload := .message name (some value) })).setParent value message)
    | _ => none

/-- Destroys the nodes from `mark` on, with the references to them that older nodes and the root hold, parents excepted.
Also gives the kind of the first node destroyed, if any was. -/
def discardFrom (t : Tree) (mark : Nat) : Option Kind × Tree :=
  match t.node? mark with
  | none => (none, t)
  | some first =>
    (some first.kind, ⟨t.file, (t.nodes.extract 0 mark).map (Node.scrub mark), t.root.filter (· < mark)⟩)

@[simp] theorem size_empty (file : String) : (empty file).size = 0 := rfl

@[simp] theorem size_update (t : Tree) (id : NodeId) (f : Node → Node) : (t.update id f).size = t.size := by
  simp [update, size]

@[simp] theorem size_alloc (t : Tree) (p : Payload) (l : Location) : (t.alloc p l).2.size = t.size + 1 := by
  simp [alloc, size]

@[simp] theorem size_attach (t : Tree) (p c : NodeId) : (t.attach p c).size = t.size := by
  simp [attach, setParent]

@[simp] theorem size_attachComment (t : Tree) (p c : NodeId) : (t.attachComment p c).size = t.size := by
  simp [attachComment, setParent]

theorem size_attachComments (t : Tree) (parent : NodeId) (comments : List NodeId) :
    (comments.foldl (fun t c => t.attachComment parent c) t).size = t.size := by
  induction comments generalizing t with
  | nil => rfl
  | cons c rest ih => rw [List.foldl_cons, ih, Tree.size_attachComment]

@[simp] theorem size_setFlags (t : Tree) (id : NodeId) (flags : List String) : (t.setFlags id flags).size = t.size := by
  simp [setFlags]

theorem lt_size_of_node? {t : Tree} {id : NodeId} {n : Node} (h : t.node? id = some n) : id < t.size := by
  obtain ⟨hlt, -⟩ := Array.getElem?_eq_some_iff.1 h
  exact hlt

theorem exists_node? {t : Tree} {id : NodeId} (h : id < t.size) : ∃ n, t.node? id = some n :=
  ⟨t.nodes[id], Array.getElem?_eq_getElem h⟩

/-- A changed node is the old one changed, and the others are as before. -/
theorem node?_update (t : Tree) (id i : NodeId) (f : Node → Node) :
    (t.update id f).node? i = if i = id then (t.node? i).map f else t.node? i := by
  unfold update node?
  rw [Array.getElem?_modify]
  by_cases h : id = i
  · simp [h]
  · simp [h, Ne.symm h]

/-- A new node stands behind the others, which are as before. -/
theorem node?_alloc (t : Tree) (p : Payload) (l : Location) (i : NodeId) :
    (t.alloc p l).2.node? i = if i = t.size then some (.fresh p l) else t.node? i := by
  unfold alloc node? size
  exact Array.getElem?_push

/-- After a destruction the nodes before the mark are there, scrubbed, and no others. -/
theorem node?_discardFrom {t : Tree} {mark : Nat} (h : mark < t.size) (i : NodeId) :
    (t.discardFrom mark).2.node? i = if i < mark then (t.node? i).map (Node.scrub mark) else none := by
  have hm : t.node? mark = some t.nodes[mark] := Array.getElem?_eq_getElem h
  unfold discardFrom
  rw [hm]
  unfold node?
  simp only [Array.getElem?_map, Array.getElem?_extract, Nat.zero_add, Nat.sub_zero]
  have hmin : min mark t.nodes.size = mark := Nat.min_eq_left (Nat.le_of_lt h)
  rw [hmin]
  split <;> rfl

/-- Where no node is at the mark, a destruction changes nothing. -/
theorem discardFrom_of_size_le {t : Tree} {mark : Nat} (h : t.size ≤ mark) : t.discardFrom mark = (none, t) := by
  have hm : t.node? mark = none := Array.getElem?_eq_none h
  unfold discardFrom
  rw [hm]

/-- What a destruction tells is the kind of the node at the mark. -/
theorem fst_discardFrom (t : Tree) (mark : Nat) : (t.discardFrom mark).1 = t.kind? mark := by
  unfold discardFrom kind?
  cases t.node? mark <;> rfl

theorem size_discardFrom {t : Tree} {mark : Nat} (h : mark < t.size) : (t.discardFrom mark).2.size = mark := by
  have hm : t.node? mark = some t.nodes[mark] := Array.getElem?_eq_getElem h
  unfold discardFrom
  rw [hm]
  unfold size at h ⊢
  simp only [Array.size_map, Array.size_extract]
  omega

theorem root_discardFrom {t : Tree} {mark : Nat} (h : mark < t.size) :
    (t.discardFrom mark).2.root = t.root.filter (· < mark) := by
  have hm : t.node? mark = some t.nodes[mark] := Array.getElem?_eq_getElem h
  unfold discardFrom
  rw [hm]

end Tree

end Courier
