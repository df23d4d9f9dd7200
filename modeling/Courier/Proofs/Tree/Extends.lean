import Courier.Proofs.Parser.Operation
import Courier.Proofs.Tree.Schema

/-!
# Trees that grow

A tree keeps another if every node is still there, with its payload, its place and its children, and the nodes that are new have no
children yet (`Tree.Keeps`). It extends another if every node is still there and has at least the children it had, in their order
(`Tree.Extends`). Every operation on a tree but linking a node below another keeps it, and linking one extends it; only destroying what a
failed production made does not. So what was seen of a node (`Tree.Bears`) stays true while a parser goes on.
-/

namespace Courier

/-- The node is of the same payload and place, and has the same children. -/
structure Node.Keeps (n n' : Node) : Prop where
  payload : n'.payload = n.payload
  location : n'.location = n.location
  children : n'.children = n.children

/-- The node is of the same payload and place, and has the children it had. -/
structure Node.Extends (n n' : Node) : Prop where
  payload : n'.payload = n.payload
  location : n'.location = n.location
  children : n.children.Sublist n'.children

namespace Tree

/-- Every node is still there as it was, and the nodes that are new have no children. -/
structure Keeps (t t' : Tree) : Prop where
  old {i : NodeId} {n : Node} (h : t.node? i = some n) : ∃ n', t'.node? i = some n' ∧ n.Keeps n'
  new {i : NodeId} {n' : Node} (h : t.node? i = none) (h' : t'.node? i = some n') : n'.children = []

/-- Every node is still there, and has the children it had. -/
structure Extends (t t' : Tree) : Prop where
  node {i : NodeId} {n : Node} (h : t.node? i = some n) : ∃ n', t'.node? i = some n' ∧ n.Extends n'

/-- A node has the payload and the place, and has these children, in this order, among its own. -/
def Bears (t : Tree) (i : NodeId) (p : Payload) (l : Location) (below : List NodeId) : Prop :=
  ∃ n, t.node? i = some n ∧ n.payload = p ∧ n.location = l ∧ below.Sublist n.children

end Tree

theorem Node.Keeps.refl (n : Node) : n.Keeps n :=
  ⟨rfl, rfl, rfl⟩

theorem Node.Keeps.trans {n n' n'' : Node} (h : n.Keeps n') (h' : n'.Keeps n'') : n.Keeps n'' :=
  ⟨h'.payload.trans h.payload, h'.location.trans h.location, h'.children.trans h.children⟩

theorem Node.Keeps.extends {n n' : Node} (h : n.Keeps n') : n.Extends n' :=
  ⟨h.payload, h.location, h.children ▸ List.Sublist.refl _⟩

theorem Node.Extends.trans {n n' n'' : Node} (h : n.Extends n') (h' : n'.Extends n'') : n.Extends n'' :=
  ⟨h'.payload.trans h.payload, h'.location.trans h.location, h.children.trans h'.children⟩

namespace Tree

variable {t t' t'' : Tree}

/-! ## What is kept -/

theorem Keeps.refl (t : Tree) : t.Keeps t := by
  refine ⟨fun {_ n} hn => ⟨n, hn, .refl n⟩, fun hnone hn => ?_⟩
  rw [hnone] at hn
  nomatch hn

theorem Keeps.trans (h : t.Keeps t') (h' : t'.Keeps t'') : t.Keeps t'' := by
  constructor
  · intro i n hn
    obtain ⟨n', hn', hnode⟩ := h.old hn
    obtain ⟨n'', hn'', hnode'⟩ := h'.old hn'
    exact ⟨n'', hn'', hnode.trans hnode'⟩
  · intro i n'' hnone hn''
    cases hi : t'.node? i with
    | none => exact h'.new hi hn''
    | some n' =>
      obtain ⟨m, hm, hnode⟩ := h'.old hi
      rw [hn''] at hm
      obtain rfl := Option.some.inj hm
      rw [hnode.children, h.new hnone hi]

/-- A node of a tree that is kept was there before, or has no children. -/
theorem Keeps.old_or_new (h : t.Keeps t') {i : NodeId} {n' : Node} (hn' : t'.node? i = some n') :
    (∃ n, t.node? i = some n ∧ n.Keeps n') ∨ n'.children = [] := by
  cases hn : t.node? i with
  | none => exact .inr (h.new hn hn')
  | some n =>
    obtain ⟨m, hm, hnode⟩ := h.old hn
    rw [hn'] at hm
    obtain rfl := Option.some.inj hm
    exact .inl ⟨n, rfl, hnode⟩

theorem Keeps.extends (h : t.Keeps t') : t.Extends t' := by
  refine ⟨fun hn => ?_⟩
  obtain ⟨n', hn', hnode⟩ := h.old hn
  exact ⟨n', hn', hnode.extends⟩

theorem keeps_alloc (t : Tree) (p : Payload) (l : Location) : t.Keeps (t.alloc p l).2 := by
  constructor
  · intro i n hn
    have hne : i ≠ t.size := Nat.ne_of_lt (lt_size_of_node? hn)
    exact ⟨n, by rw [node?_alloc, if_neg hne, hn], .refl n⟩
  · intro i n' hnone hn'
    rw [node?_alloc] at hn'
    split at hn'
    · obtain rfl := Option.some.inj hn'
      rfl
    · rw [hnone] at hn'
      nomatch hn'

theorem keeps_update (t : Tree) (id : NodeId) {f : Node → Node} (hf : ∀ n : Node, n.Keeps (f n)) : t.Keeps (t.update id f) := by
  constructor
  · intro i n hn
    by_cases hi : i = id
    · exact ⟨f n, by rw [node?_update, if_pos hi, hn, Option.map_some], hf n⟩
    · exact ⟨n, by rw [node?_update, if_neg hi, hn], .refl n⟩
  · intro i n' hnone hn'
    rw [node?_update, hnone] at hn'
    split at hn' <;> nomatch hn'

theorem keeps_setParent (t : Tree) (id parent : NodeId) : t.Keeps (t.setParent id parent) :=
  t.keeps_update id (f := fun n => { n with parent := some parent }) (fun _ => ⟨rfl, rfl, rfl⟩)

theorem keeps_setFlags (t : Tree) (id : NodeId) (flags : List String) : t.Keeps (t.setFlags id flags) :=
  t.keeps_update id (f := fun n => { n with flags := some flags }) (fun _ => ⟨rfl, rfl, rfl⟩)

theorem keeps_withFlags (t : Tree) (id : NodeId) (flags : Option (List String)) : t.Keeps (t.withFlags id flags) := by
  cases flags with
  | none => exact .refl t
  | some flags => exact t.keeps_setFlags id flags

theorem keeps_attachComment (t : Tree) (parent comment : NodeId) : t.Keeps (t.attachComment parent comment) :=
  (t.keeps_setParent comment parent).trans (keeps_update _ parent (fun _ => ⟨rfl, rfl, rfl⟩))

theorem keeps_attachComments (t : Tree) (parent : NodeId) (comments : List NodeId) :
    t.Keeps (comments.foldl (fun t c => t.attachComment parent c) t) := by
  induction comments generalizing t with
  | nil => exact .refl t
  | cons c rest ih => exact (t.keeps_attachComment parent c).trans (ih _)

theorem keeps_setRoot (t : Tree) (id : NodeId) : t.Keeps (t.setRoot id) := by
  refine ⟨fun {_ n} hn => ⟨n, hn, .refl n⟩, fun {i _} (hnone : t.node? i = none) (hn : t.node? i = some _) => ?_⟩
  rw [hnone] at hn
  nomatch hn

/-! ## What is extended -/

theorem Extends.refl (t : Tree) : t.Extends t :=
  (Keeps.refl t).extends

theorem Extends.trans (h : t.Extends t') (h' : t'.Extends t'') : t.Extends t'' := by
  refine ⟨fun {i n} hn => ?_⟩
  obtain ⟨n', hn', hnode⟩ := h.node hn
  obtain ⟨n'', hn'', hnode'⟩ := h'.node hn'
  exact ⟨n'', hn'', hnode.trans hnode'⟩

/-- Linking a node below another gives that one a child and leaves the others as they were. -/
theorem exists_node?_attach (t : Tree) (parent child : NodeId) {i : NodeId} {n : Node} (hn : t.node? i = some n) :
    ∃ n', (t.attach parent child).node? i = some n' ∧ n'.payload = n.payload ∧ n'.location = n.location ∧
      n'.children = if i = parent then n.children ++ [child] else n.children := by
  obtain ⟨m, hm, hnode⟩ := (t.keeps_setParent child parent).old hn
  have hattach : t.attach parent child =
      (t.setParent child parent).update parent (fun n => { n with children := n.children ++ [child] }) := rfl
  rw [hattach, node?_update, hm]
  by_cases hi : i = parent
  · rw [if_pos hi, if_pos hi, ← hnode.children]
    exact ⟨_, rfl, hnode.payload, hnode.location, rfl⟩
  · rw [if_neg hi, if_neg hi]
    exact ⟨m, rfl, hnode.payload, hnode.location, hnode.children⟩

/-- Linking one node below another makes no node. -/
theorem exists_node?_of_attach {parent child i : NodeId} {n' : Node} (hn' : (t.attach parent child).node? i = some n') :
    ∃ n, t.node? i = some n ∧ n'.payload = n.payload ∧ n'.location = n.location ∧
      n'.children = if i = parent then n.children ++ [child] else n.children := by
  obtain ⟨n, hn⟩ := exists_node? (size_attach t parent child ▸ lt_size_of_node? hn' : i < t.size)
  obtain ⟨m, hm, hnode⟩ := t.exists_node?_attach parent child hn
  rw [hn'] at hm
  obtain rfl := Option.some.inj hm
  exact ⟨n, hn, hnode⟩

theorem extends_attach (t : Tree) (parent child : NodeId) : t.Extends (t.attach parent child) := by
  refine ⟨fun hn => ?_⟩
  obtain ⟨n', hn', hpayload, hlocation, hchildren⟩ := t.exists_node?_attach parent child hn
  refine ⟨n', hn', hpayload, hlocation, ?_⟩
  rw [hchildren]
  split
  · exact List.sublist_append_left _ _
  · exact List.Sublist.refl _

theorem Extends.payload? (h : t.Extends t') {i : NodeId} {p : Payload} (hp : t.payload? i = some p) : t'.payload? i = some p := by
  obtain ⟨n, hn, rfl⟩ := Option.map_eq_some_iff.1 hp
  obtain ⟨n', hn', hnode⟩ := h.node hn
  rw [Tree.payload?, hn', Option.map_some, hnode.payload]

/-! ## What was seen of a node -/

variable {i : NodeId} {p : Payload} {l : Location} {below : List NodeId}

theorem Bears.later (h : t.Bears i p l below) (ht : t.Extends t') : t'.Bears i p l below := by
  obtain ⟨n, hn, rfl, rfl, hbelow⟩ := h
  obtain ⟨n', hn', hnode⟩ := ht.node hn
  exact ⟨n', hn', hnode.payload, hnode.location, hbelow.trans hnode.children⟩

theorem Bears.payload? (h : t.Bears i p l below) : t.payload? i = some p := by
  obtain ⟨n, hn, rfl, -⟩ := h
  rw [Tree.payload?, hn]
  rfl

theorem Bears.attach (h : t.Bears i p l below) (child : NodeId) : (t.attach i child).Bears i p l (below ++ [child]) := by
  obtain ⟨n, hn, rfl, rfl, hbelow⟩ := h
  obtain ⟨n', hn', hpayload, hlocation, hchildren⟩ := t.exists_node?_attach i child hn
  refine ⟨n', hn', hpayload, hlocation, ?_⟩
  rw [hchildren, if_pos rfl]
  exact hbelow.append_right [child]

end Tree

namespace ParserState

theorem keeps_placeComment (s : ParserState) (t : Token) : s.tree.Keeps (s.placeComment t).tree := by
  have halloc := s.tree.keeps_alloc (.comment t.text) t.location
  unfold placeComment
  dsimp only
  split
  · exact halloc.trans (Tree.keeps_attachComment _ _ _)
  · exact halloc

theorem keeps_settle (s : ParserState) : s.tree.Keeps s.settle.tree := by
  refine settle_induction (I := fun u => s.tree.Keeps u.tree) (fun u t rest _ _ h => ?_) (.refl _)
  exact h.trans (keeps_placeComment (u.passing t rest) t)

theorem keeps_taken (s : ParserState) : s.tree.Keeps s.taken.tree := by
  rw [tree_taken]
  exact s.keeps_settle

/-- A new node has the flags and the comments that were pending, and no children yet. -/
theorem openNode_tree (s : ParserState) (p : Payload) (l : Location) : (s.tree.alloc p l).2.Keeps (s.openNode p l).2.tree := by
  have hflags := (s.tree.alloc p l).2.keeps_withFlags s.tree.size s.pendingFlags
  cases hkind : p.kind.isContainer with
  | true =>
    rw [openNode_of_container hkind]
    exact hflags.trans (Tree.keeps_attachComments _ _ _)
  | false =>
    rw [openNode_of_not_container hkind]
    exact hflags

theorem keeps_openNode (s : ParserState) (p : Payload) (l : Location) : s.tree.Keeps (s.openNode p l).2.tree :=
  (s.tree.keeps_alloc p l).trans (s.openNode_tree p l)

/-- A node that was opened has its payload and its place. -/
theorem bears_openNode (s : ParserState) (p : Payload) (l : Location) : (s.openNode p l).2.tree.Bears (s.openNode p l).1 p l [] := by
  have hfresh : (s.tree.alloc p l).2.node? s.tree.size = some (.fresh p l) := by rw [Tree.node?_alloc, if_pos rfl]
  obtain ⟨n, hn, hnode⟩ := (s.openNode_tree p l).old hfresh
  rw [fst_openNode]
  exact ⟨n, hn, hnode.payload, hnode.location, List.nil_sublist _⟩

theorem keeps_finish (s : ParserState) (root : NodeId) : s.tree.Keeps (s.finish root) :=
  (s.tree.keeps_attachComments root s.pendingComments).trans (Tree.keeps_setRoot _ root)

theorem kind?_openNode (s : ParserState) (p : Payload) (l : Location) :
    (s.openNode p l).2.tree.kind? (s.openNode p l).1 = some p.kind := by
  obtain ⟨n, hn, hpayload, -⟩ := s.bears_openNode p l
  rw [Tree.kind?, hn, Option.map_some, Node.kind, hpayload]

end ParserState

end Courier
