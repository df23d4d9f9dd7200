import Courier.Tree.Basic

/-!
# Trees that are alike

Two trees are related if their nodes are linked in the same way, and what the nodes are made of, payloads and places, is related one by
one (`Tree.Related`). They are alike if the payloads are the same (`Tree.Alike`). What is done to both trees keeps them related: making a
node, changing one, and destroying the youngest (`Tree.Related.alloc`, `Tree.Related.update`, `Tree.Related.discardFrom`).
-/

namespace Courier

/-- The nodes are the same but for their places, which are related. -/
structure Node.Alike (R : Location → Location → Prop) (n n' : Node) : Prop where
  payload : n'.payload = n.payload
  location : R n.location n'.location
  parent : n'.parent = n.parent
  children : n'.children = n.children
  comments : n'.comments = n.comments
  flags : n'.flags = n.flags

/-- The trees have the same root and as many nodes, which are alike one by one. -/
structure Tree.Alike (R : Location → Location → Prop) (t t' : Tree) : Prop where
  size : t'.size = t.size
  root : t'.root = t.root
  node {i : NodeId} {n n' : Node} (h : t.node? i = some n) (h' : t'.node? i = some n') : n.Alike R n'

/-- What two nodes may be made of. -/
abbrev Matter : Type :=
  Payload × Location → Payload × Location → Prop

/-- The payloads are the same, at places that are related. -/
def Matter.same (R : Location → Location → Prop) : Matter :=
  fun m m' => m'.1 = m.1 ∧ R m.2 m'.2

/-- Payloads that are related have one kind, and are related without their return values as well. -/
structure Matter.Kept (M : Matter) : Prop where
  kind {m m' : Payload × Location} (h : M m m') : m'.1.kind = m.1.kind
  filter {m m' : Payload × Location} (h : M m m') (keep : NodeId → Bool) :
    M (m.1.filterReturnValue keep, m.2) (m'.1.filterReturnValue keep, m'.2)

/-- The nodes are linked in the same way, and made of what is related. -/
structure Node.Related (M : Matter) (n n' : Node) : Prop where
  made : M (n.payload, n.location) (n'.payload, n'.location)
  parent : n'.parent = n.parent
  children : n'.children = n.children
  comments : n'.comments = n.comments
  flags : n'.flags = n.flags

/-- The trees have the same root and as many nodes, which are related one by one. -/
structure Tree.Related (M : Matter) (t t' : Tree) : Prop where
  size : t'.size = t.size
  root : t'.root = t.root
  node {i : NodeId} {n n' : Node} (h : t.node? i = some n) (h' : t'.node? i = some n') : n.Related M n'

variable {M : Matter}

theorem Matter.kept_same (R : Location → Location → Prop) : (Matter.same R).Kept :=
  ⟨fun h => congrArg Payload.kind h.1, fun h keep => ⟨congrArg (Payload.filterReturnValue keep) h.1, h.2⟩⟩

theorem Node.Related.scrub {n n' : Node} (hM : M.Kept) (h : n.Related M n') (mark : Nat) : (n.scrub mark).Related M (n'.scrub mark) :=
  ⟨hM.filter h.made _, h.parent, congrArg (List.filter (· < mark)) h.children, congrArg (List.filter (· < mark)) h.comments, h.flags⟩

namespace Tree

variable {t t' : Tree}

/-- Trees are alike if their nodes are made of the same payloads. -/
theorem Related.alike {R : Location → Location → Prop} (h : t.Related (.same R) t') : t.Alike R t' := by
  refine ⟨h.size, h.root, fun hn hn' => ?_⟩
  have hnode := h.node hn hn'
  exact { hnode with payload := hnode.made.1, location := hnode.made.2 }

theorem Related.mono (h : t.Related M t') {M' : Matter} (hM : ∀ m m', M m m' → M' m m') : t.Related M' t' := by
  refine ⟨h.size, h.root, fun hn hn' => ?_⟩
  have hnode := h.node hn hn'
  exact { hnode with made := hM _ _ hnode.made }

theorem related_empty (file file' : String) : (empty file).Related M (empty file') :=
  ⟨rfl, rfl, fun h => nomatch h⟩

/-- Where one tree has a node, the other has one that is related. -/
theorem Related.exists_node (h : t.Related M t') {i : NodeId} {n : Node} (hn : t.node? i = some n) :
    ∃ n', t'.node? i = some n' ∧ n.Related M n' := by
  obtain ⟨n', hn'⟩ := exists_node? (h.size ▸ lt_size_of_node? hn : i < t'.size)
  exact ⟨n', hn', h.node hn hn'⟩

/-- Trees that are related have the same nodes if these are made of the same. -/
theorem Related.nodes_eq_iff (h : t.Related M t') : t'.nodes = t.nodes ↔
    ∀ i n n', t.node? i = some n → t'.node? i = some n' → (n'.payload, n'.location) = (n.payload, n.location) := by
  constructor
  · intro hnodes i n n' hn hn'
    rw [node?, hnodes] at hn'
    obtain rfl := Option.some.inj (hn.symm.trans hn')
    rfl
  · intro hmade
    refine Array.ext_getElem? (fun i => ?_)
    change t'.node? i = t.node? i
    cases hn : t.node? i with
    | some n =>
      obtain ⟨n', hn', hnode⟩ := h.exists_node hn
      obtain ⟨hpayload, hlocation⟩ := Prod.mk.inj (hmade i n n' hn hn')
      obtain ⟨-, hparent, hchildren, hcomments, hflags⟩ := hnode
      rw [hn']
      cases n
      cases n'
      subst hpayload hlocation hparent hchildren hcomments hflags
      rfl
    | none =>
      have hle : t.size ≤ i := Array.getElem?_eq_none_iff.1 hn
      exact Array.getElem?_eq_none (h.size ▸ hle : t'.size ≤ i)

theorem Related.kind?_eq (hM : M.Kept) (h : t.Related M t') (i : NodeId) : t'.kind? i = t.kind? i := by
  unfold kind?
  cases hn : t.node? i with
  | none =>
    have hle : t.size ≤ i := Array.getElem?_eq_none_iff.1 hn
    have hle' : t'.size ≤ i := h.size ▸ hle
    have hnone : t'.node? i = none := Array.getElem?_eq_none hle'
    rw [hnone]
  | some n =>
    obtain ⟨n', hn', hnode⟩ := h.exists_node hn
    rw [hn', Option.map_some, Option.map_some, Node.kind, Node.kind, hM.kind hnode.made]

/-- New nodes, made of what is related. -/
theorem Related.alloc (h : t.Related M t') {p p' : Payload} {l l' : Location} (hp : M (p, l) (p', l')) :
    (t.alloc p l).2.Related M (t'.alloc p' l').2 := by
  refine ⟨?_, h.root, fun {i n n'} hn hn' => ?_⟩
  · rw [size_alloc, size_alloc, h.size]
  · rw [node?_alloc] at hn hn'
    rw [h.size] at hn'
    split at hn
    · rename_i hi
      rw [if_pos hi] at hn'
      obtain rfl := Option.some.inj hn
      obtain rfl := Option.some.inj hn'
      exact ⟨hp, rfl, rfl, rfl, rfl⟩
    · rename_i hi
      rw [if_neg hi] at hn'
      exact h.node hn hn'

/-- A change of one node that keeps nodes related keeps the trees so. -/
theorem Related.update (h : t.Related M t') (id : NodeId) {f : Node → Node}
    (hf : ∀ n n' : Node, n.Related M n' → (f n).Related M (f n')) : (t.update id f).Related M (t'.update id f) := by
  refine ⟨?_, h.root, fun {i n n'} hn hn' => ?_⟩
  · rw [size_update, size_update, h.size]
  · rw [node?_update] at hn hn'
    split at hn
    · rename_i hi
      rw [if_pos hi] at hn'
      obtain ⟨m, hm, rfl⟩ := Option.map_eq_some_iff.1 hn
      obtain ⟨m', hm', rfl⟩ := Option.map_eq_some_iff.1 hn'
      exact hf m m' (h.node hm hm')
    · rename_i hi
      rw [if_neg hi] at hn'
      exact h.node hn hn'

theorem Related.setParent (h : t.Related M t') (id parent : NodeId) : (t.setParent id parent).Related M (t'.setParent id parent) :=
  h.update id (fun _ _ hn => { hn with parent := rfl })

theorem Related.setFlags (h : t.Related M t') (id : NodeId) (flags : List String) :
    (t.setFlags id flags).Related M (t'.setFlags id flags) :=
  h.update id (fun _ _ hn => { hn with flags := rfl })

theorem Related.attach (h : t.Related M t') (parent child : NodeId) : (t.attach parent child).Related M (t'.attach parent child) :=
  (h.setParent child parent).update parent (fun _ _ hn => { hn with children := congrArg (· ++ [child]) hn.children })

theorem Related.attachComment (h : t.Related M t') (parent comment : NodeId) :
    (t.attachComment parent comment).Related M (t'.attachComment parent comment) :=
  (h.setParent comment parent).update parent (fun _ _ hn => { hn with comments := congrArg (· ++ [comment]) hn.comments })

theorem Related.attachComments (h : t.Related M t') (parent : NodeId) (comments : List NodeId) :
    (comments.foldl (fun t c => t.attachComment parent c) t).Related M (comments.foldl (fun t c => t.attachComment parent c) t') := by
  induction comments generalizing t t' with
  | nil => exact h
  | cons c rest ih => exact ih (h.attachComment parent c)

theorem Related.setRoot (h : t.Related M t') (id : NodeId) : (t.setRoot id).Related M (t'.setRoot id) :=
  ⟨h.size, rfl, h.node⟩

/-- The first nodes destroyed have one kind, and what is left is related. -/
theorem Related.discardFrom (hM : M.Kept) (h : t.Related M t') (mark : Nat) :
    (t'.discardFrom mark).1 = (t.discardFrom mark).1 ∧ (t.discardFrom mark).2.Related M (t'.discardFrom mark).2 := by
  by_cases hmark : mark < t.size
  · have hmark' : mark < t'.size := h.size ▸ hmark
    refine ⟨?_, ⟨?_, ?_, fun {i n n'} hi hi' => ?_⟩⟩
    · rw [fst_discardFrom, fst_discardFrom, h.kind?_eq hM]
    · rw [size_discardFrom hmark, size_discardFrom hmark']
    · rw [root_discardFrom hmark, root_discardFrom hmark', h.root]
    · rw [node?_discardFrom hmark] at hi
      rw [node?_discardFrom hmark'] at hi'
      split at hi
      · rename_i hlt
        rw [if_pos hlt] at hi'
        obtain ⟨m, hm, rfl⟩ := Option.map_eq_some_iff.1 hi
        obtain ⟨m', hm', rfl⟩ := Option.map_eq_some_iff.1 hi'
        exact (h.node hm hm').scrub hM mark
      · nomatch hi
  · have hle : t.size ≤ mark := Nat.le_of_not_lt hmark
    have hle' : t'.size ≤ mark := h.size ▸ hle
    rw [discardFrom_of_size_le hle, discardFrom_of_size_le hle']
    exact ⟨rfl, h⟩

end Tree

end Courier
