import Courier.Proofs.Tree.Extends

/-!
# The payloads and flags of a tree's nodes

The stock of a tree: what each node stands for and its flags, oldest first. While a parser runs, the stock only gets longer, by an entry
without flags for a comment and by one with the flags that are pending for any other node. Flags have their place (`Tree.Placed`) if each
node with flags is a code fragment, or a message block that is listed by a class or among nodes that are still to be listed.
-/

namespace Courier

namespace Tree

/-- The payloads and the flags of all nodes, oldest first. -/
def stock (t : Tree) : List (Payload × Option (List String)) :=
  t.nodes.toList.map (fun n => (n.payload, n.flags))

/-- The node is a class and has these children, in this order, among its own. -/
def IsClass (t : Tree) (below : List NodeId) (id : NodeId) : Prop :=
  ∃ p l, t.Bears id p l below ∧ p.kind = .classBlock

/-- A node with flags is a code fragment, or a message block that a class lists or that is one of `loose`. -/
def Placed (t : Tree) (loose : List NodeId) : Prop :=
  ∀ i p fs, t.stock[i]? = some (p, some fs) →
    p = .codeFragmentBlock ∨ p = .messageBlock ∧ (i ∈ loose ∨ ∃ c, t.IsClass [i] c)

variable {t t' : Tree} {i : NodeId} {p : Payload} {l : Location} {loose : List NodeId}

/-! ## The stock -/

theorem getElem?_stock (t : Tree) (i : NodeId) : t.stock[i]? = (t.node? i).map (fun n => (n.payload, n.flags)) := by
  rw [stock, List.getElem?_map, node?, Array.getElem?_toList]

theorem length_stock (t : Tree) : t.stock.length = t.size := by
  rw [stock, List.length_map, Array.length_toList, size]

theorem stock_alloc (t : Tree) (p : Payload) (l : Location) : (t.alloc p l).2.stock = t.stock ++ [(p, none)] := by
  rw [stock, stock, alloc, Array.toList_push, List.map_append]
  rfl

/-- What changes no payload and no flags keeps the stock. -/
theorem stock_update (t : Tree) (id : NodeId) {f : Node → Node} (hf : ∀ n : Node, ((f n).payload, (f n).flags) = (n.payload, n.flags)) :
    (t.update id f).stock = t.stock := by
  refine List.ext_getElem? (fun i => ?_)
  rw [getElem?_stock, getElem?_stock, node?_update]
  split
  · rw [Option.map_map]
    exact congrFun (congrArg Option.map (funext hf)) _
  · rfl

theorem stock_attach (t : Tree) (parent child : NodeId) : (t.attach parent child).stock = t.stock := by
  rw [attach, setParent, stock_update, stock_update]
  · exact fun _ => rfl
  · exact fun _ => rfl

theorem stock_attachComment (t : Tree) (parent comment : NodeId) : (t.attachComment parent comment).stock = t.stock := by
  rw [attachComment, setParent, stock_update, stock_update]
  · exact fun _ => rfl
  · exact fun _ => rfl

theorem stock_attachComments (t : Tree) (parent : NodeId) (comments : List NodeId) :
    (comments.foldl (fun t c => t.attachComment parent c) t).stock = t.stock := by
  induction comments generalizing t with
  | nil => rfl
  | cons c rest ih => exact (ih _).trans (t.stock_attachComment parent c)

/-- A new node is the last of the stock, with the flags that it is given. -/
theorem stock_withFlags (t : Tree) (p : Payload) (l : Location) (flags : Option (List String)) :
    ((t.alloc p l).2.withFlags t.size flags).stock = t.stock ++ [(p, flags)] := by
  cases flags with
  | none => exact t.stock_alloc p l
  | some flags =>
    refine List.ext_getElem? (fun i => ?_)
    rw [withFlags, setFlags, getElem?_stock, node?_update, node?_alloc]
    rcases Nat.lt_trichotomy i t.size with hi | rfl | hi
    · rw [if_neg (Nat.ne_of_lt hi), if_neg (Nat.ne_of_lt hi), List.getElem?_append_left (by rwa [length_stock]), getElem?_stock]
    · rw [if_pos rfl, if_pos rfl, List.getElem?_append_right (Nat.le_of_eq t.length_stock), length_stock, Nat.sub_self]
      rfl
    · rw [if_neg (Nat.ne_of_gt hi), if_neg (Nat.ne_of_gt hi), node?, Array.getElem?_eq_none (Nat.le_of_lt hi)]
      refine (List.getElem?_eq_none ?_).symm
      rw [List.length_append, length_stock]
      exact hi

/-! ## The place of flags -/

theorem IsClass.later {below : List NodeId} (h : t.IsClass below i) (ht : t.Extends t') : t'.IsClass below i := by
  obtain ⟨p, l, hbears, hkind⟩ := h
  exact ⟨p, l, hbears.later ht, hkind⟩

theorem IsClass.attach (h : t.IsClass [] i) (child : NodeId) : (t.attach i child).IsClass [child] i := by
  obtain ⟨p, l, hbears, hkind⟩ := h
  exact ⟨p, l, hbears.attach child, hkind⟩

theorem Placed.mono {loose' : List NodeId} (h : t.Placed loose) (hsub : loose ⊆ loose') : t.Placed loose' :=
  fun i p fs hi => (h i p fs hi).imp id (fun ⟨hp, hplace⟩ => ⟨hp, hplace.imp (fun hmem => hsub hmem) id⟩)

/-- Where no node is made, flags keep their place. -/
theorem Placed.later (h : t.Placed loose) (ht : t.Extends t') (hstock : t'.stock = t.stock) : t'.Placed loose := by
  intro i p fs hi
  rw [hstock] at hi
  refine (h i p fs hi).imp id (fun ⟨hp, hplace⟩ => ⟨hp, hplace.imp id ?_⟩)
  rintro ⟨c, hc⟩
  exact ⟨c, hc.later ht⟩

/-- A tree that is extended by a node without flags, or by one whose flags have their place, keeps the place of flags. -/
theorem Placed.grow {flags : Option (List String)} (h : t.Placed loose) (ht : t.Extends t')
    (hstock : t'.stock = t.stock ++ [(p, flags)])
    (hp : flags = none ∨ p = .codeFragmentBlock ∨ p = .messageBlock ∧ t.size ∈ loose) : t'.Placed loose := by
  intro i q fs hi
  rw [hstock] at hi
  rcases Nat.lt_or_ge i t.size with hlt | hge
  · rw [List.getElem?_append_left (by rwa [length_stock])] at hi
    refine (h i q fs hi).imp id (fun ⟨hq, hplace⟩ => ⟨hq, hplace.imp id ?_⟩)
    rintro ⟨c, hc⟩
    exact ⟨c, hc.later ht⟩
  · rw [List.getElem?_append_right (by rwa [length_stock]), length_stock] at hi
    obtain ⟨hk, hnew⟩ := List.getElem?_eq_some_iff.1 hi
    obtain rfl : i = t.size := Nat.le_antisymm (Nat.sub_eq_zero_iff_le.1 (Nat.lt_one_iff.1 hk)) hge
    obtain ⟨rfl, rfl⟩ := Prod.mk.inj (show (p, flags) = (q, some fs) by simpa using hnew)
    rcases hp with hnone | hp | ⟨hp, hmem⟩
    · nomatch hnone
    · exact .inl hp
    · exact .inr ⟨hp, .inl hmem⟩

/-- A node that a class gets is no longer loose. -/
theorem Placed.attach {c : NodeId} (h : t.Placed (i :: loose)) (hc : t.IsClass [] c) : (t.attach c i).Placed loose := by
  intro j p fs hj
  rw [stock_attach] at hj
  refine (h j p fs hj).imp id (fun ⟨hp, hplace⟩ => ⟨hp, ?_⟩)
  rcases hplace with hmem | ⟨d, hd⟩
  · rcases List.mem_cons.1 hmem with rfl | hmem
    · exact .inr ⟨c, hc.attach j⟩
    · exact .inl hmem
  · exact .inr ⟨d, hd.later (t.extends_attach c i)⟩

end Tree

namespace ParserState

theorem stock_placeComment (s : ParserState) (t : Token) :
    (s.placeComment t).tree.stock = s.tree.stock ++ [(.comment t.text, none)] := by
  have halloc := s.tree.stock_alloc (.comment t.text) t.location
  cases hb : s.blocks with
  | nil =>
    rw [placeComment_of_nil hb]
    exact halloc
  | cons b bs =>
    rw [placeComment_of_cons hb]
    exact (Tree.stock_attachComment _ _ _).trans halloc

theorem stock_openNode (s : ParserState) (p : Payload) (l : Location) :
    (s.openNode p l).2.tree.stock = s.tree.stock ++ [(p, s.pendingFlags)] := by
  have hmade := s.tree.stock_withFlags p l s.pendingFlags
  cases hkind : p.kind.isContainer with
  | true =>
    rw [openNode_of_container hkind]
    exact (Tree.stock_attachComments _ _ _).trans hmade
  | false =>
    rw [openNode_of_not_container hkind]
    exact hmade

theorem stock_finish (s : ParserState) (root : NodeId) : (s.finish root).stock = s.tree.stock :=
  Tree.stock_attachComments _ _ _

@[simp] theorem pendingFlags_placeComment (s : ParserState) (t : Token) : (s.placeComment t).pendingFlags = s.pendingFlags := by
  unfold placeComment
  split
  split <;> rfl

@[simp] theorem pendingFlags_openNode (s : ParserState) (p : Payload) (l : Location) : (s.openNode p l).2.pendingFlags = none := by
  cases hkind : p.kind.isContainer with
  | true => rw [openNode_of_container hkind]
  | false => rw [openNode_of_not_container hkind]

end ParserState

end Courier
