import Courier.Tree.Basic
import Mathlib.Data.List.Basic

/-!
# A tree without its comments

`Tree.withoutComments` deletes the comments of a tree and renumbers the other nodes in order. To make a comment, or to link one, changes
nothing of what is left (`withoutComments_alloc_comment`, `withoutComments_attachComment`). Any other operation is the same operation on
what is left, done to the new ids (`withoutComments_alloc`, `withoutComments_update`); for a new node this needs a tree whose nodes refer
to nodes that are there (`Tree.Closed`).
-/

namespace Courier

/-- Whether a node is a comment. -/
def Node.isComment (n : Node) : Bool :=
  n.kind == .comment

/-- The payload with a new id for its return value, or without one where there is no new id. -/
def Payload.renumbered (f : NodeId → Option NodeId) : Payload → Payload
  | .message name r => .message name (r.bind f)
  | other => other

/-- The node with new ids; a reference to a node without a new id is dropped. -/
def Node.renumbered (f : NodeId → Option NodeId) (n : Node) : Node :=
  { n with
    payload := n.payload.renumbered f
    parent := n.parent.bind f
    children := n.children.filterMap f
    comments := n.comments.filterMap f }

/-- The ids that a node refers to. -/
def Node.refs (n : Node) : List NodeId :=
  n.parent.toList ++ n.children ++ n.comments ++ n.payload.returnValue.toList

/-- The id of a node once the comments are gone: the number of nodes before it that are none. The marks tell of every node whether it
is a comment. -/
def newId? (marks : List Bool) (i : NodeId) : Option NodeId :=
  if marks[i]? = some false then some ((marks.take i).count false) else none

namespace Tree

/-- Which nodes of the tree are comments. -/
def marks (t : Tree) : List Bool :=
  t.nodes.toList.map Node.isComment

/-- The tree without its comments: the other nodes in order, with new ids wherever a node refers to one of them. -/
def withoutComments (t : Tree) : Tree where
  file := t.file
  nodes := ((t.nodes.toList.filter (fun n => !n.isComment)).map (Node.renumbered (newId? t.marks))).toArray
  root := t.root.bind (newId? t.marks)

/-- Every reference in the tree is to one of its nodes. -/
structure Closed (t : Tree) : Prop where
  node {i : NodeId} {n : Node} (h : t.node? i = some n) : ∀ j ∈ n.refs, j < t.size
  root : ∀ j ∈ t.root, j < t.size

end Tree

/-! ## New ids -/

section

variable {marks marks' : List Bool} {i j : NodeId}

theorem lt_of_newId? (h : newId? marks i = some j) : i < marks.length := by
  unfold newId? at h
  split at h
  · rename_i hi
    exact (List.getElem?_eq_some_iff.1 hi).1
  · nomatch h

theorem newId?_append (h : i < marks.length) (rest : List Bool) : newId? (marks ++ rest) i = newId? marks i := by
  unfold newId?
  rw [List.getElem?_append_left h, List.take_append_of_le_length (Nat.le_of_lt h)]

/-- A node keeps its new id while others are made. -/
theorem newId?_of_prefix (h : newId? marks i = some j) (hp : marks <+: marks') : newId? marks' i = some j := by
  obtain ⟨rest, rfl⟩ := hp
  rw [newId?_append (lt_of_newId? h), h]

/-- One more comment gives no new id to any node. -/
theorem newId?_append_true (marks : List Bool) : newId? (marks ++ [true]) = newId? marks := by
  funext i
  by_cases hi : i < marks.length
  · exact newId?_append hi _
  · have hout : marks[i]? = none := List.getElem?_eq_none (Nat.le_of_not_lt hi)
    have hlast : (marks ++ [true])[i]? ≠ some false := by
      intro hsome
      rw [List.getElem?_append_right (Nat.le_of_not_lt hi)] at hsome
      simpa using List.mem_of_getElem? hsome
    unfold newId?
    rw [if_neg hlast, hout, if_neg (by simp)]

/-- The next node that is no comment comes behind the others. -/
theorem newId?_append_false (marks : List Bool) : newId? (marks ++ [false]) marks.length = some (marks.count false) := by
  unfold newId?
  rw [if_pos (by simp), List.take_left]

theorem newId?_of_mark (h : marks[i]? = some true) : newId? marks i = none := by
  unfold newId?
  rw [h, if_neg (by simp)]

end

/-! ## Renumbered nodes -/

section

variable {f g : NodeId → Option NodeId} {n : Node}

theorem Payload.renumbered_congr {p : Payload} (h : ∀ j ∈ p.returnValue, f j = g j) : p.renumbered f = p.renumbered g := by
  cases p with
  | message name r =>
    cases r with
    | none => rfl
    | some j => exact congrArg (Payload.message name) (h j rfl)
  | _ => rfl

/-- New ids that agree on what a node refers to give the same node. -/
theorem Node.renumbered_congr (h : ∀ j ∈ n.refs, f j = g j) : n.renumbered f = n.renumbered g := by
  unfold Node.refs at h
  have hparent : n.parent.bind f = n.parent.bind g := by
    cases hp : n.parent with
    | none => rfl
    | some p => exact h p (by simp [hp])
  have hchildren : n.children.filterMap f = n.children.filterMap g := List.filterMap_congr (fun j hj => h j (by simp [hj]))
  have hcomments : n.comments.filterMap f = n.comments.filterMap g := List.filterMap_congr (fun j hj => h j (by simp [hj]))
  have hpayload : n.payload.renumbered f = n.payload.renumbered g :=
    Payload.renumbered_congr (fun j hj => h j (by simp [Option.mem_toList.2 hj]))
  unfold Node.renumbered
  rw [hparent, hchildren, hcomments, hpayload]

theorem Payload.renumbered_of_none {p : Payload} (h : p.returnValue = none) : p.renumbered f = p := by
  cases p with
  | message name r =>
    obtain rfl : r = none := h
    rfl
  | _ => rfl

/-- A new node has nothing to renumber. -/
theorem Node.renumbered_fresh {p : Payload} (h : p.returnValue = none) (l : Location) :
    (Node.fresh p l).renumbered f = .fresh p l := by
  unfold Node.renumbered Node.fresh
  rw [Payload.renumbered_of_none h]
  rfl

end

/-! ## One node of a list -/

section

variable {α β : Type} {p : α → Bool} {f : α → α}

/-- A change that is not seen in what is kept of a list. -/
theorem map_filter_modify {r : α → β} (hf : ∀ a, p (f a) = p a) {l : List α} {i : Nat}
    (h : ∀ a ∈ l[i]?, p a = true → r (f a) = r a) : ((l.modify i f).filter p).map r = (l.filter p).map r := by
  induction l generalizing i with
  | nil => rw [List.modify_nil]
  | cons a l ih =>
    cases i with
    | zero =>
      rw [List.modify_zero_cons, List.filter_cons, List.filter_cons, hf]
      split
      · rename_i ha
        rw [List.map_cons, List.map_cons, h a rfl ha]
      · rfl
    | succ i =>
      rw [List.modify_succ_cons, List.filter_cons, List.filter_cons]
      split
      · rw [List.map_cons, List.map_cons, ih h]
      · exact ih h

/-- A change of what is kept is a change behind as many as are kept before it. -/
theorem filter_modify_of_pos {l : List α} {i : Nat} {a : α} (ha : l[i]? = some a) (hpa : p a = true) (hf : ∀ a, p (f a) = p a) :
    (l.modify i f).filter p = (l.filter p).modify ((l.take i).countP p) f := by
  induction l generalizing i with
  | nil => nomatch ha
  | cons b l ih =>
    cases i with
    | zero =>
      obtain rfl : b = a := Option.some.inj ha
      rw [List.modify_zero_cons, List.filter_cons_of_pos (by rw [hf, hpa]), List.filter_cons_of_pos hpa]
      rfl
    | succ i =>
      rw [List.modify_succ_cons, List.take_succ_cons, List.filter_cons, List.filter_cons, List.countP_cons, ih ha]
      cases hb : p b with
      | false => rfl
      | true => rw [if_pos rfl, if_pos rfl, if_pos rfl, List.modify_succ_cons]

/-- An entry that is kept stands behind as many as are kept before it. -/
theorem getElem?_filter {l : List α} {i : Nat} {a : α} (ha : l[i]? = some a) (hpa : p a = true) :
    (l.filter p)[(l.take i).countP p]? = some a := by
  induction l generalizing i with
  | nil => nomatch ha
  | cons b l ih =>
    cases i with
    | zero =>
      obtain rfl : b = a := Option.some.inj ha
      rw [List.filter_cons_of_pos hpa]
      rfl
    | succ i =>
      rw [List.take_succ_cons, List.filter_cons, List.countP_cons]
      cases hb : p b with
      | false => exact ih ha
      | true =>
        rw [if_pos rfl, if_pos rfl, List.getElem?_cons_succ]
        exact ih ha

/-- A change of an entry is a change of what is made of the entry. -/
theorem map_modify {r : α → β} {g : β → β} (h : ∀ a, r (f a) = g (r a)) (l : List α) (i : Nat) :
    (l.modify i f).map r = (l.map r).modify i g := by
  induction l generalizing i with
  | nil => rw [List.modify_nil, List.map_nil, List.modify_nil]
  | cons a l ih =>
    cases i with
    | zero => rw [List.modify_zero_cons, List.map_cons, List.map_cons, List.modify_zero_cons, h]
    | succ i => rw [List.modify_succ_cons, List.map_cons, List.map_cons, List.modify_succ_cons, ih]

end

namespace Tree

variable {t : Tree} {i j i' j' : NodeId}

/-! ## What is left -/

theorem length_marks (t : Tree) : t.marks.length = t.size := by
  rw [marks, List.length_map, Array.length_toList, size]

theorem getElem?_marks (t : Tree) (i : NodeId) : t.marks[i]? = (t.node? i).map Node.isComment := by
  rw [marks, List.getElem?_map, Array.getElem?_toList, node?]

theorem size_withoutComments (t : Tree) : t.withoutComments.size = t.marks.count false := by
  unfold withoutComments size marks
  rw [List.size_toArray, List.length_map, List.count, List.countP_map, List.countP_eq_length_filter]
  congr 1
  refine List.filter_congr (fun n _ => ?_)
  cases h : n.isComment <;> simp [h]

theorem marks_alloc (t : Tree) (p : Payload) (l : Location) : (t.alloc p l).2.marks = t.marks ++ [p.kind == .comment] := by
  unfold alloc marks
  rw [Array.toList_push, List.map_append]
  rfl

theorem marks_update {f : Node → Node} (hf : ∀ n, (f n).isComment = n.isComment) (t : Tree) (i : NodeId) :
    (t.update i f).marks = t.marks := by
  unfold update marks
  rw [Array.toList_modify, map_modify (g := id) hf, List.modify_id]

/-- A comment that is made is gone again. -/
theorem withoutComments_alloc_comment (t : Tree) (text : String) (l : Location) :
    (t.alloc (.comment text) l).2.withoutComments = t.withoutComments := by
  have hmarks : (t.alloc (.comment text) l).2.marks = t.marks ++ [true] := marks_alloc t _ l
  have hnodes : ((t.alloc (.comment text) l).2.nodes.toList.filter (fun n => !n.isComment)) =
      t.nodes.toList.filter (fun n => !n.isComment) := by
    unfold alloc
    rw [Array.toList_push, List.filter_append]
    exact List.append_nil _
  unfold withoutComments
  rw [hmarks, newId?_append_true, hnodes]
  rfl

/-- A new node that is no comment is new in what is left as well. -/
theorem withoutComments_alloc (h : t.Closed) {p : Payload} (hkind : p.kind ≠ .comment) (hvalue : p.returnValue = none)
    (l : Location) : (t.alloc p l).2.withoutComments = (t.withoutComments.alloc p l).2 := by
  have hmark : (p.kind == Kind.comment) = false := by simpa using hkind
  have hmarks : (t.alloc p l).2.marks = t.marks ++ [false] := by rw [marks_alloc, hmark]
  have hlast : Node.isComment (.fresh p l) = false := hmark
  have hold : ∀ n ∈ t.nodes.toList.filter (fun n => !n.isComment),
      n.renumbered (newId? (t.marks ++ [false])) = n.renumbered (newId? t.marks) := by
    intro n hn
    obtain ⟨i, hi⟩ := List.getElem?_of_mem (List.mem_of_mem_filter hn)
    have hnode : t.node? i = some n := by rwa [Array.getElem?_toList] at hi
    refine Node.renumbered_congr (fun j hj => newId?_append ?_ _)
    rw [length_marks]
    exact h.node hnode j hj
  have hnodes : (((t.alloc p l).2.nodes.toList.filter (fun n => !n.isComment)).map (Node.renumbered (newId? (t.marks ++ [false])))) =
      (t.nodes.toList.filter (fun n => !n.isComment)).map (Node.renumbered (newId? t.marks)) ++ [.fresh p l] := by
    unfold alloc
    rw [Array.toList_push, List.filter_append, List.filter_cons_of_pos (by simp [hlast]), List.filter_nil, List.map_append,
      List.map_congr_left hold, List.map_singleton, Node.renumbered_fresh hvalue]
  have hroot : t.root.bind (newId? (t.marks ++ [false])) = t.root.bind (newId? t.marks) := by
    cases hr : t.root with
    | none => rfl
    | some r => exact newId?_append (by rw [length_marks]; exact h.root r hr) _
  have hroot' : (t.alloc p l).2.root = t.root := rfl
  unfold withoutComments
  rw [hmarks, hnodes, hroot', hroot, ← List.push_toArray]
  rfl

/-- A change that is not seen in a node that is left changes nothing. -/
theorem withoutComments_update_same {f : Node → Node} (hf : ∀ n, (f n).isComment = n.isComment)
    (h : ∀ n ∈ t.node? i, n.isComment = false → (f n).renumbered (newId? t.marks) = n.renumbered (newId? t.marks)) :
    (t.update i f).withoutComments = t.withoutComments := by
  have hnodes := map_filter_modify (p := fun n => !n.isComment) (r := Node.renumbered (newId? t.marks)) (l := t.nodes.toList) (i := i)
    (fun n => by rw [hf]) (fun n hn hleft => h n (by rwa [Array.getElem?_toList] at hn) (by simpa using hleft))
  rw [← Array.toList_modify] at hnodes
  unfold withoutComments
  rw [marks_update hf]
  unfold update
  rw [hnodes]

/-- A node with a new id is no comment, and the id counts the nodes before it that are none. -/
theorem exists_of_newId? (hi : newId? t.marks i = some i') : ∃ n, t.node? i = some n ∧ n.isComment = false ∧
    (t.nodes.toList.take i).countP (fun n => !n.isComment) = i' := by
  unfold newId? at hi
  split at hi
  · rename_i hmark
    obtain ⟨n, hn, hcomment⟩ := Option.map_eq_some_iff.1 ((getElem?_marks t i).symm.trans hmark)
    refine ⟨n, hn, hcomment, ?_⟩
    rw [← Option.some.inj hi, marks, ← List.map_take, List.count, List.countP_map]
    refine List.countP_congr (fun n _ => ?_)
    cases hn : n.isComment <;> simp [hn]
  · nomatch hi

/-- A node that is left stands at its new id. -/
theorem node?_withoutComments (hi : newId? t.marks i = some i') :
    ∃ n, t.node? i = some n ∧ t.withoutComments.node? i' = some (n.renumbered (newId? t.marks)) := by
  obtain ⟨n, hn, hcomment, hcount⟩ := exists_of_newId? hi
  have hnode : t.nodes.toList[i]? = some n := by rwa [Array.getElem?_toList]
  have hleft := getElem?_filter (p := fun n => !n.isComment) hnode (by simp [hcomment])
  rw [hcount] at hleft
  refine ⟨n, hn, ?_⟩
  unfold withoutComments node?
  rw [List.getElem?_toArray, List.getElem?_map, hleft, Option.map_some]

/-- A change of a node that is left is a change under its new id. -/
theorem withoutComments_update {f g : Node → Node} (hf : ∀ n, (f n).isComment = n.isComment) (hi : newId? t.marks i = some i')
    (h : ∀ n, (f n).renumbered (newId? t.marks) = g (n.renumbered (newId? t.marks))) :
    (t.update i f).withoutComments = t.withoutComments.update i' g := by
  obtain ⟨n, hn, hcomment, hcount⟩ := exists_of_newId? hi
  have hnode : t.nodes.toList[i]? = some n := by rwa [Array.getElem?_toList]
  have hnodes := filter_modify_of_pos (p := fun n => !n.isComment) hnode (by simp [hcomment]) (fun n => by rw [hf])
  rw [hcount, ← Array.toList_modify] at hnodes
  unfold withoutComments
  rw [marks_update hf]
  unfold update
  rw [hnodes, map_modify h, ← List.modify_toArray]

theorem withoutComments_setFlags (hi : newId? t.marks i = some i') (flags : List String) :
    (t.setFlags i flags).withoutComments = t.withoutComments.setFlags i' flags :=
  withoutComments_update (fun _ => rfl) hi (fun _ => rfl)

theorem marks_setFlags (t : Tree) (i : NodeId) (flags : List String) : (t.setFlags i flags).marks = t.marks := by
  have hf : ∀ n : Node, { n with flags := some flags : Node }.isComment = n.isComment := fun _ => rfl
  exact marks_update hf t i

theorem marks_setParent (t : Tree) (i p : NodeId) : (t.setParent i p).marks = t.marks := by
  have hf : ∀ n : Node, { n with parent := some p : Node }.isComment = n.isComment := fun _ => rfl
  exact marks_update hf t i

theorem marks_attach (t : Tree) (p c : NodeId) : (t.attach p c).marks = t.marks := by
  have hf : ∀ n : Node, { n with children := n.children ++ [c] : Node }.isComment = n.isComment := fun _ => rfl
  exact (marks_update hf _ p).trans (marks_setParent t c p)

theorem marks_attachComment (t : Tree) (p c : NodeId) : (t.attachComment p c).marks = t.marks := by
  have hf : ∀ n : Node, { n with comments := n.comments ++ [c] : Node }.isComment = n.isComment := fun _ => rfl
  exact (marks_update hf _ p).trans (marks_setParent t c p)

/-- A link between nodes that are left is a link between their new ids. -/
theorem withoutComments_attach (hi : newId? t.marks i = some i') (hj : newId? t.marks j = some j') :
    (t.attach i j).withoutComments = t.withoutComments.attach i' j' := by
  have hparent : (t.setParent j i).withoutComments = t.withoutComments.setParent j' i' := by
    refine withoutComments_update (fun _ => rfl) hj (fun n => ?_)
    unfold Node.renumbered
    dsimp only
    rw [Option.bind_some, hi]
  have hmarks := marks_setParent t j i
  unfold attach
  rw [← hparent]
  refine withoutComments_update (fun _ => rfl) (hmarks ▸ hi) (fun n => ?_)
  unfold Node.renumbered
  dsimp only
  rw [List.filterMap_append, hmarks, List.filterMap_cons_some hj, List.filterMap_nil]

/-- A comment that is linked is gone with its link. -/
theorem withoutComments_attachComment (hj : t.marks[j]? = some true) (i : NodeId) :
    (t.attachComment i j).withoutComments = t.withoutComments := by
  have hparent : (t.setParent j i).withoutComments = t.withoutComments := by
    refine withoutComments_update_same (fun _ => rfl) (fun n hn hleft => ?_)
    rw [getElem?_marks, hn, Option.map_some, hleft] at hj
    nomatch hj
  have hmarks := marks_setParent t j i
  unfold attachComment
  rw [← hparent]
  refine withoutComments_update_same (fun _ => rfl) (fun n _ _ => ?_)
  unfold Node.renumbered
  dsimp only
  rw [List.filterMap_append, hmarks, List.filterMap_cons_none (newId?_of_mark hj), List.filterMap_nil, List.append_nil]

theorem marks_attachComments (t : Tree) (p : NodeId) (comments : List NodeId) :
    (comments.foldl (fun t c => t.attachComment p c) t).marks = t.marks := by
  induction comments generalizing t with
  | nil => rfl
  | cons c rest ih => rw [List.foldl_cons, ih, marks_attachComment]

theorem withoutComments_attachComments {comments : List NodeId} (h : ∀ c ∈ comments, t.marks[c]? = some true) (p : NodeId) :
    (comments.foldl (fun t c => t.attachComment p c) t).withoutComments = t.withoutComments := by
  induction comments generalizing t with
  | nil => rfl
  | cons c rest ih =>
    have hrest : ∀ d ∈ rest, (t.attachComment p c).marks[d]? = some true := by
      intro d hd
      rw [marks_attachComment]
      exact h d (List.mem_cons_of_mem c hd)
    rw [List.foldl_cons, ih hrest, withoutComments_attachComment (h c List.mem_cons_self)]

theorem withoutComments_setRoot (hi : newId? t.marks i = some i') : (t.setRoot i).withoutComments = t.withoutComments.setRoot i' := by
  have hroot : (t.setRoot i).root.bind (newId? t.marks) = some i' := hi
  unfold withoutComments setRoot
  exact congrArg (Tree.mk _ _) hroot

/-! ## References -/

theorem closed_empty (file : String) : (empty file).Closed :=
  ⟨(fun h => nomatch h), (fun _ h => nomatch h)⟩

/-- A new node refers to none. -/
theorem Closed.alloc (h : t.Closed) {p : Payload} (hvalue : p.returnValue = none) (l : Location) : (t.alloc p l).2.Closed := by
  refine ⟨fun {i n} hn j hj => ?_, fun j hj => ?_⟩
  · rw [size_alloc]
    rw [node?_alloc] at hn
    split at hn
    · obtain rfl := Option.some.inj hn
      have hnone : Node.refs (.fresh p l) = [] := by simp [Node.refs, Node.fresh, hvalue]
      rw [hnone] at hj
      nomatch hj
    · exact Nat.lt_succ_of_lt (h.node hn j hj)
  · rw [size_alloc]
    exact Nat.lt_succ_of_lt (h.root j hj)

/-- A change that refers to nothing new but nodes that are there. -/
theorem Closed.update (h : t.Closed) {f : Node → Node} (hf : ∀ n, ∀ j ∈ (f n).refs, j ∈ n.refs ∨ j < t.size) (i : NodeId) :
    (t.update i f).Closed := by
  refine ⟨fun {k n} hn j hj => ?_, fun j hj => ?_⟩
  · rw [size_update]
    rw [node?_update] at hn
    split at hn
    · obtain ⟨m, hm, rfl⟩ := Option.map_eq_some_iff.1 hn
      rcases hf m j hj with hj | hj
      · exact h.node hm j hj
      · exact hj
    · exact h.node hn j hj
  · rw [size_update]
    exact h.root j hj

theorem Closed.setFlags (h : t.Closed) (i : NodeId) (flags : List String) : (t.setFlags i flags).Closed :=
  h.update (f := fun n => { n with flags := some flags }) (fun _ _ hj => .inl hj) i

theorem Closed.setParent (h : t.Closed) (i : NodeId) {p : NodeId} (hp : p < t.size) : (t.setParent i p).Closed := by
  refine h.update (fun n j hj => ?_) i
  simp only [Node.refs, Option.toList_some, List.mem_append, List.mem_cons, List.not_mem_nil, or_false] at hj ⊢
  rcases hj with ((rfl | hj) | hj) | hj
  · exact .inr hp
  · exact .inl (.inl (.inl (.inr hj)))
  · exact .inl (.inl (.inr hj))
  · exact .inl (.inr hj)

theorem Closed.attach (h : t.Closed) (hp : i < t.size) (hc : j < t.size) : (t.attach i j).Closed := by
  have hsize : (t.setParent j i).size = t.size := size_update t j _
  refine (h.setParent j hp).update (fun n k hk => ?_) i
  rw [hsize]
  simp only [Node.refs, List.mem_append, List.mem_cons, List.not_mem_nil, or_false] at hk ⊢
  rcases hk with ((hk | hk | rfl) | hk) | hk
  · exact .inl (.inl (.inl (.inl hk)))
  · exact .inl (.inl (.inl (.inr hk)))
  · exact .inr hc
  · exact .inl (.inl (.inr hk))
  · exact .inl (.inr hk)

theorem Closed.attachComment (h : t.Closed) (hp : i < t.size) (hc : j < t.size) : (t.attachComment i j).Closed := by
  have hsize : (t.setParent j i).size = t.size := size_update t j _
  refine (h.setParent j hp).update (fun n k hk => ?_) i
  rw [hsize]
  simp only [Node.refs, List.mem_append, List.mem_cons, List.not_mem_nil, or_false] at hk ⊢
  rcases hk with (hk | hk | rfl) | hk
  · exact .inl (.inl (.inl hk))
  · exact .inl (.inl (.inr hk))
  · exact .inr hc
  · exact .inl (.inr hk)

theorem Closed.attachComments (h : t.Closed) (hp : i < t.size) {comments : List NodeId} (hc : ∀ c ∈ comments, c < t.size) :
    (comments.foldl (fun t c => t.attachComment i c) t).Closed := by
  induction comments generalizing t with
  | nil => exact h
  | cons c rest ih =>
    have hsize : (t.attachComment i c).size = t.size := size_attachComment t i c
    refine ih (h.attachComment hp (hc c List.mem_cons_self)) (hsize ▸ hp) (fun d hd => ?_)
    rw [hsize]
    exact hc d (List.mem_cons_of_mem c hd)

end Tree

/-! ## Kinds -/

theorem Node.kind_renumbered (f : NodeId → Option NodeId) (n : Node) : (n.renumbered f).kind = n.kind := by
  have hpayload : ∀ p : Payload, (p.renumbered f).kind = p.kind := fun p => by cases p <;> rfl
  exact hpayload n.payload

theorem Node.kind_scrub (mark : Nat) (n : Node) : (n.scrub mark).kind = n.kind := by
  have hpayload : ∀ p : Payload, (p.filterReturnValue (· < mark)).kind = p.kind := fun p => by cases p <;> rfl
  exact hpayload n.payload

namespace Tree

/-- The kinds of the nodes, in the order in which the nodes were made. -/
def kinds (t : Tree) : List Kind :=
  t.nodes.toList.map Node.kind

/-- The nodes of the second tree are of the kinds of the nodes of the first that are no comments, in the same order. -/
def Bares (t t' : Tree) : Prop :=
  t'.kinds = t.kinds.filter (· != .comment)

variable {t t' : Tree}

theorem length_kinds (t : Tree) : t.kinds.length = t.size := by
  rw [kinds, List.length_map, Array.length_toList, size]

theorem marks_eq_kinds (t : Tree) : t.marks = t.kinds.map (· == .comment) := by
  rw [kinds, List.map_map]
  rfl

/-- As many nodes are no comments as there are marks that say so. -/
theorem length_filter_kinds (kinds : List Kind) :
    (kinds.filter (· != .comment)).length = (kinds.map (· == .comment)).count false := by
  rw [List.count, List.countP_map, List.countP_eq_length_filter]
  congr 1
  refine List.filter_congr (fun kind _ => ?_)
  cases h : kind == .comment <;> simp [bne, h]

theorem kind?_eq_head? (t : Tree) (i : NodeId) : t.kind? i = (t.kinds.drop i).head? := by
  rw [List.head?_drop, kinds, List.getElem?_map, Array.getElem?_toList, kind?, node?]

theorem bares_withoutComments (t : Tree) : t.Bares t.withoutComments := by
  unfold Bares withoutComments kinds
  rw [List.filter_map, List.map_map]
  exact List.map_congr_left (fun n _ => Node.kind_renumbered _ n)

/-- What a destruction leaves is of the kinds that it was of. -/
theorem kinds_discardFrom (t : Tree) (mark : Nat) : (t.discardFrom mark).2.kinds = t.kinds.take mark := by
  by_cases hmark : mark < t.size
  · have hnode : t.node? mark = some t.nodes[mark] := Array.getElem?_eq_getElem hmark
    have hscrub : Node.kind ∘ Node.scrub mark = Node.kind := funext (Node.kind_scrub mark)
    unfold discardFrom kinds
    rw [hnode, Array.toList_map, List.map_map, hscrub, Array.toList_extract, List.extract_eq_take_drop, List.drop_zero,
      Nat.sub_zero, List.map_take]
  · have hle : t.size ≤ mark := Nat.le_of_not_lt hmark
    rw [discardFrom_of_size_le hle, List.take_of_length_le (t.length_kinds ▸ hle)]

/-- Two trees stay so when each is cut at a mark, if the second mark counts the nodes before the first that are no comments. The node
that is destroyed first in the second tree is no comment, and in the first tree it is of the same kind or a comment. -/
theorem Bares.discardFrom (h : t.Bares t') {mark mark' : Nat} (hmark : mark' = ((t.kinds.take mark).filter (· != .comment)).length) :
    (t.discardFrom mark).2.Bares (t'.discardFrom mark').2 ∧ (t'.discardFrom mark').1 ≠ some .comment ∧
      ((t.discardFrom mark).1 = (t'.discardFrom mark').1 ∨ (t.discardFrom mark).1 = some .comment) := by
  have hsplit : t'.kinds = (t.kinds.take mark).filter (· != .comment) ++ (t.kinds.drop mark).filter (· != .comment) := by
    rw [← List.filter_append, List.take_append_drop, h]
  have hfirst' : (t'.discardFrom mark').1 = ((t.kinds.drop mark).filter (· != .comment)).head? := by
    rw [fst_discardFrom, kind?_eq_head?, hsplit, hmark, List.drop_left]
  rw [hfirst', fst_discardFrom, kind?_eq_head?]
  refine ⟨?_, fun hcomment => ?_, ?_⟩
  · rw [Bares, kinds_discardFrom, kinds_discardFrom, hsplit, hmark, List.take_left]
  · simpa using (List.mem_filter.1 (List.mem_of_mem_head? hcomment)).2
  · cases t.kinds.drop mark with
    | nil => exact .inl rfl
    | cons kind rest =>
      by_cases hkind : kind = .comment
      · exact .inr (congrArg some hkind)
      · rw [List.filter_cons_of_pos (by simpa using hkind)]
        exact .inl rfl

end Tree

end Courier
