import Courier.Tree.Basic
import Mathlib.Logic.Relation

/-!
# Forests

While it grows, a tree is a forest: every link is there on both sides and only once, and above every node there is one without a
parent (`Forest`, which lists those). A new node is one more of them (`Forest.alloc`), and linking one of them below another takes it
off the list (`Forest.attach`, `Forest.attachComment`). A forest with one node of this kind is one tree (`Forest.isTree`).
-/

namespace Courier

/-- The children and the comments of a node. -/
def Node.links (n : Node) : List NodeId :=
  n.children ++ n.comments

namespace Tree

/-! ## What a tree shows of its links -/

/-- A part of the node of an id, or what stands for it where no node is. -/
def part {β : Type} (t : Tree) (absent : β) (g : Node → β) (id : NodeId) : β :=
  (t.node? id).elim absent g

/-- The parent of a node. -/
def parent? (t : Tree) : NodeId → Option NodeId :=
  t.part none Node.parent

/-- The children and the comments of the node of an id. -/
def links (t : Tree) : NodeId → List NodeId :=
  t.part [] Node.links

/-- The return value of a message. -/
def returnValue? (t : Tree) : NodeId → Option NodeId :=
  t.part none (fun n => n.payload.returnValue)

/-- The children and the comments of all nodes together. -/
def listed (t : Tree) : List NodeId :=
  t.ids.flatMap t.links

/-- Following parents from a node leads to another one, or the two are the same. -/
def Ascends (t : Tree) : NodeId → NodeId → Prop :=
  Relation.ReflTransGen (fun child parent => t.parent? child = some parent)

/-- The links of the nodes are those of a forest, in which the nodes without a parent are the given ones. -/
structure Forest (t : Tree) (roots : List NodeId) : Prop where
  /-- A node lists another exactly if it is the parent of that, and lists it once. -/
  mirrored (parent child : NodeId) : (t.links parent).count child = if t.parent? child = some parent then 1 else 0
  nodup : roots.Nodup
  mem_roots (id : NodeId) : id ∈ roots ↔ id < t.size ∧ t.parent? id = none
  grounded {id : NodeId} (h : id < t.size) : ∃ root ∈ roots, t.Ascends id root
  unanswered (id : NodeId) : t.returnValue? id = none

/-- The nodes are exactly one tree below its root. -/
structure IsTree (t : Tree) (root : NodeId) : Prop where
  root_eq : t.root = some root
  root_lt : root < t.size
  /-- Only the root has no parent. -/
  parentless {id : NodeId} (h : id < t.size) : t.parent? id = none ↔ id = root
  /-- What a node lists as its child or comment is there and has it as its parent. -/
  listed_below {id : NodeId} {n : Node} (h : t.node? id = some n) {child : NodeId} (hc : child ∈ n.children ++ n.comments) :
    child < t.size ∧ t.parent? child = some id
  once {id : NodeId} (h : id < t.size) (hne : id ≠ root) : t.listed.count id = 1
  grounded {id : NodeId} (h : id < t.size) : t.Ascends id root
  unanswered {id : NodeId} {n : Node} (h : t.node? id = some n) : n.payload.returnValue = none

section

variable {t : Tree} {id i : NodeId} {roots : List NodeId}

theorem part_of_node? {β : Type} {absent : β} {g : Node → β} {n : Node} (h : t.node? id = some n) :
    t.part absent g id = g n := by
  unfold part
  rw [h]
  rfl

/-- Where a part is not what stands for no node, there is a node. -/
theorem lt_size_of_part {β : Type} {absent : β} {g : Node → β} (h : t.part absent g id ≠ absent) : id < t.size := by
  cases hn : t.node? id with
  | none => exact absurd (by unfold part; rw [hn]; rfl) h
  | some n => exact lt_size_of_node? hn

theorem lt_size_of_parent? {p : NodeId} (h : t.parent? id = some p) : id < t.size := by
  have hsome : t.part none Node.parent id ≠ none := fun hnone => nomatch h.symm.trans hnone
  exact lt_size_of_part hsome

/-! ## What the operations show -/

/-- A new node shows what stands for no node, if that is what it holds. -/
theorem part_alloc {β : Type} {absent : β} {g : Node → β} {p : Payload} {l : Location} (h : g (.fresh p l) = absent)
    (t : Tree) (i : NodeId) : (t.alloc p l).2.part absent g i = t.part absent g i := by
  have hsize : t.node? t.size = none := Array.getElem?_eq_none (Nat.le_refl _)
  unfold part
  rw [node?_alloc]
  split
  · rename_i hi
    rw [hi, hsize]
    exact h
  · rfl

theorem part_update {β : Type} (absent : β) (g : Node → β) (f : Node → Node) (t : Tree) (id i : NodeId) :
    (t.update id f).part absent g i = if i = id then t.part absent (fun n => g (f n)) i else t.part absent g i := by
  unfold part
  rw [node?_update]
  split
  · cases t.node? i <;> rfl
  · rfl

/-- A change that leaves a part of a node as it is changes it nowhere. -/
theorem part_update_same {β : Type} {absent : β} {g : Node → β} {f : Node → Node} (h : ∀ n, g (f n) = g n) (t : Tree)
    (id i : NodeId) : (t.update id f).part absent g i = t.part absent g i := by
  rw [part_update, show (fun n => g (f n)) = g from funext h, ite_self]

theorem part_setParent {β : Type} {absent : β} {g : Node → β} (h : ∀ n p, g { n with parent := some p } = g n) (t : Tree)
    (id parent i : NodeId) : (t.setParent id parent).part absent g i = t.part absent g i :=
  part_update_same (fun n => h n parent) t id i

/-! ## Growing a forest -/

theorem forest_empty (file : String) : Forest (empty file) [] where
  mirrored _ _ := rfl
  nodup := List.nodup_nil
  mem_roots id := by simp
  grounded h := absurd h (Nat.not_lt_zero _)
  unanswered _ := rfl

theorem Forest.perm {roots' : List NodeId} (h : Forest t roots) (hp : roots.Perm roots') : Forest t roots' where
  mirrored := h.mirrored
  nodup := hp.nodup_iff.1 h.nodup
  mem_roots id := by rw [← hp.mem_iff, h.mem_roots]
  grounded hid := by
    obtain ⟨root, hroot, hasc⟩ := h.grounded hid
    exact ⟨root, hp.mem_iff.1 hroot, hasc⟩
  unanswered := h.unanswered

/-- A tree with the same nodes, as far as links and return values go, is a forest as well. -/
theorem Forest.same {t' : Tree} (h : Forest t roots) (hsize : t'.size = t.size) (hparent : ∀ i, t'.parent? i = t.parent? i)
    (hlinks : ∀ i, t'.links i = t.links i) (hvalue : ∀ i, t'.returnValue? i = t.returnValue? i) : Forest t' roots where
  mirrored p c := by rw [hlinks, hparent, h.mirrored]
  nodup := h.nodup
  mem_roots id := by rw [hsize, hparent, h.mem_roots]
  grounded hid := by
    obtain ⟨root, hroot, hasc⟩ := h.grounded (hsize ▸ hid)
    exact ⟨root, hroot, Relation.ReflTransGen.mono (fun a b hab => (hparent a).trans hab) _ _ hasc⟩
  unanswered i := by rw [hvalue, h.unanswered]

theorem Forest.update {f : Node → Node} (h : Forest t roots) (hparent : ∀ n, (f n).parent = n.parent)
    (hlinks : ∀ n, (f n).links = n.links) (hpayload : ∀ n, (f n).payload = n.payload) (id : NodeId) :
    Forest (t.update id f) roots :=
  h.same (size_update t id f) (part_update_same hparent t id) (part_update_same hlinks t id)
    (part_update_same (fun n => by rw [hpayload]) t id)

theorem Forest.setFlags (h : Forest t roots) (id : NodeId) (flags : List String) : Forest (t.setFlags id flags) roots :=
  h.update (f := fun n => { n with flags := some flags }) (fun _ => rfl) (fun _ => rfl) (fun _ => rfl) id

/-- A new node has no parent and no links. -/
theorem Forest.alloc (h : Forest t roots) {p : Payload} (hp : p.returnValue = none) (l : Location) :
    Forest (t.alloc p l).2 (t.size :: roots) := by
  have hparent : ∀ i, (t.alloc p l).2.parent? i = t.parent? i := part_alloc (g := Node.parent) rfl t
  have hlinks : ∀ i, (t.alloc p l).2.links i = t.links i := part_alloc (g := Node.links) rfl t
  have hvalue : ∀ i, (t.alloc p l).2.returnValue? i = t.returnValue? i :=
    part_alloc (g := fun n => n.payload.returnValue) hp t
  have hnew : t.parent? t.size = none := by
    cases hsize : t.parent? t.size with
    | none => rfl
    | some q => exact absurd (lt_size_of_parent? hsize) (Nat.lt_irrefl _)
  refine ⟨?_, ?_, ?_, ?_, ?_⟩
  · intro q c
    rw [hlinks, hparent, h.mirrored]
  · refine List.nodup_cons.2 ⟨fun hmem => ?_, h.nodup⟩
    exact Nat.lt_irrefl _ ((h.mem_roots _).1 hmem).1
  · intro id
    rw [List.mem_cons, h.mem_roots, size_alloc, hparent]
    constructor
    · rintro (rfl | ⟨hlt, hnone⟩)
      · exact ⟨Nat.lt_succ_self _, hnew⟩
      · exact ⟨Nat.lt_succ_of_lt hlt, hnone⟩
    · rintro ⟨hlt, hnone⟩
      rcases Nat.lt_succ_iff_lt_or_eq.1 hlt with hlt | heq
      · exact .inr ⟨hlt, hnone⟩
      · exact .inl heq
  · intro id hid
    rw [size_alloc] at hid
    rcases Nat.lt_succ_iff_lt_or_eq.1 hid with hlt | rfl
    · obtain ⟨root, hroot, hasc⟩ := h.grounded hlt
      exact ⟨root, List.mem_cons_of_mem _ hroot, Relation.ReflTransGen.mono (fun a b hab => (hparent a).trans hab) _ _ hasc⟩
    · exact ⟨t.size, List.mem_cons_self, .refl⟩
  · intro i
    rw [hvalue, h.unanswered]

/-- In the second tree the child is linked below the parent, once more than in the first, and nothing else has changed. -/
structure Linked (t t' : Tree) (parent child : NodeId) : Prop where
  size_eq : t'.size = t.size
  parent?_eq (i : NodeId) : t'.parent? i = if i = child then some parent else t.parent? i
  count_eq (p c : NodeId) : (t'.links p).count c = (t.links p).count c + if p = parent ∧ c = child then 1 else 0
  returnValue?_eq (i : NodeId) : t'.returnValue? i = t.returnValue? i

/-- Naming the parent of a node and listing the node there links the two. -/
theorem linked_update {f : Node → Node} {parent child : NodeId} (hp : parent < t.size) (hc : child < t.size)
    (hparent : ∀ n, (f n).parent = n.parent) (hpayload : ∀ n, (f n).payload = n.payload)
    (hlinks : ∀ n c, (f n).links.count c = n.links.count c + if c = child then 1 else 0) :
    Linked t ((t.setParent child parent).update parent f) parent child where
  size_eq := by rw [size_update, setParent, size_update]
  parent?_eq i := by
    unfold parent?
    rw [part_update_same hparent, setParent, part_update]
    split
    · rename_i hi
      subst hi
      obtain ⟨n, hn⟩ : ∃ n, t.node? i = some n := ⟨t.nodes[i], Array.getElem?_eq_getElem hc⟩
      exact part_of_node? hn
    · rfl
  count_eq p c := by
    have hset : (t.setParent child parent).links = t.links := funext (part_setParent (fun _ _ => rfl) t child parent)
    by_cases hparent : p = parent
    · subst hparent
      have hlt : p < (t.setParent child p).size := by rw [setParent, size_update]; exact hp
      obtain ⟨n, hn⟩ : ∃ n, (t.setParent child p).node? p = some n := ⟨_, Array.getElem?_eq_getElem hlt⟩
      have hold : t.links p = n.links := by rw [← hset]; exact part_of_node? hn
      have hnew : ((t.setParent child p).update p f).links p = (f n).links := by
        unfold links
        rw [part_update, if_pos rfl, part_of_node? hn]
      rw [hnew, hold, hlinks]
      simp
    · have hnew : ((t.setParent child parent).update parent f).links p = t.links p := by
        rw [← hset]
        unfold links
        rw [part_update, if_neg hparent]
      rw [hnew]
      simp [hparent]
  returnValue?_eq i := by
    unfold returnValue?
    rw [part_update_same (fun n => by rw [hpayload]), part_setParent (fun _ _ => rfl)]

theorem count_singleton (child c : NodeId) : [child].count c = if c = child then 1 else 0 := by
  by_cases h : c = child
  · simp [h]
  · simp [h, Ne.symm h]

theorem linked_attach {parent child : NodeId} (hp : parent < t.size) (hc : child < t.size) :
    Linked t (t.attach parent child) parent child := by
  refine linked_update hp hc (fun _ => rfl) (fun _ => rfl) (fun n c => ?_)
  have hone := count_singleton child c
  simp only [Node.links, List.count_append, hone]
  omega

theorem linked_attachComment {parent child : NodeId} (hp : parent < t.size) (hc : child < t.size) :
    Linked t (t.attachComment parent child) parent child := by
  refine linked_update hp hc (fun _ => rfl) (fun _ => rfl) (fun n c => ?_)
  have hone := count_singleton child c
  simp only [Node.links, List.count_append, hone]
  omega

/-- Of two nodes without a parent, one may be linked below the other, and has a parent from then on. -/
theorem Forest.link {t' : Tree} {parent child : NodeId} (h : Forest t (child :: roots)) (hp : parent ∈ roots)
    (hl : Linked t t' parent child) : Forest t' roots := by
  obtain ⟨hchild, hnodup⟩ := List.nodup_cons.1 h.nodup
  have hcnone : t.parent? child = none := ((h.mem_roots child).1 List.mem_cons_self).2
  have hne : ∀ {i}, i ∈ roots → i ≠ child := fun hi heq => hchild (heq ▸ hi)
  -- No step upwards is lost: the child had none.
  have hstep : ∀ a b, t.parent? a = some b → t'.parent? a = some b := by
    intro a b hab
    rw [hl.parent?_eq, if_neg]
    · exact hab
    · rintro rfl
      rw [hcnone] at hab
      nomatch hab
  refine ⟨?_, hnodup, ?_, ?_, ?_⟩
  · intro p c
    rw [hl.count_eq, h.mirrored, hl.parent?_eq]
    by_cases hc : c = child
    · subst hc
      rw [hcnone]
      simp [eq_comm]
    · simp [hc]
  · intro id
    rw [hl.size_eq, hl.parent?_eq]
    by_cases hid : id = child
    · subst hid
      simp [hchild]
    · rw [if_neg hid, ← h.mem_roots, List.mem_cons]
      simp [hid]
  · intro id hid
    rw [hl.size_eq] at hid
    obtain ⟨root, hroot, hasc⟩ := h.grounded hid
    have hasc' : t'.Ascends id root := Relation.ReflTransGen.mono hstep _ _ hasc
    rcases List.mem_cons.1 hroot with rfl | hroot
    · exact ⟨parent, hp, hasc'.tail (by rw [hl.parent?_eq, if_pos rfl])⟩
    · exact ⟨root, hroot, hasc'⟩
  · intro i
    rw [hl.returnValue?_eq, h.unanswered]

theorem Forest.lt_size (h : Forest t roots) (hid : id ∈ roots) : id < t.size :=
  ((h.mem_roots id).1 hid).1

theorem Forest.attach {parent child : NodeId} (h : Forest t (child :: roots)) (hp : parent ∈ roots) :
    Forest (t.attach parent child) roots :=
  h.link hp (linked_attach (h.lt_size (List.mem_cons_of_mem _ hp)) (h.lt_size List.mem_cons_self))

theorem Forest.attachComment {parent child : NodeId} (h : Forest t (child :: roots)) (hp : parent ∈ roots) :
    Forest (t.attachComment parent child) roots :=
  h.link hp (linked_attachComment (h.lt_size (List.mem_cons_of_mem _ hp)) (h.lt_size List.mem_cons_self))

/-- Comments without a parent may be linked below one node in turn. -/
theorem Forest.attachComments {parent : NodeId} {comments : List NodeId} (h : Forest t (comments ++ roots))
    (hp : parent ∈ roots) : Forest (comments.foldl (fun t c => t.attachComment parent c) t) roots := by
  induction comments generalizing t with
  | nil => exact h
  | cons c comments ih => exact ih (h.attachComment (List.mem_append_right _ hp))

/-- A node without a parent may be linked: the parser's assertion holds there. -/
theorem Forest.hasParent_eq (h : Forest t roots) (hid : id ∈ roots) : t.hasParent id = false := by
  have hnone := ((h.mem_roots id).1 hid).2
  unfold hasParent
  cases hn : t.node? id with
  | none => rfl
  | some n =>
    have hparent : n.parent = none := (part_of_node? hn).symm.trans hnone
    simp [hparent]

/-! ## One tree -/

/-- If one element's list holds a value once and the others' do not, all lists together hold it as often as that element is
there. -/
theorem count_flatMap_of_unique {f : NodeId → List NodeId} {c q : NodeId}
    (h : ∀ p, (f p).count c = if p = q then 1 else 0) (ps : List NodeId) : (ps.flatMap f).count c = ps.count q := by
  induction ps with
  | nil => rfl
  | cons p ps ih =>
    rw [List.flatMap_cons, List.count_append, h, ih, List.count_cons, Nat.add_comm]
    simp

/-- In a forest a node is listed once if it has a parent. -/
theorem Forest.count_listed (h : Forest t roots) (hid : id < t.size) (hnot : id ∉ roots) : t.listed.count id = 1 := by
  obtain ⟨parent, hparent⟩ : ∃ parent, t.parent? id = some parent := by
    cases hnone : t.parent? id with
    | none => exact absurd ((h.mem_roots id).2 ⟨hid, hnone⟩) hnot
    | some parent => exact ⟨parent, rfl⟩
  have hone : ∀ p, (t.links p).count id = if p = parent then 1 else 0 := by
    intro p
    rw [h.mirrored, hparent]
    simp [eq_comm]
  have hlt : parent < t.size := by
    have hlists : t.part [] Node.links parent ≠ [] := by
      intro hnil
      have hcount := hone parent
      rw [if_pos rfl, links, hnil] at hcount
      nomatch hcount
    exact lt_size_of_part hlists
  unfold listed ids
  rw [count_flatMap_of_unique hone, List.count_range, if_pos hlt]

/-- A forest with one node that has no parent is one tree below that node. -/
theorem Forest.isTree {root : NodeId} (h : Forest t [root]) : IsTree (t.setRoot root) root where
  root_eq := rfl
  root_lt := h.lt_size (List.mem_singleton.2 rfl)
  parentless {id} hid := by
    rw [← List.mem_singleton (a := id), h.mem_roots]
    exact ⟨fun hnone => ⟨hid, hnone⟩, fun hboth => hboth.2⟩
  listed_below {id n} hn {child} hc := by
    have hlinks : t.links id = n.children ++ n.comments := part_of_node? hn
    have hpos : 0 < (t.links id).count child := by rw [hlinks]; exact List.count_pos_iff.2 hc
    rw [h.mirrored] at hpos
    by_cases hparent : t.parent? child = some id
    · exact ⟨lt_size_of_parent? hparent, hparent⟩
    · rw [if_neg hparent] at hpos
      exact absurd hpos (Nat.lt_irrefl _)
  once {id} hid hne := h.count_listed hid (fun hmem => hne (List.mem_singleton.1 hmem))
  grounded {id} hid := by
    obtain ⟨r, hr, hasc⟩ := h.grounded hid
    rw [List.mem_singleton.1 hr] at hasc
    exact hasc
  unanswered {id n} hn := (part_of_node? hn).symm.trans (h.unanswered id)

end

end Tree

end Courier
