import Courier.Proofs.Tree.Levels
import Mathlib.Data.Set.Card

/-!
# Trees below their roots

Nothing keeps the nodes of an array from being linked in any way, and what goes down a tree sees only those below the root. These form a
tree if each of them is listed once and the root is not (`Tree.Branches`). Then no way leads from a node back to itself
(`Tree.Branches.not_ring`), the ancestors of a node are those of its parent and the parent (`Tree.Branches.depth_below`), and so there are
no more levels than nodes (`Tree.Branches.hasLevels`).
-/

namespace Courier.Tree

/-- Comments, children and return values lead from a node to another one, or the two are the same. -/
def Reaches (t : Tree) : NodeId → NodeId → Prop :=
  Relation.ReflTransGen (fun p c => c ∈ t.below p)

/-- A node is the root or below it. -/
def Reachable (t : Tree) (id : NodeId) : Prop :=
  ∃ root, t.root = some root ∧ t.Reaches root id

/-- The comments that the node of an id lists. -/
def commentsOf (t : Tree) : NodeId → List NodeId :=
  t.part [] Node.comments

/-- The root and the nodes below it, by comments, children and return values, are a tree, and its comments are leaves. -/
structure Branches (t : Tree) : Prop where
  present {id : NodeId} (h : t.Reachable id) : id < t.size
  nodup {id : NodeId} (h : t.Reachable id) : (t.below id).Nodup
  once {p q c : NodeId} (hp : t.Reachable p) (hq : t.Reachable q) (hc : c ∈ t.below p) (hc' : c ∈ t.below q) : p = q
  top {root p : NodeId} (hroot : t.root = some root) (hp : t.Reachable p) : root ∉ t.below p
  comments {p c : NodeId} (hp : t.Reachable p) (hc : c ∈ t.commentsOf p) : (t.commentText? c).isSome = true ∧ t.below c = []

/-- The proper ancestors of a node. -/
def ancestors (t : Tree) (id : NodeId) : Set NodeId :=
  {p | p ≠ id ∧ t.Reachable p ∧ t.Reaches p id}

/-- The number of proper ancestors of a node. -/
noncomputable def depth (t : Tree) (id : NodeId) : Nat :=
  (t.ancestors id).ncard

variable {t : Tree} {p c id x : NodeId} {levels : Nat}

theorem mem_below_of_mem_commentsOf (h : c ∈ t.commentsOf p) : c ∈ t.below p := by
  obtain ⟨n, hn⟩ := exists_node? (lt_size_of_part (List.ne_nil_of_mem h))
  rw [commentsOf, part_of_node? hn] at h
  rw [below, part_of_node? hn]
  exact List.mem_append_left _ h

theorem Reachable.below (h : t.Reachable p) (hc : c ∈ t.below p) : t.Reachable c := by
  obtain ⟨root, hroot, hreaches⟩ := h
  exact ⟨root, hroot, hreaches.tail hc⟩

theorem Reachable.reaches (h : t.Reachable p) (hc : t.Reaches p c) : t.Reachable c := by
  obtain ⟨root, hroot, hreaches⟩ := h
  exact ⟨root, hroot, hreaches.trans hc⟩

/-- What leads to a node, other than itself, leads to the one that lists it. -/
theorem Branches.reaches_parent (h : t.Branches) (hp : t.Reachable p) (hc : c ∈ t.below p) {q : NodeId} (hq : t.Reachable q)
    (hqc : t.Reaches q c) : q = c ∨ t.Reaches q p := by
  rcases Relation.ReflTransGen.cases_tail hqc with heq | ⟨p', hp', hc'⟩
  · exact .inl heq.symm
  · rw [h.once hp (hq.reaches hp') hc hc']
    exact .inr hp'

/-- No way leads from a node down to itself. -/
theorem Branches.not_ring (h : t.Branches) (hp : t.Reachable p) (hc : c ∈ t.below p) : ¬ t.Reaches c p := by
  obtain ⟨root, hroot, hreaches⟩ := hp
  induction hreaches generalizing c with
  | refl =>
    intro hring
    rcases Relation.ReflTransGen.cases_tail hring with heq | ⟨q, hq, hlist⟩
    · exact h.top hroot ⟨root, hroot, .refl⟩ (heq ▸ hc)
    · exact h.top hroot (Reachable.reaches ⟨root, hroot, .single hc⟩ hq) hlist
  | @tail q p hq hlist ih =>
    intro hring
    have hq' : t.Reachable q := ⟨root, hroot, hq⟩
    have hc' : t.Reachable c := (hq'.below hlist).below hc
    rcases h.reaches_parent hq' hlist hc' hring with rfl | hup
    · obtain rfl := h.once hq' (hq'.below hlist) hlist hc
      exact ih hlist .refl
    · exact ih hlist (.head hc hup)

/-- It is enough that all nodes are a tree, or several. -/
theorem branches_of_nodes (hroot : ∀ root ∈ t.root, root < t.size ∧ ∀ p < t.size, root ∉ t.below p)
    (hpresent : ∀ p < t.size, ∀ c ∈ t.below p, c < t.size) (hnodup : ∀ p < t.size, (t.below p).Nodup)
    (honce : ∀ p < t.size, ∀ q < t.size, ∀ c ∈ t.below p, c ∈ t.below q → p = q)
    (hcomments : ∀ p < t.size, ∀ c ∈ t.commentsOf p, (t.commentText? c).isSome = true ∧ t.below c = []) : t.Branches := by
  have hlt : ∀ {id}, t.Reachable id → id < t.size := by
    rintro id ⟨root, hmem, hreaches⟩
    induction hreaches with
    | refl => exact (hroot root hmem).1
    | tail _ hc ih => exact hpresent _ ih _ hc
  exact ⟨hlt, fun h => hnodup _ (hlt h), fun hp hq hc hc' => honce _ (hlt hp) _ (hlt hq) _ hc hc',
    fun hmem hp => (hroot _ hmem).2 _ (hlt hp), fun hp hc => hcomments _ (hlt hp) _ hc⟩

/-! ## Ancestors -/

/-- The ancestors of a node are those of the node that lists it, and that one. -/
theorem Branches.ancestors_below (h : t.Branches) (hp : t.Reachable p) (hc : c ∈ t.below p) :
    t.ancestors c = insert p (t.ancestors p) := by
  ext q
  constructor
  · rintro ⟨hne, hq, hqc⟩
    rcases h.reaches_parent hp hc hq hqc with rfl | hqp
    · exact absurd rfl hne
    · by_cases heq : q = p
      · exact .inl heq
      · exact .inr ⟨heq, hq, hqp⟩
  · rintro (rfl | ⟨-, hq, hqp⟩)
    · exact ⟨fun heq => h.not_ring hp hc (heq ▸ .refl), hp, .single hc⟩
    · exact ⟨fun heq => h.not_ring hp hc (heq ▸ hqp), hq, hqp.tail hc⟩

theorem Branches.ancestors_subset (h : t.Branches) (id : NodeId) : t.ancestors id ⊆ ↑(Finset.range t.size) :=
  fun _ hq => Finset.mem_coe.2 (Finset.mem_range.2 (h.present hq.2.1))

theorem Branches.ancestors_finite (h : t.Branches) (id : NodeId) : (t.ancestors id).Finite :=
  (Finset.finite_toSet _).subset (h.ancestors_subset id)

theorem Branches.depth_below (h : t.Branches) (hp : t.Reachable p) (hc : c ∈ t.below p) : t.depth c = t.depth p + 1 := by
  rw [depth, h.ancestors_below hp hc]
  exact Set.ncard_insert_of_notMem (fun hmem => hmem.1 rfl) (h.ancestors_finite p)

theorem Branches.depth_root {root : NodeId} (h : t.Branches) (hroot : t.root = some root) : t.depth root = 0 := by
  have hempty : t.ancestors root = ∅ := by
    refine Set.eq_empty_of_forall_notMem (fun q hq => ?_)
    obtain ⟨hne, hreachable, hreaches⟩ := hq
    rcases Relation.ReflTransGen.cases_tail hreaches with heq | ⟨p, hp, hlist⟩
    · exact hne heq.symm
    · exact h.top hroot (hreachable.reaches hp) hlist
  rw [depth, hempty, Set.ncard_empty]

theorem Branches.depth_lt (h : t.Branches) (hid : t.Reachable id) : t.depth id < t.size := by
  have hsub : insert id (t.ancestors id) ⊆ ↑(Finset.range t.size) :=
    Set.insert_subset (Finset.mem_coe.2 (Finset.mem_range.2 (h.present hid))) (h.ancestors_subset id)
  have hcard := Set.ncard_le_ncard hsub (Finset.finite_toSet _)
  rw [Set.ncard_insert_of_notMem (fun hmem => hmem.1 rfl) (h.ancestors_finite id), Set.ncard_coe_finset, Finset.card_range] at hcard
  exact hcard

/-- Each level down adds an ancestor, so the levels end where there are no more nodes. -/
theorem Branches.hasLevels_of_depth (h : t.Branches) (hid : t.Reachable id) (hlevels : t.size ≤ levels + t.depth id) :
    t.HasLevels levels id := by
  induction levels generalizing id with
  | zero =>
    have hlt := h.depth_lt hid
    omega
  | succ levels ih =>
    intro c hc
    have hdepth := h.depth_below hid hc
    exact ih (hid.below hc) (by omega)

theorem Branches.hasLevels (h : t.Branches) (hid : t.Reachable id) : t.HasLevels t.size id :=
  h.hasLevels_of_depth hid (Nat.le_add_right _ _)

/-! ## Siblings -/

/-- Of two nodes that lead to a third, one leads to the other. -/
theorem Branches.reaches_total (h : t.Branches) {a b : NodeId} (ha : t.Reachable a) (hb : t.Reachable b) (hax : t.Reaches a x)
    (hbx : t.Reaches b x) : t.Reaches a b ∨ t.Reaches b a := by
  induction hax with
  | refl => exact .inr hbx
  | tail hap hx ih =>
    rcases h.reaches_parent (ha.reaches hap) hx hb hbx with rfl | hbp
    · exact .inl (hap.tail hx)
    · exact ih hbp

/-- Two nodes that one node lists lead to nothing in common. -/
theorem Branches.eq_of_siblings (h : t.Branches) (hp : t.Reachable p) {a b : NodeId} (ha : a ∈ t.below p) (hb : b ∈ t.below p)
    (hax : t.Reaches a x) (hbx : t.Reaches b x) : a = b := by
  rcases h.reaches_total (hp.below ha) (hp.below hb) hax hbx with hab | hba
  · exact (h.reaches_parent hp hb (hp.below ha) hab).resolve_right (h.not_ring hp ha)
  · exact ((h.reaches_parent hp ha (hp.below hb) hba).resolve_right (h.not_ring hp hb)).symm

/-! ## Comments -/

theorem map_eq_map_some_filterMap {α β : Type} {f : α → Option β} {as : List α} (h : ∀ a ∈ as, (f a).isSome = true) :
    as.map f = (as.filterMap f).map some := by
  induction as with
  | nil => rfl
  | cons a as ih =>
    obtain ⟨b, hb⟩ := Option.isSome_iff_exists.1 (h a List.mem_cons_self)
    rw [List.map_cons, List.filterMap_cons_some hb, List.map_cons, hb, ih (fun c hc => h c (List.mem_cons_of_mem _ hc))]

theorem kind_of_commentText? {n : Node} (hn : t.node? id = some n) (h : (t.commentText? id).isSome = true) : n.kind = .comment := by
  rw [commentText?, hn, Option.map_some] at h
  cases hp : n.payload with
  | comment text => rw [Node.kind, hp, Payload.kind]
  | _ =>
    rw [hp] at h
    exact absurd h Bool.false_ne_true

/-- A child or a return value is no comment of any node. -/
theorem Branches.not_comment (h : t.Branches) (hid : t.Reachable id) {n : Node} (hn : t.node? id = some n) {c : NodeId}
    (hc : c ∈ n.offspring) {p : NodeId} (hp : t.Reachable p) : c ∉ t.commentsOf p := by
  intro hcomment
  have hbelow : t.below id = n.below := part_of_node? hn
  have hlist : c ∈ t.below id := hbelow ▸ List.mem_append_right _ hc
  obtain rfl := h.once hid hp hlist (mem_below_of_mem_commentsOf hcomment)
  have hnodup : n.below.Nodup := hbelow ▸ h.nodup hid
  rw [commentsOf, part_of_node? hn] at hcomment
  exact (List.nodup_append.1 hnodup).2.2 c hcomment c hc rfl

/-- Every comment that a node lists has a text. -/
theorem Branches.map_commentText? (h : t.Branches) (hid : t.Reachable id) {n : Node} (hn : t.node? id = some n) :
    n.comments.map t.commentText? = (n.comments.filterMap t.commentText?).map some := by
  have hown : t.commentsOf id = n.comments := part_of_node? hn
  exact map_eq_map_some_filterMap (fun c hc => (h.comments hid (hown ▸ hc)).1)

/-- A node that has a text is the comment of that text. -/
theorem payload_of_commentText? {text : String} (hc : t.commentText? c = some text) :
    (t.node? c).map Node.payload = some (.comment text) := by
  unfold commentText? at hc
  split at hc
  · rename_i heq
    obtain rfl := Option.some.inj hc
    exact heq
  · nomatch hc

/-- The comments that a node lists are those of its texts. -/
theorem Branches.map_comment_payload (h : t.Branches) (hid : t.Reachable id) {n : Node} (hn : t.node? id = some n) :
    n.comments.map (fun c => (t.node? c).map Node.payload) =
      (n.comments.filterMap t.commentText?).map (fun text => some (.comment text)) := by
  have hown : t.commentsOf id = n.comments := part_of_node? hn
  have hpayload : ∀ c ∈ n.comments, (t.node? c).map Node.payload = (t.commentText? c).map Payload.comment := by
    intro c hc
    obtain ⟨text, htext⟩ := Option.isSome_iff_exists.1 (h.comments hid (hown ▸ hc)).1
    rw [htext, payload_of_commentText? htext, Option.map_some]
  calc n.comments.map (fun c => (t.node? c).map Node.payload)
      = (n.comments.map t.commentText?).map (Option.map Payload.comment) := by
        rw [List.map_map]
        exact List.map_congr_left hpayload
    _ = (n.comments.filterMap t.commentText?).map (fun text => some (.comment text)) := by
        rw [h.map_commentText? hid hn, List.map_map]
        rfl

end Courier.Tree
