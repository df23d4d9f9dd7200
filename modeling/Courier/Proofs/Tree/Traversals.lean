import Courier.Proofs.Tree.Branches
import Courier.Proofs.Tree.Objects

/-!
# The traversals agree

The walk, the dump and the JSON of a tree go down it separately, and read its nodes in different ways. What they agree on is the order in
which a walk enters the nodes (`Tree.entered`): where the nodes below the root are a tree, the dump has one entry for each of them, as far
to the right as the node has ancestors, and the JSON has one object for each that is no comment, inside that of its parent
(`Tree.Branches.traversals_agree`).
-/

namespace Courier.Tree

/-- The visitor that writes down the nodes it enters. -/
def noting (_ : Node) (id : NodeId) : Phase → StateM (List NodeId) Unit
  | .enter => modify (· ++ [id])
  | .exit => pure ()

/-- The nodes that a walk of the whole tree enters, in order. -/
def entered (t : Tree) (visits : Nat) : List NodeId :=
  ((t.walkAll noting visits).run []).2

/-- The nodes that a walk from an id enters, in order. -/
def enteredBelow (t : Tree) (visits : Nat) (id : NodeId) : List NodeId :=
  ((t.walk noting visits id).run []).2

/-- The ids below an id, itself first, down as many levels as `fuel` says. -/
def preorder (t : Tree) : Nat → NodeId → List NodeId
  | 0, _ => []
  | fuel + 1, id =>
    match t.node? id with
    | some n => id :: n.below.flatMap (t.preorder fuel)
    | none => []

/-- The walk, the dump and the JSON of a tree show the same nodes: the given ones, which the walk enters in this order. -/
structure Agree (t : Tree) (visits : Nat) (entered : List NodeId) : Prop where
  nodup : entered.Nodup
  /-- The dump has one entry for each of them: two spaces for each ancestor, the description, the flags if there are any, and a line
  feed. -/
  entries : ∃ lines, t.dump = String.join lines ∧
    List.Forall₂ (fun id line => ∃ n, t.node? id = some n ∧
      line = String.join (List.replicate (t.depth id) "  ") ++ n.payload.describe ++
        (match n.flags with
          | some flags => " @[" ++ String.intercalate ", " flags ++ "]"
          | none => "") ++ "\n") entered lines
  /-- The JSON has one object for each of them, except for those that one of them lists as a comment. -/
  objects : t.toJson.objects = (entered.filter (· ∉ entered.flatMap t.commentsOf)).map t.object
  /-- Walk and JSON begin at the root. -/
  root : entered = (t.root.map (t.enteredBelow visits)).getD [] ∧ t.toJson = (t.root.map t.object).getD .null
  /-- They go on from each node with its comments, its children and its return value, as its object shows these. -/
  below {id : NodeId} (h : id ∈ entered) : ∃ n, t.node? id = some n ∧ t.Shows n (t.object id) ∧
    n.comments.map (fun c => (t.node? c).map Node.payload) =
      (n.comments.filterMap t.commentText?).map (fun text => some (.comment text)) ∧
    t.enteredBelow visits id = id :: (n.comments ++ n.children.flatMap (t.enteredBelow visits) ++
      n.payload.returnValue.toList.flatMap (t.enteredBelow visits))

variable {t : Tree} {levels : Nat} {id x : NodeId}

/-! ## What a walk enters -/

theorem run_forM {f : NodeId → StateM (List NodeId) Unit} {g : NodeId → List NodeId} {ids : List NodeId}
    (h : ∀ i log, (f i).run log = ((), log ++ g i)) (log : List NodeId) : (ids.forM f).run log = ((), log ++ ids.flatMap g) := by
  induction ids generalizing log with
  | nil =>
    rw [List.flatMap_nil, List.append_nil]
    rfl
  | cons i ids ih =>
    show ((do f i; ids.forM f) : StateM (List NodeId) Unit).run log = _
    rw [StateT.run_bind, h]
    show (ids.forM f).run (log ++ g i) = _
    rw [ih, List.flatMap_cons, List.append_assoc]

/-- The visitor writes down what is below a node, in preorder. -/
theorem run_walkFrom (t : Tree) (levels : Nat) (id : NodeId) (log : List NodeId) :
    (t.walkFrom noting levels id).run log = ((), log ++ t.preorder levels id) := by
  induction levels generalizing id log with
  | zero =>
    rw [preorder, List.append_nil]
    rfl
  | succ levels ih =>
    rw [walkFrom, preorder]
    cases hn : t.node? id with
    | none =>
      rw [List.append_nil]
      rfl
    | some n =>
      have hbelow : (n.below.forM (t.walkFrom noting levels)).run (log ++ [id]) = _ := run_forM ih (log ++ [id])
      rw [List.append_assoc, List.singleton_append] at hbelow
      simp only [StateT.run_bind]
      show ((do n.below.forM (t.walkFrom noting levels); if n.kind.isContainer then noting n id .exit) :
        StateM (List NodeId) Unit).run (log ++ [id]) = _
      rw [StateT.run_bind, hbelow]
      cases n.kind.isContainer <;> rfl

theorem HasLevels.preorder_eq (h : t.HasLevels levels id) (more : Nat) : t.preorder (levels + more) id = t.preorder levels id := by
  have hrun := congrArg (fun walk => (StateT.run walk []).2) (h.walkFrom_eq noting more)
  simpa only [run_walkFrom, List.nil_append] using hrun

theorem HasLevels.enteredBelow_eq (h : t.HasLevels t.size id) (visits : Nat) : t.enteredBelow visits id = t.preorder t.size id := by
  rw [enteredBelow, walk, run_walkFrom, List.nil_append, h.preorder_eq]

/-- A walk enters a node, and then what it enters from the nodes below that one. -/
theorem HasLevels.preorder_succ (h : t.HasLevels t.size id) {n : Node} (hn : t.node? id = some n) :
    t.preorder t.size id = id :: n.below.flatMap (t.preorder t.size) := by
  rw [← h.preorder_eq 1, preorder, hn]

theorem reaches_of_mem_preorder (h : x ∈ t.preorder levels id) : t.Reaches id x := by
  induction levels generalizing id with
  | zero => nomatch h
  | succ levels ih =>
    rw [preorder] at h
    cases hn : t.node? id with
    | none =>
      rw [hn] at h
      nomatch h
    | some n =>
      rw [hn] at h
      rcases List.mem_cons.1 h with rfl | hmem
      · exact .refl
      · obtain ⟨c, hc, hx⟩ := List.mem_flatMap.1 hmem
        have hbelow : t.below id = n.below := part_of_node? hn
        exact .head (hbelow ▸ hc) (ih hx)

theorem HasLevels.mem_preorder (h : t.HasLevels levels id) (hx : t.Reaches id x) (hlt : x < t.size) : x ∈ t.preorder levels id := by
  induction levels generalizing id with
  | zero =>
    have hnone : t.node? id = none := h
    rcases Relation.ReflTransGen.cases_head hx with rfl | ⟨c, hc, -⟩
    · obtain ⟨n, hn⟩ := exists_node? hlt
      rw [hnone] at hn
      nomatch hn
    · simp [below, part, hnone] at hc
  | succ levels ih =>
    rcases Relation.ReflTransGen.cases_head hx with rfl | ⟨c, hc, hcx⟩
    · obtain ⟨n, hn⟩ := exists_node? hlt
      rw [preorder, hn]
      exact List.mem_cons_self
    · obtain ⟨n, hn⟩ := exists_node? (lt_size_of_part (List.ne_nil_of_mem hc))
      have hbelow : t.below id = n.below := part_of_node? hn
      rw [preorder, hn]
      exact List.mem_cons_of_mem _ (List.mem_flatMap.2 ⟨c, hbelow ▸ hc, ih (h c hc) hcx⟩)

/-- A walk enters no node twice. -/
theorem Branches.nodup_preorder (h : t.Branches) (hid : t.Reachable id) (levels : Nat) : (t.preorder levels id).Nodup := by
  induction levels generalizing id with
  | zero => exact List.nodup_nil
  | succ levels ih =>
    rw [preorder]
    cases hn : t.node? id with
    | none => exact List.nodup_nil
    | some n =>
      have hbelow : t.below id = n.below := part_of_node? hn
      refine List.nodup_cons.2 ⟨fun hmem => ?_, List.nodup_flatMap.2 ⟨fun c hc => ih (hid.below (hbelow ▸ hc)), ?_⟩⟩
      · obtain ⟨c, hc, hx⟩ := List.mem_flatMap.1 hmem
        exact h.not_ring hid (hbelow ▸ hc) (reaches_of_mem_preorder hx)
      · refine (hbelow ▸ h.nodup hid).pairwise_of_forall_ne (fun a ha b hb hne x hxa hxb => hne ?_)
        exact h.eq_of_siblings hid (hbelow ▸ ha) (hbelow ▸ hb) (reaches_of_mem_preorder hxa) (reaches_of_mem_preorder hxb)

/-- A walk from a comment enters nothing else. -/
theorem Branches.eq_of_mem_preorder (h : t.Branches) (hid : t.Reachable id) {c : NodeId} (hc : c ∈ t.commentsOf id)
    (hx : x ∈ t.preorder levels c) : x = c := by
  rcases Relation.ReflTransGen.cases_head (reaches_of_mem_preorder hx) with heq | ⟨d, hd, -⟩
  · exact heq.symm
  · rw [(h.comments hid hc).2] at hd
    nomatch hd

/-! ## What the dump has entries for -/

theorem indent_eq (level : Nat) : indent level = String.join (List.replicate level "  ") := by
  rw [← String.toList_inj, indent, String.toList_ofList, String.toList_join]
  induction level with
  | zero => rfl
  | succ level ih =>
    rw [List.replicate_succ, List.flatMap_cons, ← ih]
    rfl

/-- An entry, written out. -/
theorem entry_eq (level : Nat) (n : Node) : entry level n = String.join (List.replicate level "  ") ++ n.payload.describe ++
    (match n.flags with
      | some flags => " @[" ++ String.intercalate ", " flags ++ "]"
      | none => "") ++ "\n" := by
  rw [entry, indent_eq]
  cases n.flags <;> rfl

theorem forall₂_flatMap {α β γ : Type} {R : β → γ → Prop} {f : α → List β} {g : α → List γ} {as : List α}
    (h : ∀ a ∈ as, List.Forall₂ R (f a) (g a)) : List.Forall₂ R (as.flatMap f) (as.flatMap g) := by
  induction as with
  | nil => exact .nil
  | cons a as ih => exact List.rel_append (h a List.mem_cons_self) (ih (fun b hb => h b (List.mem_cons_of_mem _ hb)))

/-- Below a node the dump has an entry for each node that a walk enters, at the level of its depth. -/
theorem Branches.forall₂_entriesFrom (h : t.Branches) (hid : t.Reachable id) (levels : Nat) :
    List.Forall₂ (fun id line => ∃ n, t.node? id = some n ∧ line = entry (t.depth id) n) (t.preorder levels id)
      (t.entriesFrom levels (t.depth id) id) := by
  induction levels generalizing id with
  | zero => exact .nil
  | succ levels ih =>
    rw [preorder, entriesFrom]
    cases hn : t.node? id with
    | none => exact .nil
    | some n =>
      have hbelow : t.below id = n.below := part_of_node? hn
      refine .cons ⟨n, hn, rfl⟩ (forall₂_flatMap (fun c hc => ?_))
      rw [← h.depth_below hid (hbelow ▸ hc)]
      exact ih (hid.below (hbelow ▸ hc))

/-! ## What the JSON has objects for -/

/-- Below a node the JSON has an object for each node that a walk enters, except for comments. -/
theorem Branches.objects_jsonFrom (h : t.Branches) {keep : NodeId → Bool}
    (hkeep : ∀ c, keep c = false ↔ ∃ p, t.Reachable p ∧ c ∈ t.commentsOf p) (hid : t.Reachable id) (hkept : keep id = true)
    (hlevels : t.HasLevels levels id) :
    (t.jsonFrom levels id).objects = ((t.preorder levels id).filter keep).map t.object := by
  induction levels generalizing id with
  | zero =>
    have hnone : t.node? id = none := hlevels
    obtain ⟨n, hn⟩ := exists_node? (h.present hid)
    rw [hnone] at hn
    nomatch hn
  | succ levels ih =>
    obtain ⟨n, hn⟩ := exists_node? (h.present hid)
    have hbelow : t.below id = n.below := part_of_node? hn
    have hcomments : t.commentsOf id = n.comments := part_of_node? hn
    -- What is below a comment is that comment.
    have hnone : (n.comments.flatMap (t.preorder levels)).filter keep = [] := by
      refine List.filter_eq_nil_iff.2 (fun x hx => ?_)
      obtain ⟨c, hc, hcx⟩ := List.mem_flatMap.1 hx
      obtain rfl := h.eq_of_mem_preorder hid (hcomments ▸ hc) hcx
      rw [(hkeep x).2 ⟨id, hid, hcomments ▸ hc⟩]
      exact Bool.false_ne_true
    have hoffspring : n.offspring.flatMap (fun c => (t.jsonFrom levels c).objects) =
        ((n.offspring.flatMap (t.preorder levels)).filter keep).map t.object := by
      rw [List.filter_flatMap, List.map_flatMap]
      refine List.flatMap_congr (fun c hc => ?_)
      have hc' : c ∈ t.below id := hbelow ▸ List.mem_append_right _ hc
      refine ih (hid.below hc') (Bool.of_not_eq_false (fun hfalse => ?_)) (hlevels c hc')
      obtain ⟨p, hp, hcomment⟩ := (hkeep c).1 hfalse
      exact h.not_comment hid hn hc hp hcomment
    rw [Tree.objects_jsonFrom hn, hoffspring, hlevels.jsonFrom_eq_object (h.hasLevels hid), preorder, hn]
    show _ = ((id :: (n.comments ++ n.offspring).flatMap (t.preorder levels)).filter keep).map t.object
    rw [List.flatMap_append, List.filter_cons_of_pos hkept, List.filter_append, hnone, List.nil_append, List.map_cons]

/-! ## What they agree on -/

section

variable {root : NodeId} {n : Node} {visits : Nat}

theorem entered_eq (hroot : t.root = some root) (visits : Nat) : t.entered visits = t.enteredBelow visits root := by
  rw [entered, walkAll, hroot]
  rfl

theorem Branches.enteredBelow_eq (h : t.Branches) (hid : t.Reachable id) (visits : Nat) :
    t.enteredBelow visits id = t.preorder t.size id :=
  (h.hasLevels hid).enteredBelow_eq visits

/-- A walk of the whole tree enters the nodes that can be reached. -/
theorem Branches.mem_entered (h : t.Branches) (hroot : t.root = some root) : id ∈ t.entered visits ↔ t.Reachable id := by
  have hreachable : t.Reachable root := ⟨root, hroot, .refl⟩
  rw [entered_eq hroot, h.enteredBelow_eq hreachable]
  constructor
  · exact fun hid => ⟨root, hroot, reaches_of_mem_preorder hid⟩
  · rintro ⟨root', hroot', hreaches⟩
    obtain rfl := Option.some.inj (hroot.symm.trans hroot')
    exact (h.hasLevels hreachable).mem_preorder hreaches (h.present ⟨root, hroot, hreaches⟩)

/-- From a node a walk enters that one, its comments, and what it enters from its children and from its return value. -/
theorem Branches.enteredBelow_cons (h : t.Branches) (hid : t.Reachable id) (hn : t.node? id = some n) :
    t.enteredBelow visits id = id :: (n.comments ++ n.children.flatMap (t.enteredBelow visits) ++
      n.payload.returnValue.toList.flatMap (t.enteredBelow visits)) := by
  have hbelow : t.below id = n.below := part_of_node? hn
  have heach : n.below.flatMap (t.preorder t.size) = n.below.flatMap (t.enteredBelow visits) :=
    List.flatMap_congr (fun c hc => (h.enteredBelow_eq (hid.below (hbelow ▸ hc)) visits).symm)
  have hcomments : n.comments.flatMap (t.enteredBelow visits) = n.comments := by
    refine (List.flatMap_congr (fun c hc => ?_)).trans (List.flatMap_singleton' n.comments)
    have hc' : t.Reachable c := hid.below (hbelow ▸ List.mem_append_left _ hc)
    have hown : t.commentsOf id = n.comments := part_of_node? hn
    obtain ⟨m, hm⟩ := exists_node? (h.present hc')
    have hleaf : m.below = [] := (part_of_node? hm).symm.trans (h.comments hid (hown ▸ hc)).2
    rw [h.enteredBelow_eq hc', (h.hasLevels hc').preorder_succ hm, hleaf, List.flatMap_nil]
  rw [h.enteredBelow_eq hid, (h.hasLevels hid).preorder_succ hn, heach, Node.below, Node.offspring, List.flatMap_append,
    List.flatMap_append, hcomments, List.append_assoc]

/-- Where the nodes below the root are a tree, a walk of it enters each of them once; the dump has one entry for each, in this order, and
the JSON one object for each that is no comment, in the field of its parent's object for what it is there. -/
theorem Branches.traversals_agree (h : t.Branches) (visits : Nat) : t.Agree visits (t.entered visits) := by
  cases hroot : t.root with
  | none =>
    have hentered : t.entered visits = [] := by
      rw [entered, walkAll, hroot]
      rfl
    have hdump : t.dump = String.join [] := by rw [dump, entries, hroot]
    have hjson : t.toJson = .null := by rw [toJson, hroot]
    rw [hentered]
    exact ⟨List.nodup_nil, ⟨[], hdump, .nil⟩, by rw [hjson]; rfl, ⟨by rw [hroot]; rfl, by rw [hjson, hroot]; rfl⟩,
      fun {_} hid => absurd hid List.not_mem_nil⟩
  | some root =>
    have hreachable : t.Reachable root := ⟨root, hroot, .refl⟩
    have hentered := (entered_eq hroot visits).trans (h.enteredBelow_eq hreachable visits)
    refine ⟨?_, ⟨t.entries, rfl, ?_⟩, ?_, ⟨?_, ?_⟩, fun {id} hid => ?_⟩
    · rw [hentered]
      exact h.nodup_preorder hreachable t.size
    · have hlines := h.forall₂_entriesFrom hreachable t.size
      rw [h.depth_root hroot] at hlines
      rw [hentered, entries, hroot]
      refine hlines.imp ?_
      rintro id _ ⟨n, hn, rfl⟩
      exact ⟨n, hn, entry_eq _ n⟩
    · have hkeep : ∀ c, decide (c ∉ (t.entered visits).flatMap t.commentsOf) = false ↔ ∃ p, t.Reachable p ∧ c ∈ t.commentsOf p := by
        intro c
        simp only [decide_eq_false_iff_not, not_not, List.mem_flatMap, h.mem_entered hroot]
      have hkept : decide (root ∉ (t.entered visits).flatMap t.commentsOf) = true := by
        refine Bool.of_not_eq_false (fun hfalse => ?_)
        obtain ⟨p, hp, hlist⟩ := (hkeep root).1 hfalse
        exact h.top hroot hp (mem_below_of_mem_commentsOf hlist)
      have hobjects := h.objects_jsonFrom hkeep hreachable hkept (h.hasLevels hreachable)
      rw [← hentered] at hobjects
      rw [toJson_eq hroot]
      exact hobjects
    · rw [entered_eq hroot, hroot]
      rfl
    · rw [toJson_eq hroot, hroot]
      rfl
    · have hid := (h.mem_entered hroot).1 hid
      obtain ⟨n, hn⟩ := exists_node? (h.present hid)
      exact ⟨n, hn, (h.hasLevels hid).shows hn, h.map_comment_payload hid hn, h.enteredBelow_cons hid hn⟩

/-- Behind its parameter a message is entered for its return value, which has an object only there. -/
theorem Branches.traversals_agree_answered : ∃ t : Tree, t.root = some 0 ∧ t.returnValue? 1 = some 3 ∧ t.Branches ∧
    t.entered 0 = [0, 4, 1, 2, 3] ∧ t.Agree 0 (t.entered 0) := by
  let place : Location := ⟨1, 1, 0⟩
  let t : Tree := (empty "unit").after [.alloc .statementsBlock place, .alloc (.message "m" none) place, .alloc (.literal .integer "1") place,
    .alloc .nil place, .alloc (.comment "# c") place, .attach 0 1, .attach 1 2, .setReturnValue 1 3, .attachComment 0 4, .setFlags 0 ["f"],
    .setRoot 0]
  have hbranches : t.Branches := branches_of_nodes (by decide +kernel) (by decide +kernel) (by decide +kernel) (by decide +kernel)
    (by decide +kernel)
  exact ⟨t, by decide +kernel, by decide +kernel, hbranches, by decide +kernel, hbranches.traversals_agree 0⟩

end

end Courier.Tree
