import Courier.Proofs.Tree.Ownership

/-!
# What destroying nodes leaves behind

Destroying nodes is to clear every reference to them (`Tree.Clears`). It does so for what nodes own and for the root, but a node that
is older than its parent is left with the name of a parent that is gone (`Tree.Orphans`), and a new node that gets the id of that one
finds itself the parent of a node it does not own. Nothing else makes a node name a parent that does not own it: over any history, the
nodes adrift are those that were orphaned and not destroyed since (`Tree.adrift_following_iff`).
-/

namespace Courier

namespace Tree

/-! ## Histories in which nodes are destroyed -/

/-- A step of a history: a change, or destroying the nodes from a mark on. -/
inductive Step where
  | change (change : Change)
  | discard (mark : Nat)
  deriving DecidableEq, Repr

def step (t : Tree) : Step → Tree
  | .change change => (t.perform change).2
  | .discard mark => (t.discardFrom mark).2

/-- The tree after some steps. -/
def following (t : Tree) (steps : List Step) : Tree :=
  steps.foldl step t

/-- Nodes may be destroyed at any time. -/
def Allows (t : Tree) : Step → Prop
  | .change change => t.Permits change
  | .discard _ => True

/-- Every one of the steps is allowed when its turn comes. -/
def AllowsAll : Tree → List Step → Prop
  | _, [] => True
  | t, step :: rest => t.Allows step ∧ (t.step step).AllowsAll rest

instance decidableAllows (t : Tree) : (step : Step) → Decidable (t.Allows step)
  | .change change => inferInstanceAs (Decidable (t.Permits change))
  | .discard _ => isTrue trivial

instance decidableAllowsAll : (t : Tree) → (steps : List Step) → Decidable (t.AllowsAll steps)
  | _, [] => isTrue trivial
  | t, step :: rest =>
    have := decidableAllowsAll (t.step step) rest
    inferInstanceAs (Decidable (t.Allows step ∧ (t.step step).AllowsAll rest))

/-! ## Nodes that lose their parent -/

/-- What is destroyed from a mark on. -/
def Destroys (t : Tree) (mark : Nat) (id : NodeId) : Prop :=
  mark ≤ id ∧ id < t.size

/-- The parent of a node is destroyed, and the node is not. -/
def Orphans (t : Tree) (mark : Nat) (id : NodeId) : Prop :=
  id < mark ∧ ∃ p, t.parent? id = some p ∧ t.Destroys mark p

/-- None of the steps destroys the node, if it is there when they begin. -/
def Spares (steps : List Step) (id : NodeId) : Prop :=
  ∀ mark, .discard mark ∈ steps → id < mark

/-- A step of the history orphans a node, and none of those behind it destroys that. -/
def Leaves (t : Tree) (steps : List Step) (id : NodeId) : Prop :=
  ∃ before mark rest, steps = before ++ .discard mark :: rest ∧ (t.following before).Orphans mark id ∧ Spares rest id

/-- A node names a parent that does not own it. -/
def Adrift (t : Tree) (id : NodeId) : Prop :=
  ∃ p, t.parent? id = some p ∧ id ∉ t.below p

/-- Nothing that is left refers to a destroyed node: no parent, nothing that is owned, and not the root. -/
def Clears (t : Tree) (mark : Nat) : Prop :=
  let t' := (t.discardFrom mark).2
  (∀ id p, t'.parent? id = some p → ¬ t.Destroys mark p) ∧ (∀ p, ∀ c ∈ t'.below p, ¬ t.Destroys mark c) ∧
    ∀ root, t'.root = some root → ¬ t.Destroys mark root

/-- What a node owns names it as its parent, and is owned once. -/
def Owning (t : Tree) : Prop :=
  ∀ parent child, (t.below parent).count child ≤ if t.parent? child = some parent then 1 else 0

variable {t t' : Tree} {mark : Nat} {id : NodeId}

theorem Destroys.lt_size (h : t.Destroys mark id) : mark < t.size :=
  Nat.lt_of_le_of_lt h.1 h.2

theorem below_scrub (mark : Nat) (n : Node) : (n.scrub mark).below = n.below.filter (· < mark) := by
  have hvalue : (n.scrub mark).payload.returnValue = n.payload.returnValue.filter (· < mark) := by
    cases n with
    | mk payload => cases payload <;> rfl
  rw [Node.below, Node.offspring, hvalue, Node.below, Node.offspring, List.filter_append, List.filter_append, Option.toList_filter]
  rfl

/-- The nodes that are left own what is left of what they owned. -/
theorem below_discardFrom (h : mark < t.size) (p : NodeId) :
    (t.discardFrom mark).2.below p = if p < mark then (t.below p).filter (· < mark) else [] := by
  unfold below part
  rw [node?_discardFrom h]
  split
  · cases t.node? p with
    | none => rfl
    | some n => exact below_scrub mark n
  · rfl

/-- The nodes that are left name whom they named. -/
theorem parent?_discardFrom (t : Tree) (mark : Nat) (id : NodeId) :
    (t.discardFrom mark).2.parent? id = if id < mark then t.parent? id else none := by
  by_cases h : mark < t.size
  · unfold parent? part
    rw [node?_discardFrom h]
    split
    · cases t.node? id <;> rfl
    · rfl
  · rw [discardFrom_of_size_le (Nat.le_of_not_lt h)]
    split
    · rfl
    · rename_i hid
      cases hparent : t.parent? id with
      | none => rfl
      | some p =>
        have hle : t.size ≤ id := Nat.le_trans (Nat.le_of_not_lt h) (Nat.le_of_not_lt hid)
        exact absurd (lt_size_of_parent? hparent) (Nat.not_lt_of_le hle)

/-- A destruction keeps its promise exactly if it orphans no node. -/
theorem clears_iff : t.Clears mark ↔ ∀ id, ¬ t.Orphans mark id := by
  constructor
  · rintro ⟨hparents, -, -⟩ id ⟨hid, p, hparent, hdestroyed⟩
    exact hparents id p (by rw [parent?_discardFrom, if_pos hid, hparent]) hdestroyed
  · intro horphans
    refine ⟨fun id p hparent hdestroyed => ?_, fun p c hc hdestroyed => ?_, fun root hroot hdestroyed => ?_⟩
    · rw [parent?_discardFrom] at hparent
      split at hparent
      · rename_i hid
        exact horphans id ⟨hid, p, hparent, hdestroyed⟩
      · nomatch hparent
    · rw [below_discardFrom hdestroyed.lt_size] at hc
      split at hc
      · have hlt : c < mark := of_decide_eq_true (List.mem_filter.1 hc).2
        exact absurd hdestroyed.1 (Nat.not_le_of_lt hlt)
      · nomatch hc
    · rw [root_discardFrom hdestroyed.lt_size] at hroot
      have hlt : root < mark := of_decide_eq_true (Option.filter_eq_some_iff.1 hroot).2
      exact absurd hdestroyed.1 (Nat.not_le_of_lt hlt)

/-! ## What a step does -/

theorem Owning.shift (h : t.Owning) (hs : t.Shift t') : t'.Owning := by
  intro p c
  have hold := h p c
  cases hs with
  | same hparent hbelow => rwa [hbelow, hparent]
  | link parent child horphan hparent hbelow =>
    rw [hbelow, hparent]
    by_cases hc : c = child
    · subst hc
      rw [horphan, if_neg nofun] at hold
      simp [Nat.le_zero.1 hold, eq_comm]
    · simpa [hc] using hold

theorem Owning.discardFrom (h : t.Owning) (mark : Nat) : (t.discardFrom mark).2.Owning := by
  by_cases hmark : mark < t.size
  · intro p c
    rw [below_discardFrom hmark, parent?_discardFrom]
    have hold := h p c
    by_cases hc : c < mark
    · rw [if_pos hc]
      split
      · rwa [List.count_filter (by simpa using hc)]
      · exact Nat.zero_le _
    · have hgone : ((t.below p).filter (· < mark)).count c = 0 := List.count_eq_zero.2 (by simp [hc])
      split <;> simp [hgone]
  · rwa [discardFrom_of_size_le (Nat.le_of_not_lt hmark)]

/-- A change leaves the nodes adrift that were so, and no others. -/
theorem Shift.adrift_iff (hs : t.Shift t') : t'.Adrift id ↔ t.Adrift id := by
  cases hs with
  | same hparent hbelow => simp only [Adrift, hparent, hbelow]
  | link parent child horphan hparent hbelow =>
    have hmem : ∀ p c, c ∈ t'.below p ↔ c ∈ t.below p ∨ (p = parent ∧ c = child) := by
      intro p c
      rw [← List.count_pos_iff, hbelow, ← List.count_pos_iff]
      split <;> simp_all
    unfold Adrift
    by_cases hid : id = child
    · subst hid
      simp [hparent, hmem, horphan]
    · simp [hparent, hmem, hid]

/-- Destroying nodes leaves those adrift that were so and are left, and those it orphans. -/
theorem adrift_discardFrom_iff (t : Tree) (mark : Nat) (id : NodeId) :
    (t.discardFrom mark).2.Adrift id ↔ (t.Adrift id ∧ id < mark) ∨ t.Orphans mark id := by
  by_cases hmark : mark < t.size
  · by_cases hid : id < mark
    · have hparents : (t.discardFrom mark).2.parent? id = t.parent? id := by rw [parent?_discardFrom, if_pos hid]
      have hlost : ∀ p, id ∉ (t.discardFrom mark).2.below p ↔ (p < mark → id ∉ t.below p) := by
        intro p
        rw [below_discardFrom hmark]
        split <;> simp [*]
      unfold Adrift
      simp only [hparents, hlost]
      constructor
      · rintro ⟨p, hparent, hnot⟩
        by_cases hdestroyed : t.Destroys mark p
        · exact .inr ⟨hid, p, hparent, hdestroyed⟩
        · refine .inl ⟨⟨p, hparent, fun hmem => ?_⟩, hid⟩
          have hp : p < t.size := lt_size_of_part (List.ne_nil_of_mem hmem)
          exact hnot (Nat.lt_of_not_le (fun hle => hdestroyed ⟨hle, hp⟩)) hmem
      · rintro (⟨⟨p, hparent, hnot⟩, -⟩ | ⟨-, p, hparent, hdestroyed⟩)
        · exact ⟨p, hparent, fun _ => hnot⟩
        · exact ⟨p, hparent, fun hlt => absurd hdestroyed.1 (Nat.not_le_of_lt hlt)⟩
    · simp [Adrift, Orphans, parent?_discardFrom, hid]
  · have hnot : ¬ t.Orphans mark id := fun ⟨_, _, _, hdestroyed⟩ => hmark hdestroyed.lt_size
    have hleft : t.Adrift id → id < mark :=
      fun ⟨p, hparent, _⟩ => Nat.lt_of_lt_of_le (lt_size_of_parent? hparent) (Nat.le_of_not_lt hmark)
    rw [discardFrom_of_size_le (Nat.le_of_not_lt hmark), or_iff_left hnot]
    exact (and_iff_left_of_imp hleft).symm

/-- Links are mirrored exactly if what is owned has its owner as its parent and no node is adrift. -/
theorem mirrored_iff : t.Mirrored ↔ t.Owning ∧ ∀ id, ¬ t.Adrift id := by
  constructor
  · intro h
    exact ⟨fun p c => Nat.le_of_eq (h p c), fun c ⟨p, hparent, hnot⟩ => hnot ((h.owns p c).1.1 hparent)⟩
  · rintro ⟨howning, hnone⟩ p c
    have hle := howning p c
    split at hle
    · rename_i hparent
      have hmem : c ∈ t.below p := Decidable.not_not.1 (fun hnot => hnone c ⟨p, hparent, hnot⟩)
      rw [if_pos hparent]
      exact Nat.le_antisymm hle (List.count_pos_iff.2 hmem)
    · rename_i hparent
      rw [if_neg hparent]
      exact Nat.le_zero.1 hle

/-- Only nodes that were adrift name a new node as their parent. -/
theorem adrift_of_parent?_alloc {payload : Payload} {location : Location}
    (h : (t.alloc payload location).2.parent? id = some (t.alloc payload location).1) : t.Adrift id := by
  have hparent : t.parent? id = some t.size := (part_alloc (g := Node.parent) rfl t id).symm.trans h
  refine ⟨t.size, hparent, fun hmem => ?_⟩
  have hlt : t.size < t.size := lt_size_of_part (List.ne_nil_of_mem hmem)
  exact Nat.lt_irrefl _ hlt

/-! ## Whole histories -/

theorem Owning.step (h : t.Owning) {step : Step} (hallowed : t.Allows step) : (t.step step).Owning := by
  cases step with
  | change change => exact h.shift (shift_perform change hallowed)
  | discard mark => exact h.discardFrom mark

theorem Owning.following (h : t.Owning) {steps : List Step} (hallowed : t.AllowsAll steps) : (t.following steps).Owning := by
  induction steps generalizing t with
  | nil => exact h
  | cons step rest ih => exact ih (h.step hallowed.1) hallowed.2

theorem spares_cons_iff {step : Step} {rest : List Step} :
    Spares (step :: rest) id ↔ (∀ mark, step = .discard mark → id < mark) ∧ Spares rest id := by
  simp only [Spares, List.mem_cons, or_imp, forall_and, eq_comm]

theorem leaves_cons_iff {step : Step} {rest : List Step} :
    t.Leaves (step :: rest) id ↔
      (∃ mark, step = .discard mark ∧ t.Orphans mark id ∧ Spares rest id) ∨ (t.step step).Leaves rest id := by
  constructor
  · rintro ⟨before, mark, behind, hsteps, horphans, hspares⟩
    cases before with
    | nil =>
      obtain ⟨rfl, rfl⟩ := List.cons_eq_cons.1 hsteps
      exact .inl ⟨mark, rfl, horphans, hspares⟩
    | cons first before =>
      obtain ⟨rfl, rfl⟩ := List.cons_eq_cons.1 hsteps
      exact .inr ⟨before, mark, behind, rfl, horphans, hspares⟩
  · rintro (⟨mark, rfl, horphans, hspares⟩ | ⟨before, mark, behind, rfl, horphans, hspares⟩)
    · exact ⟨[], mark, rest, rfl, horphans, hspares⟩
    · exact ⟨step :: before, mark, behind, rfl, horphans, hspares⟩

theorem adrift_step_iff {step : Step} (hallowed : t.Allows step) :
    (t.step step).Adrift id ↔ (t.Adrift id ∧ ∀ mark, step = .discard mark → id < mark) ∨
      ∃ mark, step = .discard mark ∧ t.Orphans mark id := by
  cases step with
  | change change =>
    have hiff : (t.perform change).2.Adrift id ↔ t.Adrift id := (shift_perform change hallowed).adrift_iff
    simpa [Tree.step] using hiff
  | discard mark => simpa [Tree.step] using adrift_discardFrom_iff t mark id

/-- A node is adrift after a history if it was so before and is spared, or if the history leaves it so. -/
theorem adrift_following_iff {steps : List Step} (hallowed : t.AllowsAll steps) :
    (t.following steps).Adrift id ↔ (t.Adrift id ∧ Spares steps id) ∨ t.Leaves steps id := by
  induction steps generalizing t with
  | nil => simp [following, Spares, Leaves]
  | cons step rest ih =>
    have hrest : (t.following (step :: rest)).Adrift id ↔
        ((t.step step).Adrift id ∧ Spares rest id) ∨ (t.step step).Leaves rest id := ih hallowed.2
    rw [hrest, adrift_step_iff hallowed.1, spares_cons_iff, leaves_cons_iff, or_and_right, and_assoc, or_assoc]
    simp only [← exists_and_right, and_assoc]

/-- References after any history in which nodes are destroyed. What is owned always has its owner as its parent and is owned once. A
node names a parent that does not own it exactly if the history orphaned it and left it there, so that the links are mirrored if there
is no such node, and only such a node finds a new node as its parent. A destruction clears every reference to what it destroys exactly
if it orphans no node. -/
theorem refs_following {start : Tree} (hstart : start.Original) {steps : List Step} (h : start.AllowsAll steps) :
    let t := start.following steps
    (∀ p, ∀ c ∈ t.below p, t.parent? c = some p ∧ (t.below p).count c = 1) ∧
    (∀ id, t.Adrift id ↔ start.Leaves steps id) ∧
    (t.Mirrored ↔ ∀ id, ¬ start.Leaves steps id) ∧
    (∀ payload location id,
      let (new, t') := t.alloc payload location
      t'.parent? id = some new → start.Leaves steps id) ∧
    ∀ mark, t.Clears mark ↔ ∀ id, ¬ t.Orphans mark id := by
  intro t
  obtain ⟨howning, hnone⟩ := mirrored_iff.1 hstart.mirrored
  have howning' : t.Owning := howning.following h
  have hadrift : ∀ id, t.Adrift id ↔ start.Leaves steps id :=
    fun id => (adrift_following_iff h).trans (or_iff_right (fun ⟨hbefore, _⟩ => hnone id hbefore))
  refine ⟨fun p c hc => ?_, hadrift, ?_, fun payload location id hnew => ?_, fun mark => clears_iff⟩
  · have hle := howning' p c
    have hpos := List.count_pos_iff.2 hc
    split at hle
    · rename_i hparent
      exact ⟨hparent, Nat.le_antisymm hle hpos⟩
    · omega
  · rw [mirrored_iff, and_iff_right howning']
    exact forall_congr' (fun id => not_congr (hadrift id))
  · exact (hadrift id).1 (adrift_of_parent?_alloc hnew)

/-- The receiver of a message is older than the node it is attached to. It is orphaned when that one is destroyed, and a new node
becomes its parent. -/
theorem refs_following_receiver :
    let steps := [.change (.alloc .nil default), .change (.alloc .sendMessage default), .change (.attach 1 0), .discard 1]
    let t := (empty "unit").following steps
    (empty "unit").AllowsAll steps ∧ t.Adrift 0 ∧ ¬ t.Mirrored ∧ t.Clears 0 ∧ (t.alloc .nil default).2.parent? 0 = some 1 := by
  intro steps t
  have hallowed : (empty "unit").AllowsAll steps := by decide
  obtain ⟨-, hadrift, hmirrored, -, hclears⟩ := refs_following (.empty "unit") hallowed
  have hleft : (empty "unit").Leaves steps 0 :=
    ⟨steps.take 3, 1, [], rfl, ⟨by decide, 1, by decide, by decide, by decide⟩, nofun⟩
  have hclears' : t.Clears 0 := (hclears 0).2 (fun _ horphans => nomatch horphans.1)
  exact ⟨hallowed, (hadrift 0).2 hleft, fun h => hmirrored.1 h 0 hleft, hclears', by decide +kernel⟩

/-- When the parent of a receiver is destroyed the receiver still names it, and takes the next node for its parent, which does not own
it. -/
theorem not_clears_receiver :
    let steps := [.change (.alloc .nil default), .change (.alloc .sendMessage default), .change (.attach 1 0)]
    let t := (empty "unit").following steps
    let (new, t') := (t.discardFrom 1).2.alloc .nil default
    (empty "unit").AllowsAll steps ∧ ¬ t.Clears 1 ∧ t'.parent? 0 = some new ∧ 0 ∉ t'.below new := by
  intro steps t
  have hparent : (t.discardFrom 1).2.parent? 0 = some 1 := by decide +kernel
  have hnot : ¬ t.Clears 1 := fun ⟨hparents, _⟩ => hparents 0 1 hparent ⟨by decide, by decide⟩
  exact ⟨by decide, hnot, by decide +kernel, by decide +kernel⟩

end Tree

end Courier
