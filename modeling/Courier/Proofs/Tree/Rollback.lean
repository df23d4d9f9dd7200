import Courier.Proofs.Tree.Discard
import Courier.Proofs.Tree.Uncommented

/-!
# Taking additions back

A tree is added to by making nodes, by linking new nodes, below old nodes or new ones, and by giving new nodes flags (`Tree.Adds`). All
that an addition does to an old node is to name new nodes in it, and these are what destroying the new nodes scrubs
(`Tree.Augments.perform`). So destroying them gives back the tree that was added to, whatever the additions were
(`discardFrom_after`).
-/

namespace Courier

/-- A place before the mark is not filtered. -/
theorem filter_of_lt {mark : Nat} {o : Option Nat} (h : ∀ c ∈ o, c < mark) : o.filter (· < mark) = o := by
  cases o with
  | none => rfl
  | some c => exact Option.filter_some_pos (p := fun c => decide (c < mark)) (decide_eq_true (h c rfl))

/-- What a node loses when younger ones are destroyed are the references to those; a node without any is left as it is. -/
theorem Node.scrub_of_below {mark : Nat} {n : Node} (h : ∀ c ∈ n.below, c < mark) : n.scrub mark = n := by
  have hcomments : n.comments.filter (· < mark) = n.comments :=
    List.filter_eq_self.2 (fun c hc => decide_eq_true (h c (List.mem_append_left _ hc)))
  have hchildren : n.children.filter (· < mark) = n.children :=
    List.filter_eq_self.2 (fun c hc => decide_eq_true (h c (List.mem_append_right _ (List.mem_append_left _ hc))))
  have hpayload : n.payload.filterReturnValue (· < mark) = n.payload := by
    have hvalue : ∀ c ∈ n.payload.returnValue, c < mark := fun c hc =>
      h c (List.mem_append_right _ (List.mem_append_right _ (Option.mem_toList.2 hc)))
    cases hp : n.payload with
    | message name value =>
      rw [hp] at hvalue
      exact congrArg (Payload.message name) (filter_of_lt hvalue)
    | _ => rfl
  rw [Node.scrub, hcomments, hchildren, hpayload]

namespace Tree

/-! ## Additions -/

/-- The changes that add to the nodes before a mark: nodes are made, and what is linked or flagged is a node from the mark on. What a node
is linked below may be older. -/
def Adds (t : Tree) (mark : Nat) : Change → Prop
  | .alloc _ _ => True
  | .attach parent child | .attachComment parent child => parent < t.size ∧ t.Destroys mark child
  | .setFlags id _ => t.Destroys mark id
  | .setReturnValue _ value => mark ≤ value
  | .setRoot _ => False

/-- Every one of the changes adds to the nodes before the mark when its turn comes. -/
def AddsAll (mark : Nat) : Tree → List Change → Prop
  | _, [] => True
  | t, change :: rest => t.Adds mark change ∧ AddsAll mark (t.perform change).2 rest

instance decidableAdds (t : Tree) (mark : Nat) : (change : Change) → Decidable (t.Adds mark change)
  | .alloc _ _ => isTrue trivial
  | .attach parent child | .attachComment parent child =>
    inferInstanceAs (Decidable (parent < t.size ∧ mark ≤ child ∧ child < t.size))
  | .setFlags id _ => inferInstanceAs (Decidable (mark ≤ id ∧ id < t.size))
  | .setReturnValue _ value => inferInstanceAs (Decidable (mark ≤ value))
  | .setRoot _ => isFalse id

instance decidableAddsAll (mark : Nat) : (t : Tree) → (changes : List Change) → Decidable (AddsAll mark t changes)
  | _, [] => isTrue trivial
  | t, change :: rest =>
    have := decidableAddsAll mark (t.perform change).2 rest
    inferInstanceAs (Decidable (t.Adds mark change ∧ AddsAll mark (t.perform change).2 rest))

/-- The kind of the node that a change makes. -/
def Change.made? : Change → Option Kind
  | .alloc payload _ => some payload.kind
  | _ => none

/-- What additions have made of a tree: all that is new in an old node is scrubbed when the new ones are destroyed. The first of these has
the kind given, and without one the tree is as it was. -/
structure Augments (old t : Tree) (first : Option Kind) : Prop where
  file : t.file = old.file
  root : t.root = old.root
  size_le : old.size ≤ t.size
  scrub {i : NodeId} (h : i < old.size) : (t.node? i).map (Node.scrub old.size) = old.node? i
  first : t.kind? old.size = first
  same (h : t.size = old.size) : t = old

theorem closed_iff (t : Tree) :
    t.Closed ↔ (∀ n ∈ t.nodes.toList, ∀ j ∈ n.refs, j < t.size) ∧ ∀ j ∈ t.root, j < t.size := by
  constructor
  · intro h
    refine ⟨fun n hn => ?_, h.root⟩
    obtain ⟨i, hi⟩ := List.getElem?_of_mem hn
    rw [Array.getElem?_toList] at hi
    exact h.node hi
  · rintro ⟨hnodes, hroot⟩
    refine ⟨fun {i n} hn => hnodes n ?_, hroot⟩
    rw [node?, ← Array.getElem?_toList] at hn
    exact List.mem_of_getElem? hn

instance decidableClosed (t : Tree) : Decidable t.Closed :=
  decidable_of_iff _ (closed_iff t).symm

section

variable {old t t' : Tree} {first : Option Kind} {changes : List Change}

/-- A change that leaves what is seen of a node as it is changes it nowhere. -/
theorem map_node?_update {β : Type} {g : Node → β} {f : Node → Node} (h : ∀ n, g (f n) = g n) (t : Tree) (id i : NodeId) :
    ((t.update id f).node? i).map g = (t.node? i).map g := by
  rw [node?_update]
  split
  · rw [Option.map_map, show g ∘ f = g from funext h]
  · rfl

theorem eq_of_node? (hfile : t'.file = t.file) (hroot : t'.root = t.root) (h : ∀ i, t'.node? i = t.node? i) : t' = t := by
  have hnodes : t'.nodes = t.nodes := Array.ext_getElem? h
  cases t
  cases t'
  simp only [mk.injEq]
  exact ⟨hfile, hnodes, hroot⟩

theorem node?_size (t : Tree) : t.node? t.size = none :=
  Array.getElem?_eq_none (Nat.le_refl _)

theorem file_discardFrom (t : Tree) (mark : Nat) : (t.discardFrom mark).2.file = t.file := by
  unfold discardFrom
  cases t.node? mark <;> rfl

/-- A tree that refers to nothing outside itself has nothing added. -/
theorem Closed.augments (h : old.Closed) : Augments old old none where
  file := rfl
  root := rfl
  size_le := Nat.le_refl _
  scrub {i} _ := by
    cases hn : old.node? i with
    | none => rfl
    | some n =>
      have hbelow : ∀ c ∈ n.below, c < old.size := by
        intro c hc
        refine h.node hn c ?_
        simp only [Node.below, Node.offspring, Node.refs, List.mem_append] at hc ⊢
        tauto
      rw [Option.map_some, Node.scrub_of_below hbelow]
  first := by
    rw [kind?, node?_size, Option.map_none]
  same _ := rfl

/-! ## What an addition does -/

theorem Augments.alloc (h : Augments old t first) (p : Payload) (l : Location) :
    Augments old (t.alloc p l).2 (first.or (some p.kind)) where
  file := h.file
  root := h.root
  size_le := by
    rw [size_alloc]
    exact Nat.le_succ_of_le h.size_le
  scrub hi := by
    rw [node?_alloc, if_neg (Nat.ne_of_lt (Nat.lt_of_lt_of_le hi h.size_le))]
    exact h.scrub hi
  first := by
    rw [kind?, node?_alloc, ← h.first, kind?]
    split
    · rename_i hsize
      rw [hsize, node?_size, Option.map_none, Option.none_or]
      rfl
    · rename_i hne
      obtain ⟨n, hn⟩ := exists_node? (Nat.lt_of_le_of_ne h.size_le hne)
      rw [hn]
      rfl
  same hsize := by
    rw [size_alloc] at hsize
    exact absurd hsize (Nat.ne_of_gt (Nat.lt_succ_of_le h.size_le))

/-- A change of one node adds to the old ones if it leaves of an old node what is not scrubbed, and there is a new node. -/
theorem Augments.update {f : Node → Node} {id : NodeId} (h : Augments old t first) (hnew : old.size < t.size)
    (hkind : ∀ n, (f n).kind = n.kind) (hscrub : id < old.size → ∀ n, (f n).scrub old.size = n.scrub old.size) :
    Augments old (t.update id f) first where
  file := h.file
  root := h.root
  size_le := by
    rw [size_update]
    exact h.size_le
  scrub {i} hi := by
    by_cases hid : id < old.size
    · rw [map_node?_update (hscrub hid)]
      exact h.scrub hi
    · rw [node?_update, if_neg (by rintro rfl; exact hid hi)]
      exact h.scrub hi
  first := by
    rw [kind?, map_node?_update hkind]
    exact h.first
  same hsize := by
    rw [size_update] at hsize
    exact absurd hsize (Nat.ne_of_gt hnew)

theorem Augments.setParent {child : NodeId} (h : Augments old t first) (hc : t.Destroys old.size child) (parent : NodeId) :
    Augments old (t.setParent child parent) first :=
  h.update hc.lt_size (fun _ => rfl) (fun hlt => absurd hc.1 (Nat.not_le_of_lt hlt))

/-- A new node at the end of a list is scrubbed from it. -/
theorem filter_append_new {mark child : Nat} (h : mark ≤ child) (ids : List NodeId) :
    (ids ++ [child]).filter (· < mark) = ids.filter (· < mark) := by
  rw [List.filter_append, List.filter_cons_of_neg (by simpa using h), List.filter_nil, List.append_nil]

theorem Augments.attach {parent child : NodeId} (h : Augments old t first) (hc : t.Destroys old.size child) :
    Augments old (t.attach parent child) first := by
  refine (h.setParent hc parent).update ?_ (fun _ => rfl) (fun _ n => ?_)
  · rw [Tree.setParent, size_update]
    exact hc.lt_size
  · simp only [Node.scrub, filter_append_new hc.1]

theorem Augments.attachComment {parent comment : NodeId} (h : Augments old t first) (hc : t.Destroys old.size comment) :
    Augments old (t.attachComment parent comment) first := by
  refine (h.setParent hc parent).update ?_ (fun _ => rfl) (fun _ n => ?_)
  · rw [Tree.setParent, size_update]
    exact hc.lt_size
  · simp only [Node.scrub, filter_append_new hc.1]

theorem Augments.setFlags {id : NodeId} (h : Augments old t first) (hid : t.Destroys old.size id) (flags : List String) :
    Augments old (t.setFlags id flags) first :=
  h.update hid.lt_size (fun _ => rfl) (fun hlt => absurd hid.1 (Nat.not_le_of_lt hlt))

/-- An old message that gets a new node as its return value loses it again. -/
theorem Augments.answered {message value : NodeId} (h : Augments old t first) (hv : old.size ≤ value)
    (ht : t.Answered t' message value) : Augments old t' first := by
  obtain ⟨n, name, hn, hpayload, hn'⟩ := ht.filled
  obtain ⟨k, hk, -, hk'⟩ := ht.adopted
  have hnew : old.size < t.size := Nat.lt_of_le_of_lt hv (lt_size_of_node? hk)
  have hscrub : ({ n with payload := .message name (some value) } : Node).scrub old.size = n.scrub old.size := by
    rw [Node.scrub, Node.scrub, hpayload, Payload.filterReturnValue, Payload.filterReturnValue,
      Option.filter_some_neg (by simpa using hv)]
    rfl
  refine ⟨ht.file.trans h.file, ht.root.trans h.root, ht.size ▸ h.size_le, fun {i} hi => ?_, ?_, fun hsize => ?_⟩
  · by_cases hm : i = message
    · subst hm
      rw [hn', Option.map_some, hscrub, ← Option.map_some, ← hn]
      exact h.scrub hi
    · rw [ht.others i hm (Nat.ne_of_lt (Nat.lt_of_lt_of_le hi hv))]
      exact h.scrub hi
  · rw [← h.first, kind?, kind?]
    by_cases hm : old.size = message
    · rw [hm, hn', hn, Option.map_some, Option.map_some, Node.kind, Node.kind, hpayload]
      rfl
    · by_cases hval : old.size = value
      · rw [hval, hk', hk]
        rfl
      · rw [ht.others _ hm hval]
  · exact absurd (ht.size ▸ hsize) (Nat.ne_of_gt hnew)

/-- Every addition keeps what destroying gives back, and the first node that one makes is the first that is destroyed. -/
theorem Augments.perform (h : Augments old t first) {change : Change} (hadds : t.Adds old.size change) :
    Augments old (t.perform change).2 (first.or change.made?) := by
  -- Only one of the changes makes a node.
  have hother (hmade : change.made? = none) : first.or change.made? = first := by rw [hmade, Option.or_none]
  cases change with
  | alloc p l => exact h.alloc p l
  | attach parent child =>
    rw [hother rfl]
    exact h.attach hadds.2
  | attachComment parent comment =>
    rw [hother rfl]
    exact h.attachComment hadds.2
  | setFlags id flags =>
    rw [hother rfl]
    exact h.setFlags hadds flags
  | setRoot id => exact hadds.elim
  | setReturnValue message value =>
    rw [hother rfl]
    have hanswer := perform_setReturnValue t message value
    generalize t.perform (.setReturnValue message value) = result at hanswer ⊢
    rcases hanswer with ⟨-, -, hanswered⟩ | ⟨-, -, hsame⟩
    · exact h.answered hadds hanswered
    · exact hsame ▸ h

/-! ## Taking all of them back -/

theorem Augments.after (h : Augments old t first) (hadds : AddsAll old.size t changes) :
    Augments old (t.after changes) (first.or (changes.findSome? Change.made?)) := by
  induction changes generalizing t first with
  | nil =>
    rw [List.findSome?_nil, Option.or_none]
    exact h
  | cons change rest ih =>
    have hrest := ih (h.perform hadds.1) hadds.2
    rw [Option.or_assoc] at hrest
    have hfirst : (change :: rest).findSome? Change.made? = change.made?.or (rest.findSome? Change.made?) := by
      rw [List.findSome?_cons]
      cases change.made? <;> rfl
    rw [hfirst]
    exact hrest

/-- Destroying what was added tells the kind of the first node that was added, and leaves the tree that was added to. -/
theorem Augments.discardFrom (h : Augments old t first) (hclosed : old.Closed) : t.discardFrom old.size = (first, old) := by
  refine Prod.ext ((fst_discardFrom t _).trans h.first) ?_
  rcases Nat.lt_or_eq_of_le h.size_le with hnew | hsize
  · refine eq_of_node? ((file_discardFrom t _).trans h.file) ?_ (fun i => ?_)
    · rw [root_discardFrom hnew, h.root]
      exact filter_of_lt hclosed.root
    · rw [node?_discardFrom hnew]
      split
      · rename_i hi
        exact h.scrub hi
      · rename_i hi
        exact (Array.getElem?_eq_none (Nat.le_of_not_lt hi)).symm
  · rw [discardFrom_of_size_le (Nat.le_of_eq hsize.symm)]
    exact h.same hsize.symm

/-- Where no node is made, there is none from the mark on, and additions change nothing. -/
theorem Augments.size_eq (h : Augments old t none) : t.size = old.size := by
  refine Nat.le_antisymm (Nat.le_of_not_lt fun hnew => ?_) h.size_le
  obtain ⟨n, hn⟩ := exists_node? hnew
  have hnone := h.first
  simp [kind?, hn] at hnone

/-- Additions are taken back exactly. Whatever is added to a tree that refers to nothing outside itself, destroying the nodes from its size
on gives it back, with the kind of the first node that was made. If none was made nothing was changed to begin with. -/
theorem discardFrom_after (hclosed : old.Closed) (hadds : AddsAll old.size old changes) :
    let first := changes.findSome? Change.made?
    (old.after changes).discardFrom old.size = (first, old) ∧ (first = none → old.after changes = old) := by
  intro first
  have haugments : Augments old (old.after changes) first := hclosed.augments.after hadds
  refine ⟨haugments.discardFrom hclosed, fun hnone => ?_⟩
  rw [hnone] at haugments
  exact haugments.same haugments.size_eq

/-- A message with a parameter is given another one, a comment and a return value that has a comment itself. Destroying these, and a class
that is linked nowhere, leaves the message as it was. -/
theorem discardFrom_after_message :
    let old := (empty "unit").after
      [.alloc (.message "at:" none) default, .alloc .nil default, .attach 0 1, .setRoot 0, .alloc (.comment "# a") default,
        .attachComment 0 2]
    let changes := [.alloc (.comment "# b") default, .alloc .nil default, .attachComment 0 3, .setReturnValue 0 4, .attach 0 3,
      .setFlags 4 ["pure"], .attachComment 4 3, .alloc (.classBlock "A" none) default, .setReturnValue 0 5]
    old.Closed ∧ AddsAll old.size old changes ∧ (old.after changes).below 0 = [2, 3, 1, 3, 4] ∧
      (old.after changes).discardFrom 3 = (some .comment, old) := by
  intro old changes
  have hclosed : old.Closed := by decide
  have hadds : AddsAll old.size old changes := by decide
  exact ⟨hclosed, hadds, by decide, (discardFrom_after hclosed hadds).1⟩

end

end Tree

end Courier
