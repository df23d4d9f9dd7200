import Courier.Proofs.Tree.OneTree

/-!
# Who owns a node

A tree is changed by making nodes, linking them, and giving them flags, a root and return values (`Tree.Change`). The comments, the
children and the return value of a node are the nodes it owns (`Tree.below`), and links are mirrored if a node owns exactly those that
name it as their parent, each of them once (`Tree.Mirrored`). A new tree and a parsed one are mirrored, and every change keeps them so,
provided that only nodes without a parent are attached: all it does to the links is to give one such node a parent, if anything
(`Tree.Shift`). A return value needs no such promise: a tree refuses one that is not detached (`Tree.Answerable`), and if it accepts one
it changes two nodes and no others (`Tree.Answered`).
-/

namespace Courier

namespace Tree

/-! ## Changes -/

/-- What may be done to a tree, besides destroying nodes. -/
inductive Change where
  | alloc (payload : Payload) (location : Location)
  | attach (parent child : NodeId)
  | attachComment (parent comment : NodeId)
  | setFlags (id : NodeId) (flags : List String)
  | setRoot (id : NodeId)
  | setReturnValue (message value : NodeId)
  deriving DecidableEq, Repr

/-- What a change answers. -/
inductive Change.Answer where
  | done
  | made (id : NodeId)
  | filled (accepted : Bool)
  deriving DecidableEq, Repr

/-- The answer of a change, and the tree after it. A return value that is refused leaves the tree as it is. -/
def perform (t : Tree) : Change → Change.Answer × Tree
  | .alloc payload location => (.made (t.alloc payload location).1, (t.alloc payload location).2)
  | .attach parent child => (.done, t.attach parent child)
  | .attachComment parent comment => (.done, t.attachComment parent comment)
  | .setFlags id flags => (.done, t.setFlags id flags)
  | .setRoot id => (.done, t.setRoot id)
  | .setReturnValue message value =>
    match t.setReturnValue? message value with
    | some t' => (.filled true, t')
    | none => (.filled false, t)

/-- The tree after some changes. -/
def after (t : Tree) (changes : List Change) : Tree :=
  changes.foldl (fun t change => (t.perform change).2) t

/-- What those who change a tree promise. A message is made without a return value, and a node of the tree is attached to another only
if it has no parent. Flags, roots and return values are not restricted. -/
def Permits (t : Tree) : Change → Prop
  | .alloc payload _ => payload.returnValue = none
  | .attach parent child | .attachComment parent child => parent < t.size ∧ child < t.size ∧ t.hasParent child = false
  | _ => True

/-- Every one of the changes is permitted when its turn comes. -/
def PermitsAll : Tree → List Change → Prop
  | _, [] => True
  | t, change :: rest => t.Permits change ∧ (t.perform change).2.PermitsAll rest

instance decidablePermits (t : Tree) : (change : Change) → Decidable (t.Permits change)
  | .alloc payload _ => inferInstanceAs (Decidable (payload.returnValue = none))
  | .attach parent child | .attachComment parent child =>
    inferInstanceAs (Decidable (parent < t.size ∧ child < t.size ∧ t.hasParent child = false))
  | .setFlags _ _ | .setRoot _ | .setReturnValue _ _ => isTrue trivial

instance decidablePermitsAll : (t : Tree) → (changes : List Change) → Decidable (t.PermitsAll changes)
  | _, [] => isTrue trivial
  | t, change :: rest =>
    have := decidablePermitsAll (t.perform change).2 rest
    inferInstanceAs (Decidable (t.Permits change ∧ (t.perform change).2.PermitsAll rest))

/-! ## Links that are mirrored -/

/-- The comments and the children of a node and its return value. -/
def below (t : Tree) : NodeId → List NodeId :=
  t.part [] Node.below

/-- A node owns another exactly if it is the parent of that, and owns it once. -/
def Mirrored (t : Tree) : Prop :=
  ∀ parent child, (t.below parent).count child = if t.parent? child = some parent then 1 else 0

/-- What happens to the links on the way from one tree to another: nothing, or a node without a parent gets one, which owns it once
more than before. -/
inductive Shift (t t' : Tree) : Prop
  | same (hparent : ∀ i, t'.parent? i = t.parent? i) (hbelow : ∀ i, t'.below i = t.below i)
  | link (parent child : NodeId) (horphan : t.parent? child = none)
      (hparent : ∀ i, t'.parent? i = if i = child then some parent else t.parent? i)
      (hbelow : ∀ p c, (t'.below p).count c = (t.below p).count c + if p = parent ∧ c = child then 1 else 0)

section

variable {t t' : Tree} {parent child id message value : NodeId}

/-- What a node owns are its links and its return value. -/
theorem count_below (t : Tree) (p c : NodeId) :
    (t.below p).count c = (t.links p).count c + (t.returnValue? p).toList.count c := by
  unfold below links returnValue? part
  cases t.node? p with
  | none => rfl
  | some n =>
    simp only [Option.elim_some, Node.below, Node.offspring, Node.links, List.count_append]
    omega

/-- The links of a forest are mirrored, as there are no return values. -/
theorem Forest.mirrored_below {roots : List NodeId} (h : Forest t roots) : t.Mirrored := by
  intro p c
  rw [count_below, h.mirrored, h.unanswered]
  rfl

theorem parent?_of_hasParent (h : t.hasParent id = false) : t.parent? id = none := by
  unfold hasParent at h
  unfold parent? part
  cases hn : t.node? id with
  | none => rfl
  | some n =>
    rw [hn] at h
    simpa using h

theorem Mirrored.shift (h : t.Mirrored) (hs : t.Shift t') : t'.Mirrored := by
  intro p c
  cases hs with
  | same hparent hbelow => rw [hbelow, hparent, h]
  | link parent child horphan hparent hbelow =>
    rw [hbelow, h, hparent]
    by_cases hc : c = child
    · subst hc
      rw [horphan]
      simp [eq_comm]
    · simp [hc]

/-- Mirrored links are found on either side, and on the side of the owner once: nothing is owned twice. -/
theorem Mirrored.owns (h : t.Mirrored) (p c : NodeId) : (t.parent? c = some p ↔ c ∈ t.below p) ∧
    (c ∈ t.below p → (t.below p).count c = 1 ∧ ∀ q, c ∈ t.below q → q = p) := by
  have hiff : ∀ q, t.parent? c = some q ↔ c ∈ t.below q := by
    intro q
    rw [← List.count_pos_iff, h]
    split <;> simp_all
  refine ⟨hiff p, fun hmem => ⟨?_, fun q hq => ?_⟩⟩
  · rw [h, if_pos ((hiff p).2 hmem)]
  · exact Option.some.inj (((hiff q).2 hq).symm.trans ((hiff p).2 hmem))

/-! ## Links that are made -/

theorem shift_of_linked (hchild : t.hasParent child = false) (hl : Linked t t' parent child) : t.Shift t' := by
  refine .link parent child (parent?_of_hasParent hchild) hl.parent?_eq (fun p c => ?_)
  rw [count_below, count_below, hl.count_eq, hl.returnValue?_eq]
  omega

/-- A new node owns nothing and has no parent. -/
theorem shift_alloc (t : Tree) {p : Payload} (hp : p.returnValue = none) (l : Location) : t.Shift (t.alloc p l).2 := by
  refine .same (part_alloc (g := Node.parent) rfl t) (part_alloc (g := Node.below) ?_ t)
  simp [Node.below, Node.offspring, Node.fresh, hp]

theorem shift_setFlags (t : Tree) (id : NodeId) (flags : List String) : t.Shift (t.setFlags id flags) :=
  .same (part_update_same (f := fun n => { n with flags := some flags }) (fun _ => rfl) t id)
    (part_update_same (f := fun n => { n with flags := some flags }) (fun _ => rfl) t id)

/-! ## Return values -/

/-- The message may be given the value: it is a message without a return value, and the value is another node, which has no parent and
is not the root. -/
structure Answerable (t : Tree) (message value : NodeId) : Prop where
  unanswered : ∃ n name, t.node? message = some n ∧ n.payload = .message name none
  ne : value ≠ message
  orphan : ∃ n, t.node? value = some n ∧ n.parent = none
  not_root : t.root ≠ some value

/-- In the second tree the message has the value and the value has the message as its parent. Nothing else has changed. -/
structure Answered (t t' : Tree) (message value : NodeId) : Prop where
  ne : value ≠ message
  file : t'.file = t.file
  root : t'.root = t.root
  size : t'.size = t.size
  filled : ∃ n name, t.node? message = some n ∧ n.payload = .message name none ∧
    t'.node? message = some { n with payload := .message name (some value) }
  adopted : ∃ n, t.node? value = some n ∧ n.parent = none ∧ t'.node? value = some { n with parent := some message }
  others (id : NodeId) (hm : id ≠ message) (hv : id ≠ value) : t'.node? id = t.node? id

theorem isDetached_iff : t.isDetached id = true ↔ (∃ n, t.node? id = some n ∧ n.parent = none) ∧ t.root ≠ some id := by
  unfold isDetached
  cases t.node? id <;> simp

/-- A return value is accepted only where the message may be given it, and then nothing but the two nodes is changed. -/
theorem answered_of_eq_some (h : t.setReturnValue? message value = some t') :
    t.Answerable message value ∧ t.Answered t' message value := by
  unfold setReturnValue? at h
  split at h
  · nomatch h
  · rename_i htest
    simp only [Bool.or_eq_true, Bool.not_eq_true', not_or, Bool.not_eq_false, decide_eq_true_eq] at htest
    obtain ⟨hne, hdetached⟩ := htest
    obtain ⟨⟨k, hk, hparent⟩, hroot⟩ := isDetached_iff.1 hdetached
    split at h
    · rename_i name hmessage
      obtain ⟨n, hn, hpayload⟩ := Option.map_eq_some_iff.1 hmessage
      obtain rfl := Option.some.inj h
      refine ⟨⟨⟨n, name, hn, hpayload⟩, Ne.symm hne, ⟨k, hk, hparent⟩, hroot⟩, ?_⟩
      refine ⟨Ne.symm hne, rfl, rfl, ?_, ⟨n, name, hn, hpayload, ?_⟩, ⟨k, hk, hparent, ?_⟩, fun id hm hv => ?_⟩
      · rw [setParent, size_update, size_update]
      · rw [setParent, node?_update, if_neg hne, node?_update, if_pos rfl, hn, Option.map_some]
      · rw [setParent, node?_update, if_pos rfl, node?_update, if_neg (Ne.symm hne), hk, Option.map_some]
      · rw [setParent, node?_update, if_neg hv, node?_update, if_neg hm]
    · nomatch h

/-- Where the message may be given the value, it is accepted. -/
theorem exists_of_answerable (h : t.Answerable message value) : ∃ t', t.setReturnValue? message value = some t' := by
  obtain ⟨n, name, hn, hpayload⟩ := h.unanswered
  have hdetached : t.isDetached value = true := isDetached_iff.2 ⟨h.orphan, h.not_root⟩
  unfold setReturnValue?
  rw [if_neg (by simp [Ne.symm h.ne, hdetached]), hn, Option.map_some, hpayload]
  exact ⟨_, rfl⟩

theorem setReturnValue?_eq_none_iff : t.setReturnValue? message value = none ↔ ¬ t.Answerable message value := by
  constructor
  · intro hnone h
    obtain ⟨t', ht⟩ := exists_of_answerable h
    rw [hnone] at ht
    nomatch ht
  · intro h
    cases ht : t.setReturnValue? message value with
    | none => rfl
    | some t' => exact absurd (answered_of_eq_some ht).1 h

/-- The value has the message as its parent from now on. -/
theorem Answered.parent?_eq (h : t.Answered t' message value) (i : NodeId) :
    t'.parent? i = if i = value then some message else t.parent? i := by
  obtain ⟨n, name, hn, -, hn'⟩ := h.filled
  obtain ⟨k, hk, -, hk'⟩ := h.adopted
  by_cases hv : i = value
  · subst hv
    rw [if_pos rfl]
    exact part_of_node? hk'
  · rw [if_neg hv]
    by_cases hm : i = message
    · subst hm
      rw [parent?, parent?, part_of_node? hn, part_of_node? hn']
    · unfold parent? part
      rw [h.others i hm hv]

/-- The message owns the value once more than before. -/
theorem Answered.count_below (h : t.Answered t' message value) (p c : NodeId) :
    (t'.below p).count c = (t.below p).count c + if p = message ∧ c = value then 1 else 0 := by
  obtain ⟨n, name, hn, hpayload, hn'⟩ := h.filled
  obtain ⟨k, hk, -, hk'⟩ := h.adopted
  by_cases hm : p = message
  · subst hm
    have hold : t.below p = n.below := part_of_node? hn
    have hnew : t'.below p = n.comments ++ (n.children ++ [value]) := part_of_node? hn'
    have hone := count_singleton value c
    rw [hold, hnew, Node.below, Node.offspring, hpayload]
    simp only [Payload.returnValue, Option.toList_none, List.count_append, List.count_nil, hone, true_and]
    omega
  · have hsame : t'.below p = t.below p := by
      by_cases hv : p = value
      · subst hv
        rw [below, below, part_of_node? hk, part_of_node? hk']
        rfl
      · unfold below part
        rw [h.others p hm hv]
    simp [hsame, hm]

theorem Answered.shift (ht : t.Answered t' message value) : t.Shift t' := by
  obtain ⟨k, hk, hparent, -⟩ := ht.adopted
  exact .link message value ((part_of_node? hk).trans hparent) ht.parent?_eq ht.count_below

/-- A return value is accepted exactly where the message may be given it. One that is refused changes nothing. -/
theorem perform_setReturnValue (t : Tree) (message value : NodeId) :
    let (answer, t') := t.perform (.setReturnValue message value)
    (t.Answerable message value ∧ answer = .filled true ∧ t.Answered t' message value) ∨
      (¬ t.Answerable message value ∧ answer = .filled false ∧ t' = t) := by
  simp only [perform]
  cases h : t.setReturnValue? message value with
  | none => exact .inr ⟨setReturnValue?_eq_none_iff.1 h, rfl, rfl⟩
  | some t' =>
    obtain ⟨hcan, hanswered⟩ := answered_of_eq_some h
    exact .inl ⟨hcan, rfl, hanswered⟩

/-! ## Whole histories -/

/-- A change that is permitted links one node that has no parent, or none. -/
theorem shift_perform (change : Change) (hpermits : t.Permits change) : t.Shift (t.perform change).2 := by
  cases change with
  | alloc payload location => exact shift_alloc t hpermits location
  | attach parent child =>
    obtain ⟨hparent, hchild, horphan⟩ := hpermits
    exact shift_of_linked horphan (linked_attach hparent hchild)
  | attachComment parent comment =>
    obtain ⟨hparent, hcomment, horphan⟩ := hpermits
    exact shift_of_linked horphan (linked_attachComment hparent hcomment)
  | setFlags id flags => exact shift_setFlags t id flags
  | setRoot id => exact .same (fun _ => rfl) (fun _ => rfl)
  | setReturnValue message value =>
    rcases perform_setReturnValue t message value with ⟨-, -, hanswered⟩ | ⟨-, -, hsame⟩
    · exact hanswered.shift
    · exact .same (fun i => congrArg (fun u => u.parent? i) hsame) (fun i => congrArg (fun u => u.below i) hsame)

theorem Mirrored.after (h : t.Mirrored) {changes : List Change} (hpermits : t.PermitsAll changes) : (t.after changes).Mirrored := by
  induction changes generalizing t with
  | nil => exact h
  | cons change rest ih => exact ih (h.shift (shift_perform change hpermits.1)) hpermits.2

end

/-- A tree to begin with: one without nodes, or one that was parsed. -/
inductive Original : Tree → Prop
  | empty (file : String) : Original (empty file)
  | parsed {s : Stream} {trace : Bool} {t : Tree} (h : (s.parse trace).1 = .ok t) : Original t

theorem Original.mirrored {t : Tree} (h : t.Original) : t.Mirrored := by
  cases h with
  | empty file => exact (forest_empty file).mirrored_below
  | @parsed s trace t h =>
    obtain ⟨root, u, hu, rfl⟩ := Parser.parse_eq_ok.1 h
    have hunit := Parser.grows_parse maxNesting .unit [] [] (.initial s trace) (Parser.holds_initial s trace)
    have hforest := (hunit.ok hu).2.forest_finish
    exact hforest.mirrored_below.shift (.same (fun _ => rfl) (fun _ => rfl))

/-- Ownership after any history. Whatever was done to a new or a parsed tree, as long as only nodes without a parent were attached, a
node has a parent exactly if that one owns it, and then it is owned once and by no other. A return value is accepted exactly where the
message may be given it; it then changes the message's value and the value's parent only, and one that is refused changes nothing. -/
theorem owns_after {start : Tree} (hstart : start.Original) {changes : List Change} (h : start.PermitsAll changes) :
    let t := start.after changes
    (∀ p c, (t.parent? c = some p ↔ c ∈ t.below p) ∧
      (c ∈ t.below p → (t.below p).count c = 1 ∧ ∀ q, c ∈ t.below q → q = p)) ∧
    ∀ message value,
      let (answer, t') := t.perform (.setReturnValue message value)
      (t.Answerable message value ∧ answer = .filled true ∧ t.Answered t' message value) ∨
        (¬ t.Answerable message value ∧ answer = .filled false ∧ t' = t) :=
  ⟨(hstart.mirrored.after h).owns, perform_setReturnValue _⟩

/-- A message with one argument is given a value, and refuses a second one. -/
theorem owns_after_answered :
    let changes := [.alloc .sendMessage default, .alloc (.message "at" none) default, .alloc .nil default, .alloc .nil default,
      .alloc (.comment "# end") default, .attach 1 2, .setReturnValue 1 3, .attach 0 1, .attachComment 0 4, .setRoot 0]
    let t := (empty "unit").after changes
    (empty "unit").PermitsAll changes ∧ t.below 0 = [4, 1] ∧ t.below 1 = [2, 3] ∧
      (t.parent? 3 = some 1 ∧ (t.below 1).count 3 = 1 ∧ ∀ q, 3 ∈ t.below q → q = 1) ∧
      (t.perform (.setReturnValue 1 0)).1 = .filled false ∧ (t.perform (.setReturnValue 1 0)).2 = t := by
  intro changes t
  have hpermits : (empty "unit").PermitsAll changes := by decide
  obtain ⟨hlinks, hvalues⟩ := owns_after (.empty "unit") hpermits
  have hbelow : t.below 1 = [2, 3] := by decide
  have hmem : 3 ∈ t.below 1 := by simp [hbelow]
  obtain ⟨hiff, honce⟩ := hlinks 1 3
  refine ⟨hpermits, by decide, hbelow, ⟨hiff.2 hmem, honce hmem⟩, ?_⟩
  rcases hvalues 1 0 with ⟨-, haccepted, -⟩ | ⟨-, hrefused⟩
  · exact absurd haccepted (by decide)
  · exact hrefused

end Tree

end Courier
