import Courier.Proofs.Parser.Parallel
import Courier.Proofs.Parser.Stacks
import Courier.Proofs.Tree.Rollback

/-!
# What the guard of a production gives back

A parser touches the nodes that were there before it in two ways only: it names their parents, and it adds comments of its own to them
(`Tree.Annotates`). Every operation on nodes does no more, since what gets children is a node that was made by the same production. A run
coupled with itself carries this through all productions (`sparing`). What a failed production made is destroyed, so that nothing of the
comments is left, and the nodes are those of its beginning but for their parents (`Stream.restores_of_starts`). The chain and the open
blocks are put back by the guard itself, for which it is enough to know how deep they were (`Stream.Starts.parse_eq_production`).
-/

namespace Courier

/-- The node as it was, but for its parent and for comments behind those it had, which are nodes from the mark on. -/
structure Node.Annotates (mark size : Nat) (old n : Node) : Prop where
  payload : n.payload = old.payload
  location : n.location = old.location
  flags : n.flags = old.flags
  children : n.children = old.children
  comments : ∃ added, n.comments = old.comments ++ added ∧ ∀ c ∈ added, mark ≤ c ∧ c < size

namespace Tree

/-- Every node of the old tree is still there, as it was but for its parent and for new comments. -/
structure Annotates (old t : Tree) : Prop where
  size_le : old.size ≤ t.size
  node {i : NodeId} {n : Node} (h : old.node? i = some n) : ∃ n', t.node? i = some n' ∧ n.Annotates old.size t.size n'

/-- Whatever a node lists is there. -/
def Lists (t : Tree) : Prop :=
  ∀ i n, t.node? i = some n → ∀ c ∈ n.below, c < t.size

variable {old t : Tree} {i j : NodeId}

theorem Annotates.refl (t : Tree) : t.Annotates t :=
  ⟨Nat.le_refl _, fun {_ n} hn => ⟨n, hn, rfl, rfl, rfl, rfl, [], (List.append_nil _).symm, fun _ hc => nomatch hc⟩⟩

theorem Annotates.alloc (h : old.Annotates t) (p : Payload) (l : Location) : old.Annotates (t.alloc p l).2 := by
  refine ⟨?_, fun {i n} hn => ?_⟩
  · rw [size_alloc]
    exact Nat.le_succ_of_le h.size_le
  · obtain ⟨n', hn', hnode⟩ := h.node hn
    obtain ⟨added, hcomments, hadded⟩ := hnode.comments
    refine ⟨n', ?_, { hnode with comments := ⟨added, hcomments, fun c hc => ⟨(hadded c hc).1, ?_⟩⟩ }⟩
    · rw [node?_alloc, if_neg (Nat.ne_of_lt (lt_size_of_node? hn')), hn']
    · rw [size_alloc]
      exact Nat.lt_succ_of_lt (hadded c hc).2

/-- A change of one node annotates if it does so on an old one. -/
theorem Annotates.update (h : old.Annotates t) {f : Node → Node}
    (hf : i < old.size → ∀ n n' : Node, n.Annotates old.size t.size n' → n.Annotates old.size t.size (f n')) :
    old.Annotates (t.update i f) := by
  refine ⟨?_, fun {j n} hn => ?_⟩
  · rw [size_update]
    exact h.size_le
  · obtain ⟨n', hn', hnode⟩ := h.node hn
    rw [node?_update, size_update]
    split
    · rename_i heq
      exact ⟨f n', by rw [hn', Option.map_some], hf (heq ▸ lt_size_of_node? hn) n n' hnode⟩
    · exact ⟨n', hn', hnode⟩

theorem Annotates.setParent (h : old.Annotates t) (i parent : NodeId) : old.Annotates (t.setParent i parent) :=
  h.update (fun _ _ _ hnode => { hnode with })

/-- Nodes may be linked below a new one, whatever they are. -/
theorem Annotates.attach (h : old.Annotates t) (hi : old.size ≤ i) (j : NodeId) : old.Annotates (t.attach i j) :=
  (h.setParent j i).update (fun hlt => absurd hi (Nat.not_le_of_lt hlt))

theorem Annotates.setFlags (h : old.Annotates t) (hi : old.size ≤ i) (flags : List String) : old.Annotates (t.setFlags i flags) :=
  h.update (fun hlt => absurd hi (Nat.not_le_of_lt hlt))

theorem Annotates.withFlags (h : old.Annotates t) (hi : old.size ≤ i) (flags : Option (List String)) :
    old.Annotates (t.withFlags i flags) := by
  cases flags with
  | none => exact h
  | some flags => exact h.setFlags hi flags

/-- A new comment may be linked anywhere, and any comment below a new node. -/
theorem Annotates.attachComment (h : old.Annotates t) (hij : old.size ≤ i ∨ old.size ≤ j ∧ j < t.size) :
    old.Annotates (t.attachComment i j) := by
  refine (h.setParent j i).update (fun hlt n n' hnode => ?_)
  obtain ⟨added, hcomments, hadded⟩ := hnode.comments
  obtain ⟨hj, hjt⟩ := hij.resolve_left (Nat.not_le_of_lt hlt)
  refine { hnode with comments := ⟨added ++ [j], ?_, fun c hc => ?_⟩ }
  · rw [hcomments, List.append_assoc]
  · rcases List.mem_append.1 hc with hc | hc
    · exact hadded c hc
    · obtain rfl := List.mem_singleton.1 hc
      exact ⟨hj, by rw [Tree.setParent, size_update]; exact hjt⟩

theorem Annotates.attachComments (h : old.Annotates t) (hi : old.size ≤ i) (comments : List NodeId) :
    old.Annotates (comments.foldl (fun t c => t.attachComment i c) t) := by
  induction comments generalizing t with
  | nil => exact h
  | cons c comments ih => exact ih (h.attachComment (.inl hi))

theorem size_discardFrom_le (t : Tree) (mark : Nat) : (t.discardFrom mark).2.size ≤ mark := by
  by_cases h : mark < t.size
  · rw [size_discardFrom h]
  · rw [discardFrom_of_size_le (Nat.le_of_not_lt h)]
    exact Nat.le_of_not_lt h

/-- Destroying new nodes takes comments back, and nothing else from an old node. -/
theorem Annotates.discardFrom (h : old.Annotates t) (hlists : old.Lists) {mark : Nat} (hmark : old.size ≤ mark) :
    old.Annotates (t.discardFrom mark).2 := by
  by_cases hlt : mark < t.size
  · refine ⟨by rw [size_discardFrom hlt]; exact hmark, fun {i n} hn => ?_⟩
    obtain ⟨n', hn', hnode⟩ := h.node hn
    obtain ⟨added, hcomments, hadded⟩ := hnode.comments
    have hkept : n.scrub mark = n := Node.scrub_of_below (fun c hc => Nat.lt_of_lt_of_le (hlists i n hn c hc) hmark)
    have hi : i < mark := Nat.lt_of_lt_of_le (lt_size_of_node? hn) hmark
    refine ⟨n'.scrub mark, by rw [node?_discardFrom hlt, if_pos hi, hn', Option.map_some], ?_⟩
    refine ⟨?_, hnode.location, hnode.flags, ?_, added.filter (· < mark), ?_, fun c hc => ?_⟩
    · calc n'.payload.filterReturnValue (· < mark) = (n.scrub mark).payload := by rw [hnode.payload]; rfl
        _ = n.payload := by rw [hkept]
    · calc n'.children.filter (· < mark) = (n.scrub mark).children := by rw [hnode.children]; rfl
        _ = n.children := by rw [hkept]
    · calc n'.comments.filter (· < mark) = (n.scrub mark).comments ++ added.filter (· < mark) := by
            rw [hcomments, List.filter_append]; rfl
        _ = n.comments ++ added.filter (· < mark) := by rw [hkept]
    · obtain ⟨hc, hless⟩ := List.mem_filter.1 hc
      rw [size_discardFrom hlt]
      exact ⟨(hadded c hc).1, of_decide_eq_true hless⟩
  · rw [discardFrom_of_size_le (Nat.le_of_not_lt hlt)]
    exact h

/-- A forest lists nodes that are there. -/
theorem Forest.lists {roots : List NodeId} (h : t.Forest roots) : t.Lists := by
  intro i n hn c hc
  have hmem : c ∈ t.below i := by
    rw [below, part_of_node? hn]
    exact hc
  exact lt_size_of_parent? ((h.mirrored_below.owns i c).1.2 hmem)

/-- Where nothing new is left, the old nodes are as they were but for their parents. -/
theorem Annotates.exists_parent (h : old.Annotates t) (hsize : t.size = old.size) {n : Node} (hn : old.node? i = some n) :
    ∃ parent, t.node? i = some { n with parent := parent } := by
  obtain ⟨n', hn', hnode⟩ := h.node hn
  obtain ⟨added, hcomments, hadded⟩ := hnode.comments
  have hnone : added = [] := List.eq_nil_iff_forall_not_mem.2 (fun c hc => by
    obtain ⟨hle, hlt⟩ := hadded c hc
    exact Nat.not_lt_of_le hle (hsize ▸ hlt))
  rw [hnone, List.append_nil] at hcomments
  refine ⟨n'.parent, hn'.trans (congrArg some ?_)⟩
  obtain ⟨hpayload, hlocation, hflags, hchildren, -⟩ := hnode
  cases n
  cases n'
  simp only at hpayload hlocation hflags hchildren hcomments
  subst hpayload hlocation hflags hchildren hcomments
  rfl

end Tree

namespace Parser

open ParserState Courier.Grammar

variable {old : Tree} {s : ParserState}

/-! ## What operations do to old nodes -/

theorem annotates_placeComment (h : old.Annotates s.tree) (t : Token) : old.Annotates (s.placeComment t).tree := by
  have halloc := h.alloc (.comment t.text) t.location
  cases hopen : s.blocks with
  | nil =>
    rw [placeComment_of_nil hopen]
    exact halloc
  | cons b bs =>
    rw [placeComment_of_cons hopen]
    refine halloc.attachComment (.inr ⟨h.size_le, ?_⟩)
    rw [Tree.size_alloc]
    exact Nat.lt_succ_self _

theorem annotates_settle (h : old.Annotates s.tree) : old.Annotates s.settle.tree :=
  settle_induction (I := fun s => old.Annotates s.tree) (fun s t rest _ _ h => annotates_placeComment (s := s.passing t rest) h t) h

theorem annotates_openNode (h : old.Annotates s.tree) (p : Payload) (l : Location) : old.Annotates (s.openNode p l).2.tree := by
  have hmade := (h.alloc p l).withFlags h.size_le s.pendingFlags
  cases hcontainer : p.kind.isContainer with
  | true =>
    rw [openNode_of_container hcontainer]
    exact hmade.attachComments h.size_le _
  | false =>
    rw [openNode_of_not_container hcontainer]
    exact hmade

/-! ## A run coupled with itself -/

/-- No mark is saved, and the tree annotates an older one. -/
structure Sparing (old : Tree) (s : ParserState) : Prop where
  lists : old.Lists
  unmarked : s.stream.saved = none
  annotates : old.Annotates s.tree

theorem Sparing.settle (h : Sparing old s) : Sparing old s.settle :=
  ⟨h.lists, (saved_settle s).trans h.unmarked, annotates_settle h.annotates⟩

theorem Sparing.taken (h : Sparing old s) : Sparing old s.taken :=
  ⟨h.lists, (saved_taken s).trans h.unmarked, by rw [tree_taken]; exact annotates_settle h.annotates⟩

theorem Sparing.openNode (h : Sparing old s) (p : Payload) (l : Location) : Sparing old (s.openNode p l).2 :=
  ⟨h.lists, by rw [stream_openNode]; exact h.unmarked, annotates_openNode h.annotates p l⟩

theorem Sparing.attached (h : Sparing old s) {i : NodeId} (hi : old.size ≤ i) (j : NodeId) : Sparing old (s.attached i j) :=
  ⟨h.lists, h.unmarked, h.annotates.attach hi j⟩

theorem Sparing.abandon {t : ParserState} (h : Sparing old s) (ht : Sparing old t) : Sparing old (t.abandon s.checkpoint).2 :=
  ⟨h.lists, ht.unmarked, ht.annotates.discardFrom h.lists h.annotates.size_le⟩

/-- A run that spares an older tree, coupled with itself. What it has in hand are nodes of its own. -/
def sparing (old : Tree) : Coupling where
  World := ParserState
  Later w w' := w.tree.size ≤ w'.tree.size
  State w s s' := s = w ∧ s' = w ∧ Sparing old w
  Place _ l l' := l' = l
  Node w i i' := i' = i ∧ old.size ≤ i ∧ i < w.tree.size
  Failed _ _ t _ _ := Sparing old t

/-- Where no node is in hand, the states correspond again. -/
theorem onward_sparing {w t : ParserState} (h : Sparing old t) (hsize : w.tree.size ≤ t.tree.size) :
    (sparing old).Onward w t t [] :=
  ⟨t, hsize, ⟨rfl, rfl, h⟩, fun _ hb => nomatch hb⟩

theorem onward_sparing_place {w t : ParserState} {l : Location} (h : Sparing old t) (hsize : w.tree.size ≤ t.tree.size) :
    (sparing old).Onward w t t [.place l l] := by
  refine ⟨t, hsize, ⟨rfl, rfl, h⟩, fun b hb => ?_⟩
  obtain rfl := List.mem_singleton.1 hb
  exact rfl

instance sparing_free (old : Tree) : (sparing old).Free where
  refl w := Nat.le_refl _
  trans h h' := Nat.le_trans h h'
  place_later _ hl := hl
  node_later h hi := ⟨hi.1, hi.2.1, Nat.lt_of_lt_of_le hi.2.2 h⟩
  owner_later h hi := ⟨hi.1, hi.2.1, Nat.lt_of_lt_of_le hi.2.2 h⟩
  folded := Token.folded_of_sign
  fault_refl _ := rfl
  fault_text h fault := congrArg fault (congrArg Prod.snd h)
  unmarked := by
    rintro w s s' ⟨rfl, rfl, h⟩
    exact ⟨h.unmarked, h.unmarked⟩
  signs := by
    rintro w s s' ⟨rfl, rfl, -⟩
    rfl
  settle := by
    rintro w s s' ⟨rfl, rfl, h⟩
    exact onward_sparing_place h.settle (size_le_settle _)
  taken := by
    rintro w s s' t t' v v' ⟨rfl, rfl, h⟩ hs hs'
    obtain ⟨rfl, -⟩ := List.cons.inj (hs.symm.trans hs')
    refine onward_sparing_place h.taken ?_
    rw [tree_taken]
    exact size_le_settle _
  keepFlags := by
    rintro w s s' ⟨rfl, rfl, h⟩ flags
    exact onward_sparing { h with } (Nat.le_refl _)
  enter := by
    rintro w s s' ⟨rfl, rfl, h⟩ construct
    exact onward_sparing { h with } (Nat.le_refl _)
  leave := by
    rintro w w' s s' t t' ⟨rfl, rfl, -⟩ - ⟨rfl, rfl, ht⟩
    exact onward_sparing { ht with } (Nat.le_refl _)
  failed_here := by
    rintro w s s' fault fault' ⟨rfl, rfl, h⟩ -
    exact h
  failed_at := by
    rintro w s s' l l' fault fault' ⟨rfl, rfl, h⟩ - -
    exact h
  abandon := by
    rintro w w' s s' t t' e e' ⟨rfl, rfl, h⟩ - ht
    exact ⟨_, Nat.le_refl _, h.abandon ht⟩
  shared _ := trivial
  openNode := by
    rintro w s s' l l' p ⟨rfl, rfl, h⟩ rfl - - -
    have hsize : (s'.openNode p l').2.tree.size = s'.tree.size + 1 := size_openNode s' p l'
    refine ⟨_, Nat.le_of_lt (hsize ▸ Nat.lt_succ_self _), ⟨rfl, rfl, h.openNode p l'⟩, fun b hb => ?_⟩
    obtain rfl := List.mem_singleton.1 hb
    exact ⟨rfl, by rw [fst_openNode]; exact h.annotates.size_le, by rw [fst_openNode, hsize]; exact Nat.lt_succ_self _⟩
  attach := by
    rintro w s s' i i' j j' ⟨rfl, rfl, h⟩ ⟨rfl, hi, -⟩ ⟨rfl, -⟩
    exact onward_sparing (h.attached hi _) (Nat.le_of_eq (Tree.size_attach _ _ _).symm)
  owner _ hi _ := hi
  nodeLocation := by
    rintro w s s' i i' ⟨rfl, rfl, -⟩ ⟨rfl, -, hi⟩
    obtain ⟨n, hn⟩ := Tree.exists_node? hi
    exact ⟨n, n, hn, hn, rfl⟩
  text h := congrArg Prod.snd h
  shared_any _ := trivial
  owner_of_node hi := hi

/-! ## Productions -/

variable {α : Type}

/-- What a run yields that is coupled with itself. -/
theorem yields_of_parallel {m : Parser α} {Q : α → α → List Bond} (h : (sparing old).Parallel false [] m m Q) (hs : Sparing old s) :
    Yields m s (fun _ t => Sparing old t) (fun _ t => Sparing old t) := by
  rcases h s s s ⟨rfl, rfl, hs⟩ (fun _ hb => nomatch hb) with ⟨a, b, t, t', hm, -, hstep⟩ | ⟨e, e', t, t', hm, -, hfail⟩
  · obtain ⟨w, -, ⟨rfl, -, hw⟩, -⟩ := hstep.onward
    exact (yields_of_eq_ok hm).2 hw
  · obtain ⟨w, -, hw⟩ := hfail
    exact (yields_of_eq_error hm).2 hw

/-- The receiver of a message is older than the send. It is linked below that, which names its parent and does nothing else to it. -/
theorem parallel_sendMessage_old {inner : Inner} (h : inner.Coupled (sparing old)) {receiver : NodeId} (hlt : receiver < old.size) :
    (sparing old).Parallel false [] (sendMessage inner receiver) (sendMessage inner receiver) (fun i j => [.node i j]) := by
  have hlocation : (sparing old).Parallel false [] (nodeLocation receiver) (nodeLocation receiver) (fun l l' => [.place l l']) := by
    rintro w s s' ⟨rfl, rfl, hs⟩ -
    obtain ⟨n, hn⟩ := Tree.exists_node? (Nat.lt_of_lt_of_le hlt hs.annotates.size_le)
    exact .inl ⟨_, _, _, _, nodeLocation_eq hn, nodeLocation_eq hn, step_still (onward_sparing_place hs (Nat.le_refl _)) rfl rfl rfl⟩
  have hattach : ∀ {Γ : List Bond} {i i' : NodeId}, .owner i i' ∈ Γ →
      (sparing old).Parallel false Γ (attach i receiver) (attach i' receiver) (fun _ _ => []) := by
    rintro Γ i i' hi w s s' ⟨rfl, rfl, hs⟩ hΓ
    obtain ⟨rfl, hold, -⟩ := hΓ _ hi
    exact .inl ⟨(), (), _, _, rfl, rfl,
      step_still (onward_sparing (hs.attached hold receiver) (Nat.le_of_eq (Tree.size_attach _ _ _).symm)) rfl rfl rfl⟩
  unfold sendMessage
  refine hlocation.after (fun l l' => ?_)
  refine (parallel_openOwner (by simp) ⟨by nofun, by nofun⟩ (by nofun) rfl).after (fun send send' => ?_)
  refine (h.rule .message trivial).bind (fun message message' => ?_)
  refine (hattach (by simp)).bind (fun _ _ => ?_)
  exact (parallel_attach (by simp) (by simp)).bind (fun _ _ => parallel_pure (by simp))

/-- A production that is handed nodes that are there spares the nodes that are there. -/
theorem sparing_parse (room : Nat) (r : Rule α) (hs : Sparing old s) (huses : ∀ i ∈ r.uses, i < old.size) :
    Yields (Rule.parse room r) s (fun _ t => Sparing old t) (fun _ t => Sparing old t) := by
  have hrule : ∀ {r : Rule α}, r.Shared false →
      Yields (Rule.parse room r) s (fun _ t => Sparing old t) (fun _ t => Sparing old t) :=
    fun hr => yields_of_parallel ((coupled_parse (sparing old) room).rule _ hr) hs
  cases r with
  | sendMessage receiver =>
    cases room with
    | zero => exact (yields_of_eq_error (m := Parser.fail .nestedTooDeeply) rfl).2 hs
    | succ room =>
      have hbody := parallel_sendMessage_old (coupled_parse (sparing old) room) (huses receiver List.mem_cons_self)
      have hguarded : (sparing old).Parallel false [] (Rule.parse (room + 1) (.sendMessage receiver))
          (Rule.parse (room + 1) (.sendMessage receiver)) (fun i j => [.node i j]) := hbody.guarded
      exact yields_of_parallel hguarded hs
  | statements => exact hrule rfl
  | _ => exact hrule trivial

end Parser

/-! ## The guard -/

open Courier.Parser

namespace ParserState

/-- After a production that succeeded: the chain of constructs and the open blocks are those of its beginning, and no node from then has
changed but for its parent and for new comments. -/
structure Spares (s t : ParserState) : Prop where
  constructs : t.constructs = s.constructs
  blocks : t.blocks = s.blocks
  tree : s.tree.Annotates t.tree

/-- After a production that failed: the chain and the open blocks are those of its beginning, no mark is saved, there are as many nodes,
and they are the same but for their parents. -/
structure Restores (s t : ParserState) : Prop where
  constructs : t.constructs = s.constructs
  blocks : t.blocks = s.blocks
  unmarked : t.stream.saved = none
  size : t.tree.size = s.tree.size
  node {i : NodeId} {n : Node} (h : s.tree.node? i = some n) : ∃ parent, t.tree.node? i = some { n with parent := parent }

end ParserState

variable {α : Type} {room : Nat} {r : Rule α} {u : ParserState}

/-- Nodes that are handed to a rule are there, and so is whatever a node lists. -/
theorem Parser.Started.sparing (h : Started room r u) : Sparing u.tree u ∧ ∀ i ∈ r.uses, i < u.tree.size := by
  obtain ⟨held, made, hs⟩ := h.holds
  refine ⟨⟨hs.forest.lists, h.unmarked, .refl _⟩, fun i hi => hs.forest.lt_size ?_⟩
  exact List.mem_append_right _ (List.mem_append_left _ (List.mem_append_left _ hi))

/-- The guard of a production. In whatever state a parse starts a production, its success leaves the chain and the open blocks as they
were, and old nodes with new comments at most; its failure gives back the state, but for the parents of old nodes, and leaves no flags.
Only a production that is refused, as too many are nested already, leaves them, and everything else. -/
theorem Stream.restores_of_starts {s : Stream} (h : s.Starts room r u) :
    Yields (Rule.parse room r) u (fun _ t => u.Spares t) (fun _ t => u.Restores t ∧
      (u.constructs.length < maxNesting → t.pendingFlags = none) ∧ (maxNesting ≤ u.constructs.length → t = u)) := by
  have hstarted := h.started
  obtain ⟨hs, huses⟩ := hstarted.sparing
  have hspares := sparing_parse room r hs huses
  have hroom := hstarted.room_eq
  cases room with
  | zero =>
    refine (yields_of_eq_error (m := fail .nestedTooDeeply) rfl).2 ⟨⟨rfl, rfl, hs.unmarked, rfl, fun {i n} hn => ⟨n.parent, hn⟩⟩, ?_⟩
    exact ⟨fun hlt => by omega, fun _ => rfl⟩
  | succ room =>
    cases hparse : Rule.parse (room + 1) r u with
    | ok a t =>
      obtain ⟨t', -, rfl⟩ := exists_of_guarded hparse
      exact (yields_of_eq_ok hparse).2 ⟨rfl, rfl, (hspares.ok hparse).annotates⟩
    | error e t =>
      have ht := hspares.error hparse
      obtain ⟨t', rfl⟩ := exists_of_guarded_error hparse
      have hsize := Nat.le_antisymm (Tree.size_discardFrom_le t'.tree u.tree.size) ht.annotates.size_le
      have hrestores : u.Restores (t'.abandon u.checkpoint).2 :=
        ⟨rfl, rfl, ht.unmarked, hsize, fun hn => ht.annotates.exists_parent hsize hn⟩
      exact (yields_of_eq_error hparse).2 ⟨hrestores, fun _ => rfl, fun hle => by omega⟩

/-- What a production that fails tells of as destroyed. -/
def Parser.discarded? : EStateM.Result ParseError ParserState α → Option Kind
  | .ok _ _ => none
  | .error e _ => e.discarded

/-- The array of a statement that breaks off is destroyed, and so are the comments behind its name, which were added to the block. -/
theorem Stream.restores_of_starts_statement : ∃ s u e t, Stream.tokenize "unit" "\x7b # c\n x # d\n := [1, # e\n\x7d" = .ok s ∧
    s.Starts 253 .statement u ∧ Rule.parse 253 .statement u = .error e t ∧ e.discarded = some .arrayLiteral ∧ u.Restores t ∧
    t.pendingFlags = none := by
  obtain ⟨s, hs⟩ := Stream.exists_tokenize "unit" "\x7b # c\n x # d\n := [1, # e\n\x7d" (by decide +kernel)
  have hsignificant : (Stream.tokenize "unit" "\x7b # c\n x # d\n := [1, # e\n\x7d").toOption.map (fun s => significant s.tokens) =
      some [⟨.leftBrace, "\x7b", ⟨1, 1, 0⟩⟩, ⟨.identifier, "x", ⟨2, 2, 7⟩⟩, ⟨.assignment, ":=", ⟨3, 2, 14⟩⟩, ⟨.leftBracket, "[", ⟨3, 5, 17⟩⟩,
        ⟨.integerLiteral, "1", ⟨3, 6, 18⟩⟩, ⟨.comma, ",", ⟨3, 7, 19⟩⟩, ⟨.rightBrace, "\x7d", ⟨4, 1, 25⟩⟩] := by decide +kernel
  have hdiscarded : (Stream.tokenize "unit" "\x7b # c\n x # d\n := [1, # e\n\x7d").toOption.map (fun s =>
      discarded? (Rule.parse 253 .statement (s.atStatement true))) = some (some .arrayLiteral) := by decide +kernel
  rw [hs] at hsignificant hdiscarded
  have hstarts := Stream.starts_statement (Option.some.inj hsignificant) rfl rfl true
  simp only [Except.toOption, Option.map_some, Option.some.injEq] at hdiscarded
  -- The state stays a variable, so that nothing evaluates the parse from it.
  generalize s.atStatement true = u at hstarts hdiscarded
  cases hparse : Rule.parse 253 .statement u with
  | ok i t =>
    simp [hparse, Parser.discarded?] at hdiscarded
  | error e t =>
    rw [hparse] at hdiscarded
    obtain ⟨hrestores, hflags, -⟩ := (Stream.restores_of_starts hstarts).error hparse
    have hroom := hstarts.started.room_eq
    exact ⟨s, u, e, t, hs, hstarts, hparse, hdiscarded, hrestores, hflags (by omega)⟩

end Courier
