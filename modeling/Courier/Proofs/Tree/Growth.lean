import Courier.Proofs.Parser.Operation
import Courier.Proofs.Parser.Yields
import Courier.Proofs.Tree.Forest

/-!
# What a parser grows

Between two operations of a parser its tree is a forest. The nodes without a parent are those that are held, by this production or
by one around it, those that were made and wait for their parent, and the comments that wait for a block (`Holds`). `Grows` says what
a parser adds to them. No rule here speaks of tokens: whatever a parser reads, it links each node once.
-/

namespace Courier.Parser

open ParserState

/-- The tree is a forest of the nodes held, the nodes made and the pending comments, and no node was attached twice. -/
structure Grown (held made : List NodeId) (s : ParserState) : Prop where
  forest : s.tree.Forest (held ++ (made ++ s.pendingComments))
  asserted : s.reattached = false

/-- Besides, the open blocks are among the nodes held. So comments go to a node that has no parent yet, and a node that was made may
be linked. -/
structure Holds (held made : List NodeId) (s : ParserState) : Prop extends Grown held made s where
  blocks_held : ∀ block ∈ s.blocks, block ∈ held

/-- Where the nodes `held` and `made` are without a parent, the parser succeeds in a state that satisfies `Q`, with the chain of
constructs as before, or it fails without having attached a node twice. -/
def Grows {α : Type} (held made : List NodeId) (m : Parser α) (Q : α → ParserState → Prop) : Prop :=
  ∀ s : ParserState, Holds held made s →
    Yields m s (fun a t => t.constructs = s.constructs ∧ Q a t) (fun _ t => t.reattached = false)

/-! ## Nodes in hand -/

section

variable {held made : List NodeId} {s : ParserState}

theorem Grown.perm {held' made' : List NodeId} (h : Grown held made s) (hp : (held ++ made).Perm (held' ++ made')) :
    Grown held' made' s := by
  refine ⟨h.forest.perm ?_, h.asserted⟩
  rw [← List.append_assoc, ← List.append_assoc]
  exact hp.append_right _

/-- The nodes made may be named in any order. -/
theorem Holds.perm {made' : List NodeId} (h : Holds held made s) (hp : made.Perm made') : Holds held made' s :=
  ⟨h.toGrown.perm (hp.append_left _), h.blocks_held⟩

/-- A node that was held is released to the production around, once this one has ended. -/
theorem Holds.release {node : NodeId} (h : Holds (node :: held) made s) : Grown held (node :: made) s :=
  h.toGrown.perm List.perm_middle.symm

theorem Holds.moveTo (h : Holds held made s) (stream : Stream) : Holds held made { s with stream := stream } :=
  ⟨⟨h.forest, h.asserted⟩, h.blocks_held⟩

/-- A comment is linked below the innermost open block, which is held, or it waits with the others. -/
theorem Holds.placeComment (h : Holds held made s) (t : Token) : Holds held made (s.placeComment t) := by
  have halloc := h.forest.alloc (p := .comment t.text) rfl t.location
  have hheld := h.blocks_held
  unfold ParserState.placeComment
  dsimp only
  split
  · rename_i block blocks hblocks
    rw [hblocks] at hheld
    refine ⟨⟨halloc.attachComment (List.mem_append_left _ (hheld block List.mem_cons_self)), h.asserted⟩, ?_⟩
    exact h.blocks_held
  · refine ⟨⟨halloc.perm ?_, h.asserted⟩, h.blocks_held⟩
    simp only [← List.append_assoc]
    exact (List.perm_append_singleton _ _).symm

theorem Holds.settle (h : Holds held made s) : Holds held made s.settle :=
  settle_induction (fun _ t _ _ _ h => Holds.placeComment (h.moveTo _) t) h

/-- A new node that is no block waits for its parent. -/
theorem Holds.openNode {payload : Payload} (h : Holds held made s) (hkind : payload.kind.isContainer = false)
    (hvalue : payload.returnValue = none) (l : Location) :
    Holds held ((s.openNode payload l).1 :: made) (s.openNode payload l).2 := by
  have halloc := (h.forest.alloc hvalue l).perm List.perm_middle.symm
  unfold ParserState.openNode
  simp only [hkind]
  refine ⟨⟨?_, h.asserted⟩, h.blocks_held⟩
  cases s.pendingFlags with
  | none => exact halloc
  | some flags => exact halloc.setFlags _ _

/-- A new block is held, and the pending comments are linked below it. -/
theorem Holds.openBlock {payload : Payload} (h : Holds held made s) (hkind : payload.kind.isContainer = true) (l : Location) :
    Holds ((s.openNode payload l).1 :: held) made (s.openNode payload l).2 := by
  have hvalue : payload.returnValue = none := by cases payload <;> first | rfl | nomatch hkind
  have horder : (s.tree.size :: (held ++ (made ++ s.pendingComments))).Perm
      (s.pendingComments ++ s.tree.size :: (held ++ made)) := by
    rw [← List.append_assoc, ← List.cons_append]
    exact List.perm_append_comm
  have halloc := (h.forest.alloc hvalue l).perm horder
  unfold ParserState.openNode
  simp only [hkind, if_true]
  refine ⟨⟨?_, h.asserted⟩, ?_⟩
  · simp only [List.append_nil]
    cases s.pendingFlags with
    | none => exact halloc.attachComments List.mem_cons_self
    | some flags => exact (halloc.setFlags _ _).attachComments List.mem_cons_self
  · intro block hblock
    rcases List.mem_cons.1 hblock with rfl | hblock
    · exact List.mem_cons_self
    · exact List.mem_cons_of_mem _ (h.blocks_held block hblock)

/-- A node that was made is linked below another that is held or made, and no node was attached twice. -/
theorem Holds.attach {parent child : NodeId} (h : Holds held (child :: made) s) (hp : parent ∈ held ++ made) :
    Holds held made { s with
      tree := s.tree.attach parent child
      reattached := s.reattached || s.tree.hasParent child } := by
  have hforest : s.tree.Forest (child :: (held ++ (made ++ s.pendingComments))) := h.forest.perm List.perm_middle
  refine ⟨⟨hforest.attach ?_, ?_⟩, h.blocks_held⟩
  · rw [← List.append_assoc]
    exact List.mem_append_left _ hp
  · simp only
    rw [h.asserted, hforest.hasParent_eq List.mem_cons_self]
    rfl

end

/-! ## Parsers in sequence -/

section

variable {α β : Type} {held made : List NodeId} {m : Parser α} {f : α → Parser β}

theorem Grows.mono {Q Q' : α → ParserState → Prop} (h : Grows held made m Q) (hQ : ∀ a t, Q a t → Q' a t) :
    Grows held made m Q' :=
  fun s hs => (h s hs).mono (fun a t ht => ⟨ht.1, hQ a t ht.2⟩) (fun _ _ he => he)

/-- The second parser goes on with the nodes that the first one leaves. -/
theorem Grows.bind {held' made' : α → List NodeId} {Q : β → ParserState → Prop}
    (hm : Grows held made m (fun a => Holds (held' a) (made' a))) (hf : ∀ a, Grows (held' a) (made' a) (f a) Q) :
    Grows held made (m >>= f) Q := by
  intro s hs
  rw [yields_bind]
  refine (hm s hs).mono (fun a t ⟨htc, ht⟩ => ?_) (fun _ _ he => he)
  exact (hf a t ht).mono (fun b u hu => ⟨hu.1.trans htc, hu.2⟩) (fun _ _ he => he)

theorem Grows.map {Q : ParserState → Prop} {g : α → β} (hm : Grows held made m (fun _ => Q)) :
    Grows held made (g <$> m) (fun _ => Q) := by
  intro s hs
  rw [yields_map]
  exact hm s hs

/-- The nodes made may be named in any order. -/
theorem Grows.perm {made' : List NodeId} {Q : α → ParserState → Prop} (h : Grows held made' m Q) (hp : made.Perm made') :
    Grows held made m Q :=
  fun s hs => h s (hs.perm hp)

theorem Grows.grown {held' made' : α → List NodeId} (h : Grows held made m (fun a => Holds (held' a) (made' a))) :
    Grows held made m (fun a => Grown (held' a) (made' a)) :=
  h.mono (fun _ _ ht => ht.toGrown)

theorem grows_pure {a : α} : Grows held made (pure a) (fun _ => Holds held made) :=
  fun _ hs => yields_pure.2 ⟨rfl, hs⟩

/-- A production that opened a block yields it. -/
theorem grows_release {node : NodeId} : Grows (node :: held) made (pure node) (fun a => Grown held (a :: made)) :=
  fun _ hs => yields_pure.2 ⟨rfl, hs.release⟩

/-- A production yields the node it made last. -/
theorem grows_yield {node : NodeId} : Grows held (node :: made) (pure node) (fun a => Holds held (a :: made)) :=
  fun _ hs => yields_pure.2 ⟨rfl, hs⟩

/-! ## Failures -/

theorem grows_fail {Q : α → ParserState → Prop} {fault : ParseFault} : Grows held made (fail fault : Parser α) Q :=
  fun _ hs => hs.asserted

theorem grows_failFound {Q : α → ParserState → Prop} {fault : Option String → ParseFault} :
    Grows held made (failFound fault : Parser α) Q :=
  fun _ hs => hs.asserted

theorem grows_failAt {Q : α → ParserState → Prop} {l : Location} {fault : ParseFault} :
    Grows held made (failAt l fault : Parser α) Q :=
  fun _ hs => hs.asserted

/-! ## Tokens -/

theorem grows_looks {p : Option Token → α} (hm : Looks m p) : Grows held made m (fun _ => Holds held made) :=
  fun s hs => (yields_of_eq_ok (hm s)).2 ⟨constructs_settle s, hs.settle⟩

theorem grows_location : Grows held made location (fun _ => Holds held made) := by
  intro s hs
  obtain ⟨l, hl⟩ := location_eq s
  exact (yields_of_eq_ok hl).2 ⟨constructs_settle s, hs.settle⟩

theorem grows_move (move' : Stream → Except CursorError Stream) :
    Grows held made (move move') (fun _ => Holds held made) := by
  intro s hs
  unfold Yields move
  cases move' s.stream with
  | ok stream => exact ⟨rfl, hs.moveTo stream⟩
  | error cause => exact hs.asserted

theorem grows_take : Grows held made take (fun _ => Holds held made) := by
  unfold take
  refine (grows_looks looks_current?).bind (fun next => ?_)
  split
  · exact (grows_move _).bind (fun _ => grows_pure)
  · exact grows_fail

theorem grows_expect {k : TokenKind} {what : String} : Grows held made (expect k what) (fun _ => Holds held made) := by
  unfold expect
  refine (grows_looks (looks_atKind k)).bind (fun found => ?_)
  split
  · exact grows_take
  · exact grows_failFound

theorem grows_expectKeyword {word : Keyword} : Grows held made (expectKeyword word) (fun _ => Holds held made) := by
  unfold expectKeyword
  refine (grows_looks (looks_atKeyword word)).bind (fun found => ?_)
  split
  · exact grows_take
  · exact grows_failFound

theorem grows_identifier {what : String} : Grows held made (identifier what) (fun _ => Holds held made) :=
  grows_expect.bind (fun _ => grows_pure)

/-- A scan moves the cursor and nothing else. -/
theorem grows_speculate {scan : Scan} : Grows held made (speculate scan) (fun _ => Holds held made) := by
  unfold speculate
  refine (grows_move _).bind (fun _ => Grows.bind ?_ (fun matched => (grows_move _).bind (fun _ => grows_pure)))
  exact fun s hs => ⟨rfl, hs.moveTo _⟩

/-! ## Nodes -/

theorem grows_keepFlags (flags : List String) : Grows held made (keepFlags flags) (fun _ => Holds held made) :=
  fun _ hs => ⟨rfl, ⟨⟨hs.forest, hs.asserted⟩, hs.blocks_held⟩⟩

theorem grows_openNode {payload : Payload} {l : Location} (hkind : payload.kind.isContainer = false)
    (hvalue : payload.returnValue = none) :
    Grows held made (openNode payload l) (fun node => Holds held (node :: made)) :=
  fun s hs => ⟨s.constructs_openNode payload l, hs.openNode hkind hvalue l⟩

theorem grows_openBlock {payload : Payload} {l : Location} (hkind : payload.kind.isContainer = true) :
    Grows held made (openNode payload l) (fun node => Holds (node :: held) made) :=
  fun s hs => ⟨s.constructs_openNode payload l, hs.openBlock hkind l⟩

theorem grows_attach {parent child : NodeId} (hp : parent ∈ held ++ made) :
    Grows held (child :: made) (attach parent child) (fun _ => Holds held made) :=
  fun _ hs => ⟨rfl, hs.attach hp⟩

/-- A node that a parser makes is linked below another at once. -/
theorem Grows.attach {m : Parser NodeId} {parent : NodeId} (hm : Grows held made m (fun node => Holds held (node :: made)))
    (hp : parent ∈ held ++ made) : Grows held made (m >>= fun node => attach parent node) (fun _ => Holds held made) :=
  hm.bind (fun _ => grows_attach hp)

theorem grows_nodeLocation (id : NodeId) : Grows held made (nodeLocation id) (fun _ => Holds held made) := by
  intro s hs
  have hget : ∀ f : ParserState → Parser Location, (get >>= f) s = f s s := fun _ => rfl
  unfold Yields nodeLocation
  rw [hget]
  cases s.tree.node? id with
  | some n => exact ⟨rfl, hs⟩
  | none => exact grows_location s hs

/-! ## Loops and productions -/

/-- A loop whose rounds link every node they make leaves no node over. -/
theorem grows_repeatWhile {more : Parser Bool} {step : α → Parser α} (hmore : Grows held made more (fun _ => Holds held made))
    (hstep : ∀ a, Grows held made (step a) (fun _ => Holds held made)) (a : α) :
    Grows held made (repeatWhile more step a) (fun _ => Holds held made) := by
  have hfor : ∀ (rounds : List Token) (a : α), Grows held made (repeatFor more step rounds a) (fun _ => Holds held made) := by
    intro rounds
    induction rounds with
    | nil =>
      intro a
      rw [repeatFor]
      refine hmore.bind (fun goesOn => ?_)
      split
      · exact hstep a
      · exact grows_pure
    | cons t rounds ih =>
      intro a
      rw [repeatFor]
      refine hmore.bind (fun goesOn => ?_)
      split
      · exact (hstep a).bind (fun a' => ih a')
      · exact grows_pure
  exact fun s hs => hfor s.stream.ahead a s hs

/-- A production ends with the blocks of its beginning, which were held all the time. -/
theorem Grows.guarded {construct : Construct} {made' : α → List NodeId}
    (h : Grows held made m (fun a => Grown held (made' a))) :
    Grows held made (guarded construct m) (fun a => Holds held (made' a)) := by
  intro s hs
  have hentered : Holds held made (s.enter construct) := ⟨⟨hs.forest, hs.asserted⟩, hs.blocks_held⟩
  refine yields_guarded ((h _ hentered).mono (fun a t ⟨htc, ht⟩ => ?_) (fun _ _ he => he))
  exact ⟨htc, rfl, ⟨⟨ht.forest, ht.asserted⟩, hs.blocks_held⟩⟩

end

end Courier.Parser
