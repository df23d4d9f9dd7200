import Courier.Proofs.Parser.Starts
import Mathlib.Data.List.DropRight

/-!
# What the guard cuts off

The guard of a production remembers the chain of constructs and the open blocks, and puts them back. It need not remember more of them
than how many there are: inside a production both are only added to, so that what was there is at the bottom when its body ends, however it
ends (`Parser.stacked_body`). To cut both down to the depths they had is therefore to put them back, and a guard that does so, and that
asks the depth of the chain whether there is room for its production, is the guard of every production that a parse starts
(`Stream.Starts.parse_eq_production`).
-/

namespace Courier

namespace Parser

open ParserState

variable {I J : Inner} {c : Construct} {moved moves : Bool} {α β : Type} {m n : Parser α} {s t u : ParserState}

/-! ## What is at the bottom -/

/-- The chain is that of an earlier state, and the open blocks of that state are still open, below all others. -/
structure OnTop (s t : ParserState) : Prop where
  constructs : t.constructs = s.constructs
  blocks : s.blocks <:+ t.blocks

theorem OnTop.rfl : OnTop s s :=
  ⟨Eq.refl _, List.suffix_rfl⟩

theorem OnTop.trans (h : OnTop s t) (h' : OnTop t u) : OnTop s u :=
  ⟨h'.constructs.trans h.constructs, h.blocks.trans h'.blocks⟩

theorem onTop_settle (s : ParserState) : OnTop s s.settle :=
  ⟨constructs_settle s, (blocks_settle s).symm ▸ List.suffix_rfl⟩

theorem onTop_taken (s : ParserState) : OnTop s s.taken :=
  ⟨constructs_taken s, (blocks_taken s).symm ▸ List.suffix_rfl⟩

/-- A block that is opened is on top of those that are open. -/
theorem onTop_openNode (s : ParserState) (p : Payload) (l : Location) : OnTop s (s.openNode p l).2 := by
  refine ⟨constructs_openNode s p l, ?_⟩
  cases hcontainer : p.kind.isContainer with
  | true =>
    rw [openNode_of_container hcontainer]
    exact List.suffix_cons _ _
  | false =>
    have hblocks : (s.openNode p l).2.blocks = s.blocks := by rw [openNode_of_not_container hcontainer]
    exact hblocks.symm ▸ List.suffix_rfl

/-- A parser that leaves what was on the stacks at their bottom, whether it succeeds or fails. -/
def Stacked (m : Parser α) : Prop :=
  ∀ s, Yields m s (fun _ t => OnTop s t) (fun _ t => OnTop s t)

theorem Elementary.stacked (h : Elementary moves m) : Stacked m := by
  intro s
  cases h with
  | pure a => exact .rfl
  | get => exact .rfl
  | look h => exact (yields_of_eq_ok (h s)).2 (onTop_settle s)
  | take =>
    cases hs : s.significant with
    | nil => exact (yields_of_eq_error (take_eq_fail hs)).2 (onTop_settle s)
    | cons t v => exact (yields_of_eq_ok (take_eq hs)).2 (onTop_taken s)
  | @speculate scan f hscan =>
    cases hsaved : s.stream.saved with
    | none => exact (yields_of_eq_ok (speculate_eq hscan hsaved)).2 .rfl
    | some mark => exact (yields_of_eq_error (speculate_eq_error scan hsaved)).2 .rfl
  | openNode p l => exact onTop_openNode s p l
  | attach parent child => exact ⟨rfl, List.suffix_rfl⟩
  | keepFlags flags => exact ⟨rfl, List.suffix_rfl⟩
  | fail _ => exact .rfl
  | failFound _ => exact .rfl

theorem Stacked.bind {f : α → Parser β} (hm : Stacked m) (hf : ∀ a, Stacked (f a)) : Stacked (m >>= f) := by
  intro s
  refine yields_bind.2 ((hm s).mono (fun a t ht => ?_) (fun _ _ ht => ht))
  exact (hf a t).mono (fun _ _ hu => ht.trans hu) (fun _ _ hu => ht.trans hu)

/-- What is put together from productions that leave the stacks leaves them. -/
theorem Assembled.stacked (h : Assembled I J c moved moves m n) (hI : ∀ {α : Type} (r : Rule α), Stacked (I.parse r)) : Stacked m := by
  induction h with
  | elementary h => exact h.stacked
  | blame _ l fault => exact fun s => (yields_of_eq_error (m := failAt l fault) rfl).2 .rfl
  | call r _ => exact hI r
  | seq _ _ ih ihf | after _ _ ih ihf => exact ih.bind ihf
  | loose _ ih => exact ih

/-- The guard puts both stacks back, whatever its body does. -/
theorem stacked_guarded (c : Construct) (m : Parser α) : Stacked (guarded c m) := by
  intro s
  cases hm : guarded c m s with
  | ok a t =>
    obtain ⟨u, -, rfl⟩ := exists_of_guarded hm
    exact (yields_of_eq_ok hm).2 ⟨rfl, List.suffix_rfl⟩
  | error e t =>
    obtain ⟨u, rfl⟩ := exists_of_guarded_error hm
    exact (yields_of_eq_error hm).2 ⟨rfl, List.suffix_rfl⟩

theorem stacked_parse (room : Nat) (r : Rule α) : Stacked (Rule.parse room r) := by
  cases room with
  | zero => exact fun s => (yields_of_eq_error (m := fail .nestedTooDeeply) rfl).2 .rfl
  | succ room => exact stacked_guarded r.construct _

/-- Where the body of a production ends, the chain is that of its beginning, and the blocks that were open then are still open, below all
others. -/
theorem stacked_body (room : Nat) (r : Rule α) : Stacked (r.body ⟨fun r => Rule.parse room r⟩) :=
  (assembled_body (J := ⟨fun r => Rule.parse room r⟩) r).stacked (fun r => stacked_parse room r)

end Parser

/-! ## A guard that knows the depths only -/

namespace ParserState

/-- The state with the chain and the open blocks cut down to the given depths. -/
def cut (s : ParserState) (depth targets : Nat) : ParserState :=
  { s with constructs := s.constructs.rtake depth, blocks := s.blocks.rtake targets }

/-- The state without the nodes from a mark on, cut down as well, and the kind of the first node destroyed. -/
def undone (s : ParserState) (mark depth targets : Nat) : Option Kind × ParserState :=
  let (first, tree) := s.tree.discardFrom mark
  (first, { s with
    tree := tree
    pendingComments := s.pendingComments.filter (· < mark)
    pendingFlags := none }.cut depth targets)

end ParserState

namespace Parser

open ParserState

variable {I : Inner} {c : Construct} {α : Type} {m : Parser α} {s t : ParserState} {room : Nat}

/-- A production that is guarded by depths. It is refused where too many are nested already. Its chain is in order if that is deeper by one
and the construct is innermost, and both stacks are cut down to the depths they had. -/
def production (construct : Construct) (body : Parser α) : Parser α := fun s =>
  let depth := s.constructs.length
  let targets := s.blocks.length
  let mark := s.tree.size
  if maxNesting ≤ depth then fail .nestedTooDeeply s
  else
    let result : EStateM.Result ParseError ParserState α :=
      match body (s.enter construct) with
      | .ok a t =>
        if t.constructs.length ≠ depth + 1 ∨ t.constructs.head? ≠ some construct then
          .error (t.errorAt t.here (.unbalanced construct)) t
        else .ok a t
      | .error e t => .error e t
    match result with
    | .ok a t => .ok a (t.cut depth targets)
    | .error e t =>
      let (first, u) := t.undone mark depth targets
      .error (e.discarding first) u

theorem rtake_of_suffix {β : Type} {stack below : List β} (h : below <:+ stack) : stack.rtake below.length = below :=
  (List.suffix_iff_eq_drop.1 h).symm

/-- To cut the stacks down to the depths they had puts them back. -/
theorem OnTop.cut_eq (h : OnTop (s.enter c) t) : t.cut s.constructs.length s.blocks.length = t.leave s.checkpoint := by
  have hconstructs : s.constructs <:+ t.constructs := h.constructs ▸ List.suffix_cons c s.constructs
  have hblocks : s.blocks <:+ t.blocks := h.blocks
  unfold ParserState.cut
  rw [rtake_of_suffix hconstructs, rtake_of_suffix hblocks]
  rfl

theorem OnTop.undone_eq (h : OnTop (s.enter c) t) :
    t.undone s.tree.size s.constructs.length s.blocks.length = t.abandon s.checkpoint := by
  have hcut : ∀ (tree : Tree) (comments : List NodeId),
      { t with tree := tree, pendingComments := comments, pendingFlags := none }.cut s.constructs.length s.blocks.length =
        { t with tree := tree, pendingComments := comments, pendingFlags := none }.leave s.checkpoint :=
    fun _ _ => OnTop.cut_eq (c := c) ⟨h.constructs, h.blocks⟩
  exact congrArg (Prod.mk _) (hcut _ _)

/-- Around a body that leaves the stacks, the guard that puts them back is the one that cuts them down. -/
theorem guarded_eq_production (hm : Stacked m) (hdepth : s.constructs.length < maxNesting) : guarded c m s = production c m s := by
  unfold production
  rw [if_neg (Nat.not_le_of_lt hdepth)]
  cases hrun : m (s.enter c) with
  | ok a t =>
    have hontop := (hm (s.enter c)).ok hrun
    have hchain : t.constructs = c :: s.constructs := hontop.constructs
    rw [guarded_eq_ok hrun hchain, ← hontop.cut_eq]
    simp [hchain]
  | error e t =>
    have hontop := (hm (s.enter c)).error hrun
    rw [guarded_eq_abandon hrun, ← hontop.undone_eq]

/-- Where the depth of the chain and the room make up the limit, a rule is its body guarded by depths. -/
theorem parse_eq_production (r : Rule α) (hroom : s.constructs.length + room = maxNesting) :
    Rule.parse room r s = production r.construct (r.body ⟨fun r => Rule.parse (room - 1) r⟩) s := by
  cases room with
  | zero => exact (if_pos (Nat.le_of_eq hroom.symm)).symm
  | succ room => exact guarded_eq_production (stacked_body room r) (by omega)

end Parser

open Courier.Parser

/-- Every production that a parse starts is guarded by depths: it is refused exactly where as many are nested as may be, and what it
remembers of the stacks is how deep they were. -/
theorem Stream.Starts.parse_eq_production {s : Stream} {room : Nat} {α : Type} {r : Rule α} {u : ParserState} (h : s.Starts room r u) :
    Rule.parse room r u = production r.construct (r.body ⟨fun r => Rule.parse (room - 1) r⟩) u :=
  Courier.Parser.parse_eq_production r h.started.room_eq

end Courier
