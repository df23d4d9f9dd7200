import Courier.Proofs.Parser.Parallel

/-!
# Failures with their constructs and without

Whether failures are to tell the constructs they happen in is asked wherever a failure is made, and nowhere else. So a run that does not
tell them goes as one that does: through the same states, but for the option itself, to the same value or to a failure that differs in the
constructs only (`untracing`). A parse therefore gives the same tree with the option and without it (`Stream.parse_untraced`).
-/

namespace Courier

/-- The failure without the chain of constructs. -/
def ParseError.untraced (e : ParseError) : ParseError :=
  { e with constructs := [] }

namespace ParserState

/-- The state of a run whose failures tell no constructs. -/
def untraced (s : ParserState) : ParserState :=
  { s with traces := false }

variable (s : ParserState)

/-! ## What the operations make of the option -/

theorem placeComment_untraced (t : Token) : s.untraced.placeComment t = (s.placeComment t).untraced := by
  cases hopen : s.blocks with
  | nil =>
    rw [placeComment_of_nil hopen, placeComment_of_nil (s := s.untraced) hopen]
    rfl
  | cons b bs =>
    rw [placeComment_of_cons hopen, placeComment_of_cons (s := s.untraced) hopen]
    rfl

theorem settle_untraced : s.untraced.settle = s.settle.untraced := by
  have hall : ∀ (ts : List Token) (s : ParserState), s.stream.ahead = ts →
      s.untraced.takeComments ts = (s.takeComments ts).untraced := by
    intro ts
    induction ts with
    | nil => exact fun _ _ => rfl
    | cons t rest ih =>
      intro s hs
      cases hc : t.isComment with
      | false => rw [takeComments_of_head (by simp [hc]), takeComments_of_head (by simp [hc])]
      | true =>
        rw [takeComments_cons_comment hs hc, takeComments_cons_comment (s := s.untraced) hs hc, ← ih _ (by simp),
          ← placeComment_untraced]
        rfl
  exact hall _ s rfl

theorem taken_untraced : s.untraced.taken = s.taken.untraced := by
  have hstream : s.settle.untraced.stream = s.settle.stream := rfl
  unfold taken
  rw [settle_untraced, hstream]
  cases s.settle.stream.ahead <;> rfl

theorem openNode_untraced (p : Payload) (l : Location) : (s.untraced.openNode p l).2 = (s.openNode p l).2.untraced := by
  cases hcontainer : p.kind.isContainer with
  | true =>
    rw [openNode_of_container hcontainer, openNode_of_container hcontainer]
    rfl
  | false =>
    rw [openNode_of_not_container hcontainer, openNode_of_not_container hcontainer]
    rfl

end ParserState

namespace Parser

open ParserState

/-! ## The coupling -/

/-- A run whose failures tell the constructs, or not, and one whose failures do not. A world is a state of the first one. -/
def untracing : Coupling where
  World := ParserState
  Later w w' := w.tree.size ≤ w'.tree.size
  State w s s' := s = w ∧ s' = w.untraced ∧ w.stream.saved = none
  Place _ l l' := l' = l
  Node w i i' := i' = i ∧ i < w.tree.size
  Failed _ e t e' t' := e' = e.untraced ∧ t' = t.untraced

/-- A state that the first run comes to, where no node is in hand. -/
theorem onward_untracing {w t t' : ParserState} (hsize : w.tree.size ≤ t.tree.size) (ht' : t' = t.untraced) (hsaved : t.stream.saved = none) :
    untracing.Onward w t t' [] :=
  ⟨t, hsize, ⟨rfl, ht', hsaved⟩, fun _ hb => nomatch hb⟩

theorem onward_untracing_place {w t t' : ParserState} {l : Location} (hsize : w.tree.size ≤ t.tree.size) (ht' : t' = t.untraced)
    (hsaved : t.stream.saved = none) : untracing.Onward w t t' [.place l l] := by
  refine ⟨t, hsize, ⟨rfl, ht', hsaved⟩, fun b hb => ?_⟩
  obtain rfl := List.mem_singleton.1 hb
  exact rfl

instance untracing_free : untracing.Free where
  refl w := Nat.le_refl _
  trans h h' := Nat.le_trans h h'
  place_later _ hl := hl
  node_later h hi := ⟨hi.1, Nat.lt_of_lt_of_le hi.2 h⟩
  owner_later h hi := ⟨hi.1, Nat.lt_of_lt_of_le hi.2 h⟩
  folded := Token.folded_of_sign
  fault_refl _ := rfl
  fault_text h fault := congrArg fault (congrArg Prod.snd h)
  unmarked := by
    rintro w s s' ⟨rfl, rfl, hsaved⟩
    exact ⟨hsaved, hsaved⟩
  signs := by
    rintro w s s' ⟨rfl, rfl, -⟩
    rfl
  settle := by
    rintro w s s' ⟨rfl, rfl, hsaved⟩
    exact onward_untracing_place (size_le_settle s) (settle_untraced s) ((saved_settle s).trans hsaved)
  taken := by
    rintro w s s' t t' v v' ⟨rfl, rfl, hsaved⟩ hs hs'
    obtain ⟨rfl, -⟩ := List.cons.inj (hs.symm.trans hs')
    refine onward_untracing_place ?_ (taken_untraced s) ((saved_taken s).trans hsaved)
    rw [tree_taken]
    exact size_le_settle s
  keepFlags := by
    rintro w s s' ⟨rfl, rfl, hsaved⟩ flags
    exact onward_untracing (t := { s with pendingFlags := some flags }) (Nat.le_refl _) rfl hsaved
  enter := by
    rintro w s s' ⟨rfl, rfl, hsaved⟩ construct
    exact onward_untracing (t := s.enter construct) (Nat.le_refl _) rfl hsaved
  leave := by
    rintro w w' s s' t t' ⟨rfl, rfl, -⟩ - ⟨rfl, rfl, hsaved⟩
    exact onward_untracing (t := t.leave s.checkpoint) (Nat.le_refl _) rfl hsaved
  failed_here := by
    rintro w s s' fault fault' ⟨rfl, rfl, -⟩ rfl
    exact ⟨rfl, rfl⟩
  failed_at := by
    rintro w s s' l l' fault fault' ⟨rfl, rfl, -⟩ rfl rfl
    exact ⟨rfl, rfl⟩
  abandon := by
    rintro w w' s s' t t' e e' ⟨rfl, rfl, -⟩ - ⟨rfl, rfl⟩
    exact ⟨s, Nat.le_refl _, rfl, rfl⟩
  shared _ := trivial
  openNode := by
    rintro w s s' l l' p ⟨rfl, rfl, hsaved⟩ rfl - - -
    have hsize : (s.openNode p l').2.tree.size = s.tree.size + 1 := size_openNode s p l'
    refine ⟨(s.openNode p l').2, Nat.le_of_lt (hsize ▸ Nat.lt_succ_self _),
      ⟨rfl, openNode_untraced s p l', by rw [stream_openNode]; exact hsaved⟩, fun b hb => ?_⟩
    obtain rfl := List.mem_singleton.1 hb
    refine ⟨?_, by rw [fst_openNode, hsize]; exact Nat.lt_succ_self _⟩
    rw [fst_openNode, fst_openNode]
    rfl
  attach := by
    rintro w s s' i i' j j' ⟨rfl, rfl, hsaved⟩ ⟨rfl, -⟩ ⟨rfl, -⟩
    exact onward_untracing (t := s.attached i' j') (Nat.le_of_eq (Tree.size_attach _ _ _).symm) rfl hsaved
  owner _ hi _ := hi
  nodeLocation := by
    rintro w s s' i i' ⟨rfl, rfl, -⟩ ⟨rfl, hi⟩
    obtain ⟨n, hn⟩ := Tree.exists_node? hi
    exact ⟨n, n, hn, hn, rfl⟩
  text h := congrArg Prod.snd h
  shared_any _ := trivial
  owner_of_node hi := hi

end Parser

/-! ## Whole parses -/

namespace Stream

open Courier.Parser

/-- Without the option a parse leaves the stream as with it, and it gives the same tree, or the failure without its constructs. -/
theorem parse_untraced (s : Stream) :
    s.parse false = ((s.parse true).1.mapError ParseError.untraced, (s.parse true).2) := by
  have hunit : untracing.Parallel false [] (Rule.unit.parse maxNesting) (Rule.unit.parse maxNesting) (fun i i' => [.node i i']) :=
    (coupled_parse untracing maxNesting).rule .unit trivial
  have hstart : untracing.State (ParserState.initial s true) (.initial s true) (.initial s false) := ⟨rfl, rfl, rfl⟩
  rw [parse_eq_report, parse_eq_report]
  rcases hunit _ _ _ hstart (by simp) with ⟨root, root', t, t', ht, ht', hstep⟩ | ⟨e, e', t, t', ht, ht', hfail⟩
  · obtain ⟨w, -, ⟨rfl, rfl, -⟩, hbonds⟩ := hstep.onward
    obtain ⟨rfl, -⟩ : root' = root ∧ _ := hbonds _ (List.mem_singleton_self _)
    rw [ht, ht']
    rfl
  · obtain ⟨-, -, rfl, rfl⟩ := hfail
    rw [ht, ht']
    rfl

/-- With the option or without it, a parse gives the same tree. -/
theorem parse_ok_congr {s : Stream} {tree : Tree} (trace trace' : Bool) : (s.parse trace).1 = .ok tree ↔ (s.parse trace').1 = .ok tree := by
  have hsame : (s.parse false).1 = .ok tree ↔ (s.parse true).1 = .ok tree := by
    rw [parse_untraced]
    cases (s.parse true).1 with
    | ok tree' => exact Iff.rfl
    | error e => exact ⟨nofun, nofun⟩
  cases trace <;> cases trace'
  · rfl
  · exact hsame
  · exact hsame.symm
  · rfl

end Stream

end Courier
