import Courier.Proofs.Tree.Building
import Courier.Proofs.Tree.Extents

/-!
# How far a parser has got

A parser has taken so many of the tokens that are no comments, and the tree that it has built so far is laid out over them (`Spread`).
Where it goes, it takes at least so many more tokens and makes no node (`Moves`), or it makes a node that begins where it was and ends
where it is (`Lays`). The child that a parser makes goes to the last sketch, which then reaches as far as the parser (`Growing`).
-/

namespace Courier

/-- A text and its tokens that are no comments. -/
structure Script where
  source : String
  tokens : List Token

/-- The place of the token of a number, or the end of the text behind the last. -/
def Script.place (x : Script) (i : Nat) : Location :=
  placeIn x.source (x.tokens.drop i)

namespace Parser

open ParserState

/-- The parser has taken `k` tokens, and its tree is laid out over the tokens. -/
structure Spread (x : Script) (opened : List Sketch) (made : List (NodeId × Extent)) (k : Nat) (s : ParserState) : Prop where
  tree : ∃ extents, s.tree.LaidOut x.place extents opened made
  ahead : s.significant = x.tokens.drop k
  inside : k ≤ x.tokens.length
  unmarked : s.stream.saved = none
  source : s.stream.source = x.source

/-- The parser has taken `k` tokens or more. -/
def SpreadFrom (x : Script) (opened : List Sketch) (made : List (NodeId × Extent)) (k : Nat) (s : ParserState) : Prop :=
  ∃ k', k ≤ k' ∧ Spread x opened made k' s

/-- The parser makes no node and takes `least` tokens at least. -/
def Moves (x : Script) (least : Nat) {α : Type} (m : Parser α) : Prop :=
  ∀ opened made k, Builds (Spread x opened made k) m (fun _ => SpreadFrom x opened made (k + least))

/-- The parser has made these nodes, which begin at the token `start` or behind it. It is `least` tokens behind their beginning and `margin`
tokens behind their end, at least. -/
def Lays (x : Script) (opened : List Sketch) (made : List (NodeId × Extent)) (start height margin least : Nat) (nodes : List NodeId)
    (s : ParserState) : Prop :=
  ∃ (e : Extent) (k : Nat), (start ≤ e.start ∧ e.start + least ≤ k ∧ e.stop + margin ≤ k ∧ e.height ≤ height) ∧
    Spread x opened (nodes.map (·, e) ++ made) k s

/-- The parser has taken `k` tokens or more, and the last sketch reaches as far as the parser. -/
def Growing (x : Script) (opened : List Sketch) (made : List (NodeId × Extent)) (node : NodeId) (start height k : Nat)
    (s : ParserState) : Prop :=
  ∃ k', k ≤ k' ∧ Spread x (⟨node, ⟨start, k', height⟩, k'⟩ :: opened) made k' s

/-! ## States -/

section

variable {x : Script} {opened : List Sketch} {made : List (NodeId × Extent)} {k : Nat} {s : ParserState}

theorem laidOut_placeComment {place : Nat → Location} {extents : NodeId → Extent} (h : s.tree.LaidOut place extents opened made)
    (t : Token) : (s.placeComment t).tree.LaidOut place extents opened made := by
  have hcomment := h.comment t.text t.location
  unfold ParserState.placeComment
  dsimp only
  split
  · exact hcomment.keep (Tree.keeps_attachComment _ _ _) (Tree.size_attachComment _ _ _)
  · exact hcomment

/-- Comments do not count. -/
theorem Spread.settle (h : Spread x opened made k s) : Spread x opened made k s.settle := by
  obtain ⟨extents, htree⟩ := h.tree
  have htree' : s.settle.tree.LaidOut x.place extents opened made :=
    settle_induction (I := fun u => u.tree.LaidOut x.place extents opened made)
      (fun u t rest _ _ hu => laidOut_placeComment (s := u.passing t rest) hu t) htree
  refine ⟨⟨extents, htree'⟩, ?_, h.inside, ?_, ?_⟩
  · rw [significant_settle]
    exact h.ahead
  · rw [saved_settle]
    exact h.unmarked
  · rw [source_settle]
    exact h.source

/-- The next token is that of the parser's number. -/
theorem Spread.next (h : Spread x opened made k s) {t : Token} {v : List Token} (hs : s.significant = t :: v) :
    t.location = x.place k ∧ Spread x opened made (k + 1) s.taken := by
  have hdrop : x.tokens.drop k = t :: v := h.ahead.symm.trans hs
  have hlt : k < x.tokens.length := by
    have hlength := congrArg List.length hdrop
    rw [List.length_drop, List.length_cons] at hlength
    omega
  have hsettle := h.settle
  refine ⟨by rw [Script.place, hdrop]; rfl, ⟨by rw [tree_taken]; exact hsettle.tree, ?_, hlt, ?_, ?_⟩⟩
  · rw [significant_taken hs, ← List.tail_drop, hdrop, List.tail_cons]
  · rw [saved_taken]
    exact h.unmarked
  · rw [source_taken]
    exact h.source

theorem Spread.here (h : Spread x opened made k s) : s.here = x.place k := by
  rw [here_eq, h.ahead, h.source, Script.place]

theorem Spread.enter (h : Spread x opened made k s) (construct : Construct) : Spread x opened made k (s.enter construct) :=
  ⟨h.tree, h.ahead, h.inside, h.unmarked, h.source⟩

theorem Spread.leave (h : Spread x opened made k s) (before : Checkpoint) : Spread x opened made k (s.leave before) :=
  ⟨h.tree, h.ahead, h.inside, h.unmarked, h.source⟩

/-- A new node that begins at a token the parser has reached is a sketch. -/
theorem Spread.openNode (h : Spread x opened made k s) {p : Payload} {height : Nat} (hcode : p.kind ≠ .comment)
    (hheight : p.kind.isContainer.toNat < height) (start : Nat) :
    Spread x (⟨(s.openNode p (x.place start)).1, ⟨start, start, height⟩, start⟩ :: opened) made k
      (s.openNode p (x.place start)).2 := by
  obtain ⟨extents, htree⟩ := h.tree
  have halloc := htree.alloc hcode hheight start
  have hsize : (s.openNode p (x.place start)).2.tree.size = (s.tree.alloc p (x.place start)).2.size := by
    rw [size_openNode, Tree.size_alloc]
  rw [fst_openNode]
  refine ⟨⟨extents, halloc.keep (s.openNode_tree p _) hsize⟩, ?_, h.inside, ?_, ?_⟩
  · rw [significant_openNode]
    exact h.ahead
  · rw [stream_openNode]
    exact h.unmarked
  · rw [stream_openNode]
    exact h.source

theorem Spread.forget {made' : List (NodeId × Extent)} (h : Spread x opened made k s) (hsub : made' ⊆ made) :
    Spread x opened made' k s := by
  obtain ⟨extents, htree⟩ := h.tree
  exact ⟨⟨extents, htree.forget hsub⟩, h.ahead, h.inside, h.unmarked, h.source⟩

variable {node : NodeId} {e : Extent} {start stop height next : Nat}

theorem Spread.widen (h : Spread x (⟨node, ⟨start, stop, height⟩, next⟩ :: opened) made k s) {stop' next' : Nat}
    (hstop : stop ≤ stop') (hnext : next ≤ next') : Spread x (⟨node, ⟨start, stop', height⟩, next'⟩ :: opened) made k s := by
  obtain ⟨extents, htree⟩ := h.tree
  exact ⟨⟨extents, htree.widen hstop hnext⟩, h.ahead, h.inside, h.unmarked, h.source⟩

theorem Spread.close (h : Spread x (⟨node, e, next⟩ :: opened) made k s) : Spread x opened ((node, e) :: made) k s := by
  obtain ⟨extents, htree⟩ := h.tree
  exact ⟨⟨_, htree.close⟩, h.ahead, h.inside, h.unmarked, h.source⟩

theorem SpreadFrom.mono {k' : Nat} (h : SpreadFrom x opened made k' s) (hk : k ≤ k') : SpreadFrom x opened made k s := by
  obtain ⟨k'', hk', hs⟩ := h
  exact ⟨k'', Nat.le_trans hk hk', hs⟩

theorem Spread.toFrom (h : Spread x opened made k s) {k' : Nat} (hk : k' ≤ k) : SpreadFrom x opened made k' s :=
  ⟨k, hk, h⟩

variable {margin margin' least least' : Nat}

/-- A sketch that is finished where the parser has got behind its end. -/
theorem Spread.lays (h : Spread x (⟨node, ⟨start, stop, height⟩, next⟩ :: opened) made k s) (hleast : start + least ≤ k)
    (hstop : stop + margin ≤ k) : Lays x opened made start height margin least [node] s :=
  ⟨⟨start, stop, height⟩, k, ⟨Nat.le_refl _, hleast, hstop, Nat.le_refl _⟩, h.close⟩

/-- A sketch that reaches as far as the parser may be finished. -/
theorem Growing.lays (h : Growing x opened made node start height k s) (hleast : start + least ≤ k) :
    Lays x opened made start height 0 least [node] s := by
  obtain ⟨k', hk, hs⟩ := h
  exact hs.lays (Nat.le_trans hleast hk) (Nat.le_refl _)

theorem Growing.mono {k' : Nat} (h : Growing x opened made node start height k s) (hk : k' ≤ k) :
    Growing x opened made node start height k' s := by
  obtain ⟨l, hl, hs⟩ := h
  exact ⟨l, Nat.le_trans hk hl, hs⟩

theorem Lays.mono {nodes : List NodeId} {start' height' : Nat} (h : Lays x opened made start height margin least nodes s)
    (hstart : start' ≤ start) (hheight : height ≤ height') (hmargin : margin' ≤ margin) (hleast : least' ≤ least) :
    Lays x opened made start' height' margin' least' nodes s := by
  obtain ⟨e, k, ⟨hstart', hleast', hstop, hheight'⟩, hs⟩ := h
  exact ⟨e, k, ⟨by omega, by omega, by omega, by omega⟩, hs⟩

theorem Lays.forget {nodes : List NodeId} {made' : List (NodeId × Extent)} (h : Lays x opened made start height margin least nodes s)
    (hsub : made' ⊆ made) : Lays x opened made' start height margin least nodes s := by
  obtain ⟨e, k, hwhere, hs⟩ := h
  have hrest : made' ⊆ nodes.map (·, e) ++ made := fun _ hm => List.mem_append_right _ (hsub hm)
  exact ⟨e, k, hwhere, hs.forget (List.append_subset.2 ⟨List.subset_append_left _ _, hrest⟩)⟩

end

variable {x : Script} {opened : List Sketch} {made : List (NodeId × Extent)} {k : Nat} {α β : Type} {m : Parser α}
  {f : α → Parser β} {Q : β → ParserState → Prop}

/-! ## Looking ahead and taking tokens -/

theorem spread_looks {p : Option Token → α} (hm : Looks m p) : Builds (Spread x opened made k) m (fun _ => Spread x opened made k) :=
  hm.builds (fun _ hs => hs.settle)

theorem spread_probe {p : List Token → α} (hm : Probes m p) : Builds (Spread x opened made k) m (fun _ => Spread x opened made k) :=
  hm.builds (fun _ hs => hs.unmarked)

/-- What is asked for is the place of the parser's number. -/
theorem spread_location :
    Builds (Spread x opened made k) location (fun l s => l = x.place k ∧ Spread x opened made k s) :=
  fun s hs => (yields_of_eq_ok (location_eq_here s)).2 ⟨hs.here, hs.settle⟩

/-- A node that was made is where its extent begins. -/
theorem spread_nodeLocation {node : NodeId} {e : Extent} (hnode : (node, e) ∈ made) :
    Builds (Spread x opened made k) (nodeLocation node) (fun l s => l = x.place e.start ∧ Spread x opened made k s) := by
  intro s hs
  obtain ⟨extents, htree⟩ := hs.tree
  obtain ⟨n, hn, hfills⟩ := htree.exists_of_known hnode
  exact (yields_of_eq_ok (nodeLocation_eq hn)).2 ⟨hfills.location, hs⟩

theorem spread_take :
    Builds (Spread x opened made k) take (fun t s => t.location = x.place k ∧ Spread x opened made (k + 1) s) := by
  intro s hs
  cases hnext : s.significant with
  | nil =>
    obtain ⟨e, he, -⟩ := take_eq_error hnext
    exact (yields_of_eq_error he).2 trivial
  | cons t v => exact (yields_of_eq_ok (take_eq hnext)).2 (hs.next hnext)

theorem spread_expect {kind : TokenKind} {what : String} :
    Builds (Spread x opened made k) (expect kind what) (fun t s => t.location = x.place k ∧ Spread x opened made (k + 1) s) := by
  unfold expect
  refine (spread_looks (looks_atKind kind)).bind (fun found => ?_)
  split
  · exact spread_take
  · exact builds_failFound

theorem spread_expectKeyword {word : Keyword} :
    Builds (Spread x opened made k) (expectKeyword word) (fun _ => Spread x opened made (k + 1)) := by
  unfold expectKeyword
  refine (spread_looks (looks_atKeyword word)).bind (fun found => ?_)
  split
  · exact spread_take.mono (fun _ _ hs => hs.2)
  · exact builds_failFound

theorem spread_identifier {what : String} :
    Builds (Spread x opened made k) (identifier what) (fun _ => Spread x opened made (k + 1)) := by
  unfold identifier
  exact spread_expect.bind (fun t => builds_pure (fun _ hs => hs.2))

/-! ## Parsers that make no node -/

section

variable {least more : Nat}

/-- What follows a parser that makes no node begins where that one has got to. -/
theorem Moves.bind_builds (hm : Moves x least m) (hf : ∀ a k', k + least ≤ k' → Builds (Spread x opened made k') (f a) Q) :
    Builds (Spread x opened made k) (m >>= f) Q :=
  (hm opened made k).bind (fun a => builds_of_exists (fun k' hk => hf a k' hk))

theorem Moves.bind (hm : Moves x least m) (hf : ∀ a, Moves x more (f a)) : Moves x (least + more) (m >>= f) := by
  refine fun opened made k => hm.bind_builds (fun a k' hk => (hf a opened made k').mono (fun _ _ hs => hs.mono ?_))
  omega

theorem Moves.weaken (hm : Moves x more m) (hle : least ≤ more) : Moves x least m :=
  fun opened made k => (hm opened made k).mono (fun _ _ hs => hs.mono (Nat.add_le_add_left hle k))

theorem Moves.bind_zero (hm : Moves x more m) (hf : ∀ a, Moves x 0 (f a)) : Moves x 0 (m >>= f) :=
  (hm.bind hf).weaken (Nat.zero_le _)

theorem Moves.map {g : α → β} (hm : Moves x least m) : Moves x least (g <$> m) :=
  fun opened made k => Builds.map (R := fun _ => SpreadFrom x opened made (k + least)) (hm opened made k)

theorem moves_pure (a : α) : Moves x 0 (pure a) :=
  fun _ _ _ => builds_pure (fun _ hs => hs.toFrom (Nat.le_refl _))

theorem moves_failFound {fault : Option String → ParseFault} : Moves x least (failFound fault : Parser α) :=
  fun _ _ _ => builds_failFound

theorem moves_looks {p : Option Token → α} (hm : Looks m p) : Moves x 0 m :=
  fun _ _ _ => (spread_looks hm).mono (fun _ _ hs => hs.toFrom (Nat.le_refl _))

/-- A parser that looks ahead first takes what it takes then. -/
theorem moves_look_bind {p : Option Token → α} (hm : Looks m p) (hf : ∀ a, Moves x least (f a)) : Moves x least (m >>= f) :=
  ((moves_looks hm).bind hf).weaken (Nat.le_add_left least 0)

theorem moves_take : Moves x 1 take :=
  fun _ _ _ => spread_take.mono (fun _ _ hs => hs.2.toFrom (Nat.le_refl _))

theorem moves_expect {kind : TokenKind} {what : String} : Moves x 1 (expect kind what) :=
  fun _ _ _ => spread_expect.mono (fun _ _ hs => hs.2.toFrom (Nat.le_refl _))

theorem moves_identifier {what : String} : Moves x 1 (identifier what) :=
  fun _ _ _ => spread_identifier.mono (fun _ _ hs => hs.toFrom (Nat.le_refl _))

theorem moves_keepFlags (flags : List String) : Moves x 0 (keepFlags flags) :=
  fun _ _ k _ hs => ⟨k, Nat.le_refl _, hs.tree, hs.ahead, hs.inside, hs.unmarked, hs.source⟩

theorem moves_repeatWhile {more : Parser Bool} {p : Option Token → Bool} {step : α → Parser α} (hm : Looks more p)
    (hstep : ∀ a, Moves x 0 (step a)) (a : α) : Moves x 0 (repeatWhile more step a) := by
  intro opened made k
  refine (builds_while (I := fun _ => SpreadFrom x opened made k) hm ?_ (fun a next _ => ?_) a).weaken
    (fun _ hs => hs.toFrom (Nat.le_refl k))
  · rintro _ s ⟨k', hk, hs⟩
    exact ⟨k', hk, hs.settle⟩
  · refine Builds.weaken ?_ (fun s hs => hs.2)
    exact builds_of_exists (fun k' hk => (hstep a opened made k').mono (fun _ _ hs => hs.mono hk))

end

/-! ## Parsers that make nodes -/

variable {node child : NodeId} {start stop height next margin room least l : Nat} {e : Extent} {p : Payload} {nodes : List NodeId}

/-- Wherever the parser is, it makes a node of at most `room` levels, and is `least` tokens behind its beginning at least. -/
def Spans (x : Script) (made : List (NodeId × Extent)) (room least : Nat) (m : Parser NodeId) : Prop :=
  ∀ opened k, Builds (Spread x opened made k) m (fun a => Lays x opened made k room 0 least [a])

/-- What follows a parser that has made a node knows where that one begins and ends. -/
theorem builds_of_lays {Q' : α → ParserState → Prop} (h : ∀ (e : Extent) (k : Nat), start ≤ e.start → e.start + least ≤ k →
      e.stop + margin ≤ k → e.height ≤ height → Builds (Spread x opened ((node, e) :: made) k) m Q') :
    Builds (Lays x opened made start height margin least [node]) m Q' :=
  fun s ⟨e, k, ⟨hstart, hleast, hstop, hheight⟩, hs⟩ => h e k hstart hleast hstop hheight s hs

/-- The tokens that are taken once a node is made are behind it. -/
theorem lays_moves {more : Nat} (hm : Moves x more m) : Builds (Lays x opened made start height margin least nodes) m
    (fun _ => Lays x opened made start height (margin + more) (least + more) nodes) := by
  rintro s ⟨e, k, ⟨hstart, hleast, hstop, hheight⟩, hs⟩
  refine (hm opened _ k s hs).mono ?_ (fun _ _ _ => trivial)
  rintro _ t ⟨k', hk, ht⟩
  exact ⟨e, k', ⟨hstart, by omega, by omega, hheight⟩, ht⟩

theorem spread_openNode (hcode : p.kind ≠ .comment) (hheight : p.kind.isContainer.toNat < height) :
    Builds (Spread x opened made k) (openNode p (x.place start))
      (fun node => Spread x (⟨node, ⟨start, start, height⟩, start⟩ :: opened) made k) :=
  fun _ hs => hs.openNode hcode hheight start

/-- A node without children is finished when it is made. -/
theorem lays_leaf (hcode : p.kind ≠ .comment) (hheight : p.kind.isContainer.toNat < height) (hleast : start + least ≤ k) :
    Builds (Spread x opened made k) (openNode p (x.place start)) (fun a => Lays x opened made start height 0 least [a]) :=
  (spread_openNode hcode hheight).mono (fun _ _ hs => hs.lays hleast (by omega))

/-- The last sketch gets a node that begins behind its children and where they have ended. -/
theorem spread_attach (hchild : (child, e) ∈ made) (hnext : next ≤ e.start) (hstop : stop ≤ e.start) (hheight : e.height < height) :
    Builds (Spread x (⟨node, ⟨start, stop, height⟩, next⟩ :: opened) made k) (attach node child)
      (fun _ => Spread x (⟨node, ⟨start, e.stop, height⟩, e.start + 1⟩ :: opened) made k) := by
  intro s hs
  obtain ⟨extents, htree⟩ := hs.tree
  exact ⟨⟨extents, htree.attach hchild hnext hstop hheight⟩, hs.ahead, hs.inside, hs.unmarked, hs.source⟩

/-! ## Sketches that reach as far as the parser -/

theorem growing_openNode (hcode : p.kind ≠ .comment) (hheight : p.kind.isContainer.toNat < height) (hstart : start ≤ k) (hl : l ≤ k) :
    Builds (Spread x opened made k) (openNode p (x.place start)) (fun node => Growing x opened made node start height l) :=
  (spread_openNode hcode hheight).mono (fun _ _ hs => ⟨k, hl, hs.widen hstart hstart⟩)

theorem growing_moves (hm : Moves x least m) :
    Builds (Growing x opened made node start height k) m (fun _ => Growing x opened made node start height (k + least)) := by
  refine builds_of_exists (fun k' hk => (hm _ made k').mono ?_)
  rintro _ s ⟨k'', hk', hs⟩
  exact ⟨k'', by omega, hs.widen (by omega) (by omega)⟩

theorem growing_looks {p : Option Token → α} (hm : Looks m p) :
    Builds (Growing x opened made node start height k) m (fun _ => Growing x opened made node start height k) :=
  growing_moves (moves_looks hm)

/-- The last sketch gets a node that begins behind it and ends before the parser. -/
theorem growing_attach (hnext : next ≤ e.start) (hstop : stop ≤ e.start) (hheight : e.height < height) (hend : e.stop ≤ k)
    (hlt : e.start < k) (hl : l ≤ k) :
    Builds (Spread x (⟨node, ⟨start, stop, height⟩, next⟩ :: opened) ((child, e) :: made) k) (attach node child)
      (fun _ => Growing x opened made node start height l) := by
  refine (spread_attach List.mem_cons_self hnext hstop hheight).mono (fun _ s hs => ?_)
  exact ⟨k, hl, (hs.widen hend hlt).forget (List.subset_cons_self _ _)⟩

/-- The last sketch gets the node that a parser makes. -/
theorem growing_child_bind {m : Parser NodeId} {f : Unit → Parser β} (hm : Spans x made room 1 m) (hroom : room < height)
    (hf : Builds (Growing x opened made node start height (k + 1)) (f ()) Q) :
    Builds (Growing x opened made node start height k) (m >>= fun child => attach node child >>= f) Q := by
  refine builds_of_exists (fun k' hk => (hm _ k').bind (fun child => builds_of_lays (fun e l hstart hleast hstop hheight => ?_)))
  exact (growing_attach hstart hstart (by omega) hstop hleast (by omega)).bind (fun _ => hf)

theorem growing_child {m : Parser NodeId} (hm : Spans x made room 1 m) (hroom : room < height) :
    Builds (Growing x opened made node start height k) (m >>= fun child => attach node child)
      (fun _ => Growing x opened made node start height (k + 1)) :=
  growing_child_bind (f := pure) hm hroom (builds_pure (fun _ hs => hs))

/-- The last sketch gets a last child, for which no token need be taken, and is finished. -/
theorem growing_last_bind {m : Parser NodeId} {f : Unit → Parser β} (hm : Spans x made room 0 m) (hroom : room < height)
    (hleast : start + least ≤ k) (hf : Builds (Lays x opened made start height 0 least [node]) (f ()) Q) :
    Builds (Growing x opened made node start height k) (m >>= fun child => attach node child >>= f) Q := by
  refine builds_of_exists (fun k' hk => (hm _ k').bind (fun child => builds_of_lays (fun e l hstart hbegin hstop hheight => ?_)))
  refine (spread_attach List.mem_cons_self hstart hstart (by omega)).bind (fun _ => ?_)
  exact hf.weaken (fun s hs => (hs.forget (List.subset_cons_self _ _)).lays (by omega) hstop)

theorem growing_last {m : Parser NodeId} (hm : Spans x made room 0 m) (hroom : room < height) (hleast : start + least ≤ k) :
    Builds (Growing x opened made node start height k) (m >>= fun child => attach node child)
      (fun _ => Lays x opened made start height 0 least [node]) :=
  growing_last_bind (f := pure) hm hroom hleast (builds_pure (fun _ hs => hs))

/-- A loop whose rounds let the last sketch grow. -/
theorem growing_repeatWhile {more : Parser Bool} {look : Option Token → Bool} {step : Unit → Parser Unit} (hm : Looks more look)
    (hl : k ≤ l)
    (hstep : Builds (Growing x opened made node start height k) (step ()) (fun _ => Growing x opened made node start height l)) :
    Builds (Growing x opened made node start height k) (repeatWhile more step ())
      (fun _ => Growing x opened made node start height k) := by
  refine builds_while (I := fun _ => Growing x opened made node start height k) hm ?_ (fun _ next _ => ?_) ()
  · rintro _ s ⟨k', hk, hs⟩
    exact ⟨k', hk, hs.settle⟩
  · exact (hstep.mono (fun _ _ hs => hs.mono hl)).weaken (fun s hs => hs.2)

end Parser

end Courier
