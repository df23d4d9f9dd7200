import Courier.Proofs.Parser.Parallel
import Courier.Proofs.Tree.Uncommented
import Mathlib.Data.List.Forall2

/-!
# Comments are no part of the grammar

A stream is parsed as the same stream without its comments is: the one parse succeeds if and only if the other does, the tree of the one
without its comments is the tree of the other, and failures are the same up to what was discarded (`Stream.parse_withoutComments`). The
runs of both parses are coupled (`uncommenting`): the tree of the one run is, at every moment, what is left of the tree of the other.

What a failure tells of as discarded is the kind of the first node that a production made, and comments are nodes as well. So it is the
same without the comments unless it is that of a comment (`Stream.discarded_withoutComments`). Runs that have failed are still coupled:
their trees agree in the kinds of their nodes (`Bared`), while one production after the other is abandoned (`Stripped.abandon`).
-/

namespace Courier

/-- The second failure is the first as it is without comments. The node that it tells of as destroyed first is no comment, and the first
failure tells of a node of the same kind or of a comment. -/
structure ParseError.Bares (e e' : ParseError) : Prop where
  same : e' = { e with discarded := e'.discarded }
  structural : e'.discarded ≠ some .comment
  discarded : e.discarded = e'.discarded ∨ e.discarded = some .comment

namespace ParseError.Bares

variable {e e' : ParseError}

/-- On the way out, a failure tells of what the innermost production destroyed first. -/
theorem discarding (h : e.Bares e') {first first' : Option Kind} (hstructural : first' ≠ some .comment)
    (hfirst : first = first' ∨ first = some .comment) : (e.discarding first).Bares (e'.discarding first') where
  same := by
    unfold ParseError.discarding
    rw [h.same]
  structural := by
    have hkind := h.structural
    unfold ParseError.discarding
    cases he' : e'.discarded with
    | none => exact hstructural
    | some kind =>
      rw [he'] at hkind
      exact hkind
  discarded := by
    unfold ParseError.discarding
    rcases h.discarded with hsame | hcomment
    · rw [hsame]
      cases e'.discarded with
      | none => exact hfirst
      | some kind => exact .inl rfl
    · rw [hcomment]
      exact .inr rfl

/-- The first failure tells the same as the second if it does not tell of a comment. -/
theorem discarded_eq_iff (h : e.Bares e') : e.discarded = e'.discarded ↔ e.discarded ≠ some .comment :=
  ⟨fun heq => heq ▸ h.structural, h.discarded.resolve_right⟩

end ParseError.Bares

namespace Stream

/-- The stream of the tokens that are no comments, at its beginning. -/
def withoutComments (s : Stream) : Stream :=
  s.moveTo (.ofList (significant s.tokens))

/-- Two parses differ in comments only: the second tree is the first without its comments, or the failures are the same but for the kind
of node that was destroyed first, which may be a comment. -/
def SameButComments : Except ParseError Tree → Except ParseError Tree → Prop
  | .ok tree, .ok tree' => tree' = tree.withoutComments
  | .error e, .error e' => e' = { e with discarded := e'.discarded }
  | _, _ => False

end Stream

namespace Parser

open ParserState

/-- The second state is what is left of the first without comments. The marks tell which nodes of the first are comments. -/
structure Stripped (marks : List Bool) (s s' : ParserState) : Prop where
  file : s'.stream.file = s.stream.file
  source : s'.stream.source = s.stream.source
  saved : s.stream.saved = none ∧ s'.stream.saved = none
  ahead : s'.stream.ahead = s.significant
  constructs : s'.constructs = s.constructs
  traces : s'.traces = s.traces
  blocks : List.Forall₂ (fun i i' => newId? marks i = some i') s.blocks s'.blocks
  pending : ∀ c ∈ s.pendingComments, marks[c]? = some true
  pending' : s'.pendingComments = []
  flags : s'.pendingFlags = s.pendingFlags
  marks_eq : s.tree.marks = marks
  tree : s'.tree = s.tree.withoutComments
  closed : s.tree.Closed

variable {marks marks' : List Bool} {s s' : ParserState}

/-! ## Tokens -/

theorem significant_significant (ts : List Token) : significant (significant ts) = significant ts :=
  List.filter_eq_self.2 (fun _ ht => by simpa using isComment_of_mem_significant ht)

theorem Stripped.significant_eq (h : Stripped marks s s') : s'.significant = s.significant := by
  rw [ParserState.significant, h.ahead, ParserState.significant, significant_significant]

/-- Without comments, no state has any to take. -/
theorem Stripped.settle_eq (h : Stripped marks s s') : s'.settle = s' := by
  refine takeComments_of_head (fun t ht => ?_)
  rw [h.ahead] at ht
  exact isComment_of_mem_significant (List.mem_of_mem_head? ht)

theorem Stripped.here_eq (h : Stripped marks s s') : s'.here = s.here := by
  rw [ParserState.here_eq, ParserState.here_eq, h.source, h.significant_eq]

theorem Stripped.lt_size (h : Stripped marks s s') {i i' : NodeId} (hi : newId? marks i = some i') : i < s.tree.size := by
  have hlt := lt_of_newId? hi
  rwa [← h.marks_eq, Tree.length_marks] at hlt

theorem Stripped.pending_lt (h : Stripped marks s s') {c : NodeId} (hc : c ∈ s.pendingComments) : c < s.tree.size := by
  have hmark := h.pending c hc
  rw [← h.marks_eq, Tree.getElem?_marks] at hmark
  obtain ⟨n, hn, -⟩ := Option.map_eq_some_iff.1 hmark
  exact Tree.lt_size_of_node? hn

theorem forall₂_newId?_mono {is is' : List NodeId} (h : List.Forall₂ (fun i i' => newId? marks i = some i') is is')
    (hp : marks <+: marks') : List.Forall₂ (fun i i' => newId? marks' i = some i') is is' :=
  h.imp (fun _ _ hi => newId?_of_prefix hi hp)

/-- Marks stay while others are made. -/
theorem mark_of_prefix {c : NodeId} {b : Bool} (h : marks[c]? = some b) (hp : marks <+: marks') : marks'[c]? = some b := by
  obtain ⟨rest, rfl⟩ := hp
  rw [List.getElem?_append_left (List.getElem?_eq_some_iff.1 h).1, h]

/-- A comment that is taken changes the first state only. -/
theorem Stripped.comment (h : Stripped marks s s') {t : Token} {rest : List Token} (hs : s.stream.ahead = t :: rest)
    (hc : t.isComment = true) : Stripped (marks ++ [true]) ((s.passing t rest).placeComment t) s' := by
  have hp : marks <+: marks ++ [true] := List.prefix_append _ _
  have hahead : s'.stream.ahead = (s.passing t rest).significant := by
    rw [h.ahead, ParserState.significant, hs, significant_cons_comment hc]
    rfl
  have hmarks : (s.tree.alloc (.comment t.text) t.location).2.marks = marks ++ [true] := by
    rw [Tree.marks_alloc, h.marks_eq]
    rfl
  have hmark : (s.tree.alloc (.comment t.text) t.location).2.marks[s.tree.size]? = some true := by
    rw [hmarks, ← Tree.length_marks, h.marks_eq]
    exact List.getElem?_concat_length
  have htree : s'.tree = (s.tree.alloc (.comment t.text) t.location).2.withoutComments := by
    rw [h.tree, Tree.withoutComments_alloc_comment]
  have hclosed : (s.tree.alloc (.comment t.text) t.location).2.Closed := h.closed.alloc rfl _
  have hblocks := forall₂_newId?_mono h.blocks hp
  have hpending : ∀ c ∈ s.pendingComments, (marks ++ [true])[c]? = some true := fun c hc => mark_of_prefix (h.pending c hc) hp
  unfold ParserState.placeComment
  dsimp only
  split
  · rename_i block blocks hopen
    have hblock : block < (s.tree.alloc (.comment t.text) t.location).2.size := by
      have hopen' : s.blocks = block :: blocks := hopen
      have hfirst := h.blocks
      rw [hopen'] at hfirst
      obtain ⟨i', rest', hi, -, -⟩ := List.forall₂_cons_left_iff.1 hfirst
      rw [Tree.size_alloc]
      exact Nat.lt_succ_of_lt (h.lt_size hi)
    refine { h with ahead := hahead, blocks := hblocks, pending := hpending, marks_eq := ?_, tree := ?_, closed := ?_ }
    · exact (Tree.marks_attachComment _ _ _).trans hmarks
    · exact htree.trans (Tree.withoutComments_attachComment hmark block).symm
    · exact hclosed.attachComment hblock (by rw [Tree.size_alloc]; exact Nat.lt_succ_self _)
  · refine { h with ahead := hahead, blocks := hblocks, pending := ?_, marks_eq := hmarks, tree := htree, closed := hclosed }
    intro c hcomment
    rcases List.mem_append.1 hcomment with hcomment | hcomment
    · exact hpending c hcomment
    · obtain rfl := List.mem_singleton.1 hcomment
      exact hmarks ▸ hmark

theorem Stripped.settle (h : Stripped marks s s') : ∃ marks', marks <+: marks' ∧ Stripped marks' s.settle s' := by
  refine settle_induction (I := fun u => ∃ marks', marks <+: marks' ∧ Stripped marks' u s') ?_ ⟨marks, List.prefix_refl _, h⟩
  rintro u t rest hu hc ⟨marks', hp, hstripped⟩
  exact ⟨_, hp.trans (List.prefix_append _ _), hstripped.comment hu hc⟩

theorem Stripped.taken (h : Stripped marks s s') {t : Token} {v : List Token} (hs : s.significant = t :: v) :
    ∃ marks', marks <+: marks' ∧ Stripped marks' s.taken s'.taken := by
  obtain ⟨marks', hp, hsettled⟩ := h.settle
  obtain ⟨rest, hahead, hrest, htaken⟩ := taken_eq hs
  have hs' : s'.significant = t :: v := h.significant_eq.trans hs
  obtain ⟨rest', hahead', hrest', htaken'⟩ := taken_eq hs'
  have hv : rest' = v := by
    have hfront := h.ahead
    rw [h.settle_eq] at hahead'
    rw [hahead', hs] at hfront
    exact (List.cons.inj hfront).2
  rw [h.settle_eq] at htaken'
  refine ⟨marks', hp, ?_⟩
  rw [htaken, htaken']
  exact { hsettled with ahead := hv.trans hrest.symm }

/-! ## Nodes -/

theorem Stripped.openNode (h : Stripped marks s s') {p : Payload} (hkind : p.kind ≠ .comment) (hvalue : p.returnValue = none)
    (l : Location) : Stripped (marks ++ [false]) (s.openNode p l).2 (s'.openNode p l).2 ∧
      newId? (marks ++ [false]) (s.openNode p l).1 = some (s'.openNode p l).1 := by
  have hp : marks <+: marks ++ [false] := List.prefix_append _ _
  have hlength : marks.length = s.tree.size := by rw [← h.marks_eq, Tree.length_marks]
  have hid : newId? (marks ++ [false]) s.tree.size = some s'.tree.size := by
    rw [h.tree, Tree.size_withoutComments, ← hlength, h.marks_eq]
    exact newId?_append_false marks
  have hmark : (p.kind == Kind.comment) = false := by simpa using hkind
  have hmarks : (s.tree.alloc p l).2.marks = marks ++ [false] := by rw [Tree.marks_alloc, h.marks_eq, hmark]
  -- The new node with its flags, before the comments that are pending are linked.
  obtain ⟨hmade, htree, hclosed⟩ : ((s.tree.alloc p l).2.withFlags s.tree.size s.pendingFlags).marks = marks ++ [false] ∧
      (s'.tree.alloc p l).2.withFlags s'.tree.size s.pendingFlags =
        ((s.tree.alloc p l).2.withFlags s.tree.size s.pendingFlags).withoutComments ∧
      ((s.tree.alloc p l).2.withFlags s.tree.size s.pendingFlags).Closed := by
    have hnew : (s'.tree.alloc p l).2 = (s.tree.alloc p l).2.withoutComments := by
      rw [Tree.withoutComments_alloc h.closed hkind hvalue, h.tree]
    have hnewClosed : (s.tree.alloc p l).2.Closed := h.closed.alloc hvalue l
    cases s.pendingFlags with
    | none => exact ⟨hmarks, hnew, hnewClosed⟩
    | some flags =>
      refine ⟨(Tree.marks_setFlags _ _ _).trans hmarks, ?_, hnewClosed.setFlags _ flags⟩
      rw [Tree.withFlags, Tree.withFlags, Tree.withoutComments_setFlags (hmarks ▸ hid), hnew]
  have hblocks := forall₂_newId?_mono h.blocks hp
  have hpending : ∀ c ∈ s.pendingComments, (marks ++ [false])[c]? = some true := fun c hc => mark_of_prefix (h.pending c hc) hp
  cases hcontainer : p.kind.isContainer with
  | true =>
    rw [openNode_of_container hcontainer, openNode_of_container hcontainer, h.pending', h.flags]
    have hnone : ∀ c ∈ ([] : List NodeId), (marks ++ [false])[c]? = some true := fun _ hc => nomatch hc
    refine ⟨{ h with blocks := .cons hid hblocks, pending := hnone, pending' := rfl, flags := rfl, marks_eq := ?_, tree := ?_,
                     closed := ?_ }, hid⟩
    · exact (Tree.marks_attachComments _ _ _).trans hmade
    · exact htree.trans (Tree.withoutComments_attachComments (fun c hc => hmade ▸ hpending c hc) _).symm
    · refine hclosed.attachComments ?_ (fun c hc => ?_)
      · rw [Tree.size_withFlags, Tree.size_alloc]
        exact Nat.lt_succ_self _
      · rw [Tree.size_withFlags, Tree.size_alloc]
        exact Nat.lt_succ_of_lt (h.pending_lt hc)
  | false =>
    rw [openNode_of_not_container hcontainer, openNode_of_not_container hcontainer, h.flags]
    exact ⟨{ h with blocks := hblocks, pending := hpending, flags := rfl, marks_eq := hmade, tree := htree,
                    closed := hclosed }, hid⟩

theorem Stripped.attached (h : Stripped marks s s') {i i' j j' : NodeId} (hi : newId? marks i = some i')
    (hj : newId? marks j = some j') : Stripped marks (s.attached i j) (s'.attached i' j') where
  file := h.file
  source := h.source
  saved := h.saved
  ahead := h.ahead
  constructs := h.constructs
  traces := h.traces
  blocks := h.blocks
  pending := h.pending
  pending' := h.pending'
  flags := h.flags
  marks_eq := (Tree.marks_attach _ _ _).trans h.marks_eq
  tree := by
    have hattach := Tree.withoutComments_attach (h.marks_eq ▸ hi) (h.marks_eq ▸ hj)
    rw [← h.tree] at hattach
    exact hattach.symm
  closed := h.closed.attach (h.lt_size hi) (h.lt_size hj)

/-- The trees that are finished differ in comments only. -/
theorem Stripped.finish (h : Stripped marks s s') {i i' : NodeId} (hi : newId? marks i = some i') :
    s'.finish i' = (s.finish i).withoutComments := by
  have hmarks : (s.pendingComments.foldl (fun t c => t.attachComment i c) s.tree).marks = marks :=
    (Tree.marks_attachComments _ _ _).trans h.marks_eq
  unfold ParserState.finish
  rw [h.pending', Tree.withoutComments_setRoot (hmarks ▸ hi),
    Tree.withoutComments_attachComments (fun c hc => h.marks_eq ▸ h.pending c hc), ← h.tree]
  rfl

/-! ## Failures -/

/-- The failures of two runs, and the trees that they leave. The marks tell which nodes of the first tree are comments. -/
structure Bared (marks : List Bool) (e : ParseError) (s : ParserState) (e' : ParseError) (s' : ParserState) : Prop where
  error : e.Bares e'
  marks_eq : s.tree.marks = marks
  tree : s.tree.Bares s'.tree

/-- Failures at one place are the same. -/
theorem Stripped.errorAt_eq (h : Stripped marks s s') (l : Location) (fault : ParseFault) :
    s'.errorAt l fault = s.errorAt l fault := by
  unfold ParserState.errorAt Stream.lineAt chain
  rw [h.file, h.source, h.constructs, h.traces]

theorem Stripped.bared (h : Stripped marks s s') (l : Location) (fault : ParseFault) :
    Bared marks (s.errorAt l fault) s (s'.errorAt l fault) s' where
  error := by
    rw [h.errorAt_eq]
    exact ⟨rfl, nofun, .inl rfl⟩
  marks_eq := h.marks_eq
  tree := h.tree ▸ s.tree.bares_withoutComments

/-- What a production that fails destroys first is no comment in the second run. -/
theorem Stripped.abandon {t t' : ParserState} {e e' : ParseError} (h : Stripped marks s s') (hp : marks <+: marks')
    (he : Bared marks' e t e' t') : Bared marks (e.discarding (t.abandon s.checkpoint).1) (t.abandon s.checkpoint).2
      (e'.discarding (t'.abandon s'.checkpoint).1) (t'.abandon s'.checkpoint).2 := by
  have hsize : s.tree.size = marks.length := by rw [← Tree.length_marks, h.marks_eq]
  have hbefore : (t.tree.kinds.take s.tree.size).map (· == .comment) = marks := by
    rw [List.map_take, ← Tree.marks_eq_kinds, he.marks_eq, hsize, ← List.prefix_iff_eq_take.1 hp]
  have hmark : s'.tree.size = ((t.tree.kinds.take s.tree.size).filter (· != .comment)).length := by
    rw [Tree.length_filter_kinds, hbefore, h.tree, Tree.size_withoutComments, h.marks_eq]
  obtain ⟨htree, hstructural, hfirst⟩ := he.tree.discardFrom hmark
  refine ⟨he.error.discarding hstructural hfirst, ?_, htree⟩
  show (t.tree.discardFrom s.tree.size).2.marks = marks
  rw [Tree.marks_eq_kinds, Tree.kinds_discardFrom, hbefore]

/-! ## The coupling -/

/-- The runs of a parse of a stream and of a parse of the stream without its comments. -/
def uncommenting : Coupling where
  World := List Bool
  Later marks marks' := marks <+: marks'
  State := Stripped
  Place _ l l' := l' = l
  Node marks i i' := newId? marks i = some i'
  Failed := Bared

instance uncommenting_builds : uncommenting.Builds where
  refl marks := List.prefix_refl marks
  trans h h' := List.IsPrefix.trans h h'
  place_later _ hl := hl
  node_later h hi := newId?_of_prefix hi h
  owner_later h hi := newId?_of_prefix hi h
  folded := Token.folded_of_sign
  fault_refl _ := rfl
  fault_text h fault := congrArg fault (congrArg Prod.snd h)
  unmarked h := h.saved
  signs h := congrArg (List.map Token.sign) h.significant_eq.symm
  settle := by
    intro marks s s' h
    obtain ⟨marks', hp, hsettled⟩ := Stripped.settle h
    rw [Stripped.settle_eq h]
    refine ⟨marks', hp, hsettled, fun b hb => ?_⟩
    obtain rfl := List.mem_singleton.1 hb
    exact Stripped.here_eq h
  taken := by
    intro marks s s' t t' v v' h hs hs'
    obtain ⟨marks', hp, htaken⟩ := Stripped.taken h hs
    obtain ⟨rfl, -⟩ := List.cons.inj (hs'.symm.trans ((Stripped.significant_eq h).trans hs))
    exact ⟨marks', hp, htaken, by simp [Coupling.Holds, uncommenting]⟩
  keepFlags h flags := ⟨_, List.prefix_refl _, { h with flags := rfl }, by simp⟩
  enter h construct := ⟨_, List.prefix_refl _, { h with constructs := congrArg (construct :: ·) h.constructs }, by simp⟩
  leave h hw ht :=
    ⟨_, List.prefix_refl _, { ht with constructs := h.constructs, blocks := forall₂_newId?_mono h.blocks hw }, by simp⟩
  failed_here := by
    rintro marks s s' fault _ h rfl
    have hhere := Stripped.here_eq h
    rw [hhere]
    exact Stripped.bared h s.here fault
  failed_at := by
    rintro marks s s' l l' fault _ h rfl rfl
    exact Stripped.bared h l' fault
  abandon h hp he := ⟨_, List.prefix_refl _, Stripped.abandon h hp he⟩
  shared _ := trivial
  openNode := by
    rintro marks s s' l l' p h rfl - hkind hvalue
    obtain ⟨hopened, hid⟩ := Stripped.openNode h hkind hvalue l'
    refine ⟨_, List.prefix_append _ _, hopened, fun b hb => ?_⟩
    obtain rfl := List.mem_singleton.1 hb
    exact hid
  attach h hi hj := ⟨_, List.prefix_refl _, Stripped.attached h hi hj, by simp⟩
  nodeLocation := by
    intro marks s s' i i' h hi
    have hmarks := Stripped.marks_eq h
    obtain ⟨n, hn, hn'⟩ := Tree.node?_withoutComments (hmarks ▸ hi : newId? s.tree.marks i = some i')
    rw [← Stripped.tree h] at hn'
    exact ⟨n, _, hn, hn', rfl⟩
  owner _ hi _ := hi

instance uncommenting_free : uncommenting.Free where
  text h := congrArg Prod.snd h
  shared_any _ := trivial
  owner_of_node hi := hi

/-! ## Whole parses -/

/-- At the beginning there are no nodes, and what is ahead of the one run is what is no comment ahead of the other. -/
theorem stripped_initial (s : Stream) (trace : Bool) : Stripped [] (.initial s trace) (.initial s.withoutComments trace) where
  file := rfl
  source := rfl
  saved := ⟨rfl, rfl⟩
  ahead := rfl
  constructs := rfl
  traces := rfl
  blocks := .nil
  pending _ hc := nomatch hc
  pending' := rfl
  flags := rfl
  marks_eq := rfl
  tree := rfl
  closed := Tree.closed_empty s.file

/-- Within any room, units are read alike with comments and without. -/
theorem ends_unit (room : Nat) (s : Stream) (trace : Bool) :
    uncommenting.Ends [] false (.initial s trace) (.initial s.withoutComments trace) (fun i i' => [.node i i'])
      (Rule.unit.parse room (.initial s trace)) (Rule.unit.parse room (.initial s.withoutComments trace)) := by
  have hunit : uncommenting.Parallel false [] (Rule.unit.parse room) (Rule.unit.parse room) (fun i i' => [.node i i']) :=
    (coupled_parse uncommenting room).rule .unit trivial
  exact hunit _ _ _ (stripped_initial s trace) (by simp)

/-- Within any room, the parses of a stream and of the stream without its comments differ in comments only. -/
theorem parseWithin_withoutComments (room : Nat) (s : Stream) (trace : Bool) :
    Stream.SameButComments (s.parseWithin room trace).1 (s.withoutComments.parseWithin room trace).1 := by
  unfold Stream.parseWithin
  rcases ends_unit room s trace with ⟨root, root', t, t', ht, ht', hstep⟩ | ⟨e, e', t, t', he, he', hfail⟩
  · obtain ⟨marks, -, hstripped, hbonds⟩ := hstep.onward
    have hroot : newId? marks root = some root' := hbonds (.node root root') List.mem_cons_self
    rw [ht, ht']
    exact Stripped.finish hstripped hroot
  · obtain ⟨marks, -, hbared⟩ := hfail
    rw [he, he']
    exact hbared.error.same

theorem bares_of_parse {s : Stream} {trace : Bool} {e : ParseError} (h : (s.parse trace).1 = .error e) :
    ∃ e', (s.withoutComments.parse trace).1 = .error e' ∧ e.Bares e' := by
  obtain ⟨t, ht⟩ := parse_eq_error.1 h
  rcases ends_unit maxNesting s trace with ⟨root, root', u, u', hu, -⟩ | ⟨e₁, e', u, u', hu, hu', marks, -, hbared⟩
  · rw [ht] at hu
    nomatch hu
  · rw [ht] at hu
    obtain ⟨rfl, -⟩ := EStateM.Result.error.inj hu
    exact ⟨e', parse_eq_error.2 ⟨u', hu'⟩, hbared.error⟩

end Parser

namespace Stream

open Courier.Parser

/-- Comments change nothing of what is parsed. A stream is parsed if and only if it is parsed without its comments; to delete the
comments of its tree and to number the other nodes anew gives the tree that is then parsed, and the failures are the same. -/
theorem parse_withoutComments (s : Stream) (trace : Bool) : SameButComments (s.parse trace).1 (s.withoutComments.parse trace).1 :=
  parseWithin_withoutComments maxNesting s trace

theorem parse_withoutComments_dotted : ∃ s tree, Stream.tokenize "unit" "\x7b a # of\n.b c; \x7d # end" = .ok s ∧
    (s.parse true).1 = .ok tree ∧ tree.marks.count true = 2 ∧ (s.withoutComments.parse true).1 = .ok tree.withoutComments := by
  obtain ⟨s, tree, hs, htree⟩ := exists_parse "unit" "\x7b a # of\n.b c; \x7d # end" true (by decide +kernel)
  have hmarks : ((Stream.tokenize "unit" "\x7b a # of\n.b c; \x7d # end").toOption.bind (fun s => (s.parse true).1.toOption)).map
      (fun tree => tree.marks.count true) = some 2 := by
    decide +kernel
  rw [hs, Except.toOption, Option.bind_some, htree] at hmarks
  have hsame := parse_withoutComments s true
  rw [htree] at hsame
  refine ⟨s, tree, hs, htree, Option.some.inj hmarks, ?_⟩
  cases hresult : (s.withoutComments.parse true).1 with
  | ok tree' =>
    rw [hresult] at hsame
    exact congrArg Except.ok hsame
  | error e =>
    rw [hresult] at hsame
    exact hsame.elim

/-- A parse that fails fails without the comments too, in the same way but for what is told to be destroyed. Without the comments this is
never a comment, and with them it is the same if and only if it is none. -/
theorem discarded_withoutComments {s : Stream} {trace : Bool} {e : ParseError} (h : (s.parse trace).1 = .error e) :
    ∃ e', (s.withoutComments.parse trace).1 = .error e' ∧ e' = { e with discarded := e'.discarded } ∧
      e'.discarded ≠ some .comment ∧ (e.discarded = e'.discarded ↔ e.discarded ≠ some .comment) := by
  obtain ⟨e', he', hbared⟩ := bares_of_parse h
  exact ⟨e', he', hbared.same, hbared.structural, hbared.discarded_eq_iff⟩

theorem discarded_withoutComments_assignment : ∃ s e e', Stream.tokenize "unit" "\x7b a # of\n := ; \x7d" = .ok s ∧
    (s.parse true).1 = .error e ∧ (s.withoutComments.parse true).1 = .error e' ∧ e.discarded = some .assignment ∧
    e'.discarded = some .assignment := by
  obtain ⟨s, e, hs, he, hkind⟩ := exists_parse_error "unit" "\x7b a # of\n := ; \x7d" true
    (fun e => e.discarded == some .assignment) (by decide +kernel)
  have hassignment : e.discarded = some .assignment := by simpa using hkind
  obtain ⟨e', he', -, -, hiff⟩ := discarded_withoutComments he
  have hstructural : e.discarded ≠ some .comment := by
    rw [hassignment]
    decide
  exact ⟨s, e, e', hs, he, he', hassignment, (hiff.2 hstructural).symm.trans hassignment⟩

/-- What a parse that fails tells of as destroyed. -/
def destroyed? : Except ParseError Tree → Option Kind
  | .ok _ => none
  | .error e => e.discarded

theorem exists_of_destroyed? {r : Except ParseError Tree} {kind : Kind} (h : destroyed? r = some kind) :
    ∃ e, r = .error e ∧ e.discarded = some kind := by
  cases r with
  | ok tree => nomatch h
  | error e => exact ⟨e, rfl, h⟩

/-- Where a comment stands in the place of the name of a class, the comment is all that the class has made, and it is told of. -/
theorem discarded_ne_withoutComments_class : ∃ s e e', Stream.tokenize "unit" "\x7b class # c\n 5 \x7d" = .ok s ∧
    (s.parse true).1 = .error e ∧ (s.withoutComments.parse true).1 = .error e' ∧ e.discarded = some .comment ∧
    e'.discarded = some .statementsBlock := by
  obtain ⟨s, hs⟩ := exists_tokenize "unit" "\x7b class # c\n 5 \x7d" (by decide +kernel)
  have hboth : (Stream.tokenize "unit" "\x7b class # c\n 5 \x7d").toOption.map
      (fun s => (destroyed? (s.parse true).1, destroyed? (s.withoutComments.parse true).1)) =
        some (some .comment, some .statementsBlock) := by
    decide +kernel
  rw [hs] at hboth
  obtain ⟨hcomment, hblock⟩ := Prod.mk.inj (Option.some.inj hboth)
  obtain ⟨e, he, hdiscarded⟩ := exists_of_destroyed? hcomment
  obtain ⟨e', he', hdiscarded'⟩ := exists_of_destroyed? hblock
  exact ⟨s, e, e', hs, he, he', hdiscarded, hdiscarded'⟩

end Stream

end Courier
