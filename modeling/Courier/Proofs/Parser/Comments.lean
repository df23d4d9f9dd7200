import Courier.Proofs.Lexical.Layout
import Courier.Proofs.Parser.Filing
import Courier.Proofs.Parser.Parallel
import Courier.Proofs.Tree.Building
import Courier.Proofs.Tree.OneTree

/-!
# No comment is lost

A tree keeps the comments of the text it was parsed from (`Stream.keepsComments_of_parse`). A run that keeps them filed is coupled with
itself (`keeping`), so that the rules for coupled runs carry the invariant through all productions inside the root. The unit around it
is followed step by step: its first look passes the comments before the unit (`builds_look_first`), its root takes those that wait
(`builds_openRoot`), and behind the bracket that closes the root nothing but comments is ahead (`closes_unit`).
-/

namespace Courier

namespace Parser

open ParserState Courier.Grammar

/-! ## Runs coupled with themselves -/

/-- A run that keeps the comments, coupled with itself. -/
def keeping (P : Location → Prop) (ts : List Token) (root : Option NodeId) : Coupling where
  World := ParserState
  Later := Later
  State w s s' := s = w ∧ s' = w ∧ Kept P ts root w
  Place w l l' := l' = l ∧ w.Passed l
  Node w i i' := i' = i ∧ ∃ e, w.tree.views[i]? = some e
  Failed _ _ _ _ _ := True

variable {P : Location → Prop} {ts : List Token} {root : Option NodeId}

/-- A node that was made stays. -/
theorem exists_view_later {w w' : ParserState} {i : NodeId} (h : Later w w') (hi : ∃ e, w.tree.views[i]? = some e) :
    ∃ e, w'.tree.views[i]? = some e := by
  obtain ⟨e, he⟩ := hi
  obtain ⟨e', he', -⟩ := h.views he
  exact ⟨e', he'⟩

instance keeping_reads (P : Location → Prop) (ts : List Token) (root : Option NodeId) : (keeping P ts root).Reads where
  refl w := Later.refl w
  trans h h' := Later.trans h h'
  place_later h hl := ⟨hl.1, hl.2.later h.ahead⟩
  node_later h hi := ⟨hi.1, exists_view_later h hi.2⟩
  owner_later h hi := ⟨hi.1, exists_view_later h hi.2⟩
  folded := Token.folded_of_sign
  fault_refl _ := rfl
  fault_text h fault := congrArg fault (congrArg Prod.snd h)
  unmarked := by
    rintro w s s' ⟨rfl, rfl, h⟩
    exact ⟨h.unmarked, h.unmarked⟩
  signs := by
    rintro w s s' ⟨rfl, rfl, -⟩
    rfl
  settle := by
    rintro w s s' ⟨rfl, rfl, h⟩
    obtain ⟨hkept, hlater⟩ := h.settle
    refine ⟨_, hlater, ⟨rfl, rfl, hkept⟩, fun b hb => ?_⟩
    obtain rfl := List.mem_singleton.1 hb
    exact ⟨rfl, h.passed_here⟩
  taken := by
    rintro w s s' t t' v v' ⟨rfl, rfl, h⟩ hs hs'
    obtain ⟨hkept, hlater, hpassed⟩ := h.taken hs
    obtain ⟨rfl, -⟩ := List.cons.inj (hs.symm.trans hs')
    refine ⟨_, hlater, ⟨rfl, rfl, hkept⟩, fun b hb => ?_⟩
    obtain rfl := List.mem_singleton.1 hb
    exact ⟨rfl, hpassed⟩
  keepFlags := by
    rintro w s s' ⟨rfl, rfl, h⟩ flags
    exact ⟨{ s' with pendingFlags := some flags }, .of_views rfl rfl, ⟨rfl, rfl, { h with }⟩, by simp⟩
  enter := by
    rintro w s s' ⟨rfl, rfl, h⟩ construct
    exact ⟨s'.enter construct, .of_views rfl rfl, ⟨rfl, rfl, { h with }⟩, by simp⟩
  leave := by
    rintro w w' s s' t t' ⟨rfl, rfl, h⟩ hlater ⟨rfl, rfl, ht⟩
    exact ⟨t'.leave s'.checkpoint, .of_views rfl rfl, ⟨rfl, rfl, h.leave hlater ht⟩, by simp⟩
  failed_here _ _ := trivial
  failed_at _ _ _ := trivial
  abandon _ _ _ := ⟨_, Later.refl _, trivial⟩

/-- Inside the root, every node that is made is filed. -/
instance keeping_builds (P : Location → Prop) (ts : List Token) (r : NodeId) : (keeping P ts (some r)).Builds where
  shared _ := trivial
  openNode := by
    rintro w s s' l l' p ⟨rfl, rfl, h⟩ ⟨rfl, hl⟩ - hkind -
    refine ⟨_, Later.openNode _ p _, ⟨rfl, rfl, h.openNode (by simp) hkind hl⟩, fun b hb => ?_⟩
    obtain rfl := List.mem_singleton.1 hb
    refine ⟨rfl, Tree.exists_view ?_⟩
    rw [fst_openNode, size_openNode]
    exact Nat.lt_succ_self _
  attach := by
    rintro w s s' i i' j j' ⟨rfl, rfl, h⟩ ⟨rfl, -⟩ ⟨rfl, -⟩
    obtain ⟨hkept, hlater⟩ := h.attached i' j'
    exact ⟨_, hlater, ⟨rfl, rfl, hkept⟩, by simp⟩
  nodeLocation := by
    rintro w s s' i i' ⟨rfl, rfl, h⟩ ⟨rfl, e, he⟩
    have hnode := he
    rw [Tree.getElem?_views] at hnode
    obtain ⟨n, hn, rfl⟩ := Option.map_eq_some_iff.1 hnode
    exact ⟨n, n, hn, hn, rfl, h.passed he⟩
  owner _ hi _ := hi

instance keeping_exact (P : Location → Prop) (ts : List Token) (root : Option NodeId) : (keeping P ts root).Exact where
  text h := congrArg Prod.snd h
  shared_any _ := trivial

instance keeping_free (P : Location → Prop) (ts : List Token) (r : NodeId) : (keeping P ts (some r)).Free where
  text h := congrArg Prod.snd h
  shared_any _ := trivial
  owner_of_node hi := hi

/-! ## The root -/

/-- The comments are kept, and the bonds hold. -/
def Has (P : Location → Prop) (ts : List Token) (root : Option NodeId) (Γ : List Bond) (s : ParserState) : Prop :=
  Kept P ts root s ∧ ∀ b ∈ Γ, (keeping P ts root).Holds s b

variable {Γ : List Bond} {α : Type} {m : Parser α} {Q : α → α → List Bond}

/-- What a coupled run has in hand, one run has. -/
theorem builds_of_parallel (h : (keeping P ts root).Parallel false Γ m m Q) :
    Builds (Has P ts root Γ) m (fun a => Has P ts root (Q a a ++ Γ)) := by
  rintro s ⟨hs, hΓ⟩
  rcases h s s s ⟨rfl, rfl, hs⟩ hΓ with ⟨a, b, t, t', hm, hm', hstep⟩ | ⟨e, e', t, t', hm, -⟩
  · obtain ⟨rfl, rfl⟩ := EStateM.Result.ok.inj (hm.symm.trans hm')
    obtain ⟨w, hlater, ⟨rfl, -, hkept⟩, hbonds⟩ := hstep.onward
    exact (yields_of_eq_ok hm).2 ⟨hkept, (keeping_reads P ts root).holds_append hlater hbonds hΓ⟩
  · exact (yields_of_eq_error hm).2 trivial

/-- Opening the root begins the part of a parse inside it. -/
theorem builds_openRoot {p : Payload} {l : Location} (hcontainer : p.kind.isContainer = true) (hl : .place l l ∈ Γ) :
    Builds (Has P ts none Γ) (openNode p l) (fun i => Has P ts (some i) [.owner i i, .node i i]) := by
  rintro s ⟨hs, hΓ⟩
  have hplace : l = l ∧ s.Passed l := hΓ _ hl
  have hopen : Parser.openNode p l s = .ok (s.openNode p l).1 (s.openNode p l).2 := rfl
  have hmade : ∃ e, (s.openNode p l).2.tree.views[(s.openNode p l).1]? = some e := by
    refine Tree.exists_view ?_
    rw [fst_openNode, size_openNode]
    exact Nat.lt_succ_self _
  refine (yields_of_eq_ok hopen).2 ⟨hs.openRoot hcontainer hplace.2, fun b hb => ?_⟩
  rcases List.mem_cons.1 hb with rfl | hb
  · exact ⟨rfl, hmade⟩
  · obtain rfl := List.mem_singleton.1 hb
    exact ⟨rfl, hmade⟩

/-- The root is closed. All comments so far are before a token that is none. -/
def Closed (ts : List Token) (root : NodeId) (s : ParserState) : Prop :=
  Keeping (StandsOutside ts) ts (some root) s

/-- Behind the bracket that closes the root, the comments behind the unit may be told from the others: there is none yet. -/
theorem closes_expect {root : NodeId} {k : TokenKind} {what : String} :
    Builds (Has (StandsBefore ts) ts (some root) Γ) (expect k what >>= fun _ => pure root) (fun i => Closed ts i) := by
  rintro s ⟨hs, -⟩
  rw [yields_bind]
  cases hexpect : expect k what s with
  | error e u => exact (yields_of_eq_error hexpect).2 trivial
  | ok c u =>
    refine (yields_of_eq_ok hexpect).2 (yields_pure.2 ?_)
    obtain ⟨v, hv, rfl⟩ := exists_of_expect hexpect
    obtain ⟨hsettled, -⟩ := hs.settle
    obtain ⟨rest, hrest, -, htaken⟩ := taken_eq hv
    have htakenKept := (hs.taken hv).1.toKeeping
    have hmem : c ∈ significant ts := by
      obtain ⟨behind, hts, -⟩ := hsettled.spelled
      have hcomment : c.isComment = false := isComment_of_mem_significant (hv ▸ List.mem_cons_self : c ∈ s.significant)
      rw [hts, hrest, significant_append, significant_cons hcomment]
      exact List.mem_append_right _ List.mem_cons_self
    refine { htakenKept with filed := htakenKept.filed.mono (fun {d m} hm hcomment hout => ?_) }
    rcases hout with hbefore | hbehind
    · exact hbefore
    · have hviews : s.taken.tree.views = s.settle.tree.views := by rw [tree_taken]
      rw [hviews] at hm
      have hle := (hsettled.passed hm c (hrest ▸ List.mem_cons_self)).1
      exact absurd (hbehind c hmem) (Nat.not_lt.2 hle)

/-- Flags need no node. -/
theorem parallel_parse_flags (C : Coupling) [C.Exact] (room : Nat) :
    C.Parallel false Γ (Rule.parse room .flags) (Rule.parse room .flags) (fun _ _ => []) := by
  cases room with
  | zero => exact parallel_fail
  | succ room => exact parallel_flags.guarded

/-- Inside the root, every rule keeps the comments. -/
theorem coupled_inside (P : Location → Prop) (ts : List Token) (r : NodeId) (room : Nat) :
    Inner.Coupled (keeping P ts (some r)) ⟨fun rule => Rule.parse room rule⟩ :=
  coupled_parse _ room

theorem closes_codeFragment (room : Nat) :
    Builds (Has (StandsBefore ts) ts none []) (codeFragment ⟨fun rule => Rule.parse room rule⟩) (fun i => Closed ts i) := by
  have hblock : ∀ {Γ : List Bond} {start : Location}, .place start start ∈ Γ →
      Builds (Has (StandsBefore ts) ts none Γ) (fragmentBlock ⟨fun rule => Rule.parse room rule⟩ start) (fun i => Closed ts i) := by
    intro Γ start hstart
    unfold fragmentBlock
    refine (builds_openRoot rfl hstart).bind (fun fragment => ?_)
    refine (builds_of_parallel parallel_expect).bind (fun _ => ?_)
    refine (builds_of_parallel (parallel_blockBody (coupled_inside _ ts fragment room) (by simp))).bind (fun _ => ?_)
    exact closes_expect
  rw [codeFragment_eq]
  refine (builds_of_parallel parallel_location).bind (fun start => ?_)
  refine (builds_of_parallel (parallel_atKind _)).bind (fun flagged => ?_)
  split
  · exact (builds_of_parallel (parallel_parse_flags _ room)).bind (fun _ => hblock (by simp))
  · exact hblock (by simp)

theorem closes_moduleBlock (room : Nat) :
    Builds (Has (StandsBefore ts) ts none []) (moduleBlock ⟨fun rule => Rule.parse room rule⟩) (fun i => Closed ts i) := by
  unfold moduleBlock
  refine (builds_of_parallel parallel_location).bind (fun start => ?_)
  refine (builds_of_parallel parallel_expectKeyword).bind (fun _ => ?_)
  refine (builds_of_parallel parallel_identifier).bind (fun name => ?_)
  refine (builds_of_parallel parallel_moduleVersion).bind (fun version => ?_)
  refine (builds_openRoot rfl (by simp)).bind (fun node => ?_)
  refine (builds_of_parallel parallel_expect).bind (fun _ => ?_)
  refine (builds_of_parallel ((coupled_inside _ ts node room).rule .codeFragment trivial)).bind (fun fragment => ?_)
  refine (builds_of_parallel (parallel_attach (by simp) (by simp))).bind (fun _ => ?_)
  exact closes_expect

/-! ## Units -/

/-- No block is open, and the comments are kept. -/
structure Outer (P : Location → Prop) (ts : List Token) (root : Option NodeId) (s : ParserState) : Prop extends
    Keeping P ts root s where
  closed : s.blocks = []

/-- The first look of a parse passes the comments before the unit. -/
theorem builds_look_first : Builds (Outer (StandsBefore ts) ts none) look (fun _ => Has (StandsBefore ts) ts none []) := by
  intro s hs
  refine (yields_of_eq_ok (looks_look s)).2 ⟨?_, (fun _ hb => nomatch hb)⟩
  have hsettled := hs.toKeeping.settle hs.closed
  refine ⟨hsettled, fun d hd hbefore => ?_, fun _ => (blocks_settle s).trans hs.closed, fun hroot => absurd rfl hroot⟩
  obtain ⟨behind, hts, -⟩ := hsettled.spelled
  have hordered := hsettled.ordered
  cases hahead : s.settle.stream.ahead with
  | nil =>
    rw [hahead] at hd
    nomatch hd
  | cons c rest =>
    have hcomment : c.isComment = false := isComment_of_ahead_settle (by rw [hahead]; rfl)
    have hmem : c ∈ significant ts := by
      rw [hts, hahead, significant_append, significant_cons hcomment]
      exact List.mem_append_right _ List.mem_cons_self
    rw [hahead] at hd hordered
    have hlt := hbefore c hmem
    rcases List.mem_cons.1 hd with rfl | hd
    · exact Nat.lt_irrefl _ hlt
    · exact Nat.lt_asymm hlt ((List.pairwise_cons.1 hordered).1 d hd)

/-- The root was closed, and no block is open. -/
abbrev Done (ts : List Token) (root : NodeId) : ParserState → Prop :=
  Outer (StandsOutside ts) ts (some root)

/-- A production that opens and closes the root leaves no block open. -/
theorem closes_guarded {construct : Construct} {body : Parser NodeId}
    (h : Builds (Has (StandsBefore ts) ts none []) body (fun i => Closed ts i)) :
    Builds (Has (StandsBefore ts) ts none []) (guarded construct body) (fun i => Done ts i) := by
  refine h.guarded_leave (fun s hs => ⟨{ hs.1 with }, (fun _ hb => nomatch hb)⟩) (fun s i t hs ht => ?_)
  have hclosed : (t.leave s.checkpoint).blocks = [] := hs.1.outer rfl
  have hnot : ∀ b, b ∉ (t.leave s.checkpoint).blocks := fun b => by rw [hclosed]; exact List.not_mem_nil
  exact ⟨{ ht with blocks := fun b hb => ht.blocks b (.inr (hb.resolve_left (hnot b))) }, hclosed⟩

theorem closes_rule (room : Nat) :
    Builds (Has (StandsBefore ts) ts none []) (Rule.parse room .codeFragment) (fun i => Done ts i) ∧
    Builds (Has (StandsBefore ts) ts none []) (Rule.parse room .moduleBlock) (fun i => Done ts i) := by
  cases room with
  | zero => exact ⟨builds_fail, builds_fail⟩
  | succ room => exact ⟨closes_guarded (closes_codeFragment room), closes_guarded (closes_moduleBlock room)⟩

theorem closes_unitBlock (room : Nat) :
    Builds (Outer (StandsBefore ts) ts none) (unitBlock ⟨fun rule => Rule.parse room rule⟩) (fun i => Done ts i) := by
  unfold unitBlock
  refine builds_look_first.bind (fun next => ?_)
  split
  · exact (closes_rule room).1
  · exact (closes_rule room).1
  · exact (closes_rule room).2
  · exact builds_fail
  · exact builds_fail
  · exact builds_fail
  · exact builds_failFound

/-- Behind the block there are comments only, which wait for the end. -/
theorem closes_unit (room : Nat) : Builds (Outer (StandsBefore ts) ts none) (Grammar.unit ⟨fun rule => Rule.parse room rule⟩)
    (fun i t => Done ts i t ∧ t.stream.ahead = []) := by
  unfold Grammar.unit
  refine (closes_unitBlock room).bind (fun root s hs => ?_)
  rw [yields_bind]
  refine (yields_of_eq_ok (looks_current? s)).2 ?_
  have hsettled : Done ts root s.settle := ⟨hs.toKeeping.settle hs.closed, (blocks_settle s).trans hs.closed⟩
  cases hnext : s.significant.head? with
  | some c => trivial
  | none =>
    have hend := head?_ahead_settle s
    rw [hnext] at hend
    exact yields_pure.2 ⟨hsettled, List.head?_eq_none_iff.1 hend⟩

theorem closes_parse (room : Nat) :
    Builds (Outer (StandsBefore ts) ts none) (Rule.parse room .unit) (fun i t => Closed ts i t ∧ t.stream.ahead = []) := by
  cases room with
  | zero => exact builds_fail
  | succ room =>
    refine (closes_unit room).guarded_leave (fun s hs => ⟨{ hs.toKeeping with }, hs.closed⟩) (fun s i t hs ht => ⟨?_, ht.2⟩)
    have hclosed : (t.leave s.checkpoint).blocks = [] := hs.closed
    have hkeeping := ht.1.toKeeping
    have hnot : ∀ b, b ∉ (t.leave s.checkpoint).blocks := fun b => by rw [hclosed]; exact List.not_mem_nil
    exact { hkeeping with blocks := fun b hb => hkeeping.blocks b (.inr (hb.resolve_left (hnot b))) }

/-! ## Whole parses -/

/-- At the beginning no comment is behind. -/
theorem outer_initial {s : Stream} (hs : Ordered s.tokens) (trace : Bool) :
    Outer (StandsBefore s.tokens) s.tokens none (.initial s trace) where
  unmarked := rfl
  ordered := hs
  spelled := ⟨[], rfl, rfl⟩
  passed h := nomatch h
  filed := filed_nil
  blocks _ hb := hb.elim (fun h => nomatch h) (fun h => nomatch h)
  closed := rfl

/-- The root takes the comments behind the unit. -/
theorem Closed.finish {s : ParserState} {root : NodeId} (h : Closed ts root s) (hend : s.stream.ahead = []) :
    Filed (StandsOutside ts) (some root) [] (s.finish root).views ∧ notes (s.finish root).views = tokenNotes ts := by
  obtain ⟨e, he, hcontainer⟩ := ParserState.Keeping.blocks h root (.inr rfl)
  have hlisting : Keeping (StandsOutside ts) ts (some root) (s.listing root) :=
    ParserState.Keeping.listing h he hcontainer (.inl rfl) (.inl rfl)
  obtain ⟨behind, hts, hnotes⟩ := hlisting.spelled
  have hall : behind ++ (s.listing root).stream.ahead = behind := by
    rw [show (s.listing root).stream.ahead = [] from hend, List.append_nil]
  refine ⟨hlisting.filed, ?_⟩
  rw [hts, hall]
  exact hnotes

end Parser

namespace Stream

open Courier.Parser

/-- The tokens of a text are in the order of their places. -/
theorem ordered_of_tokenize {file text : String} {s : Stream} (h : Stream.tokenize file text = .ok s) : Ordered s.tokens := by
  obtain ⟨-, -, -, hlaid⟩ := laid_of_tokenize h
  refine hlaid.pairwise.imp_of_mem (fun {t u} ht _ hle => ?_)
  exact Nat.lt_of_lt_of_le (hlaid.spanStart_lt ht) hle

/-- What a unit of a text builds keeps the comments of the text. -/
theorem keepsComments_of_unit {file text : String} {s : Stream} {trace : Bool} {root : NodeId} {t : ParserState}
    (hs : Stream.tokenize file text = .ok s) (ht : Rule.unit.parse maxNesting (.initial s trace) = .ok root t) :
    (t.finish root).KeepsComments s.tokens := by
  have hordered := ordered_of_tokenize hs
  have hgrown := (grows_parse maxNesting .unit [] [] (.initial s trace) (holds_initial s trace)).ok ht
  obtain ⟨hclosed, hend⟩ := (closes_parse maxNesting (.initial s trace) (outer_initial hordered trace)).ok ht
  obtain ⟨hfiled, hspelled⟩ := hclosed.finish hend
  exact hgrown.2.isTree_finish.keepsComments hfiled hspelled hordered

/-- The tree of a text keeps the comments of the text: each is a node, in their order and with its text and its place; each is listed
once, by one block, in their order; those before and behind the unit are listed by the root, and any other block starts before what it
lists. -/
theorem keepsComments_of_parse {file text : String} {s : Stream} {trace : Bool} {tree : Tree}
    (hs : Stream.tokenize file text = .ok s) (h : (s.parse trace).1 = .ok tree) : tree.KeepsComments s.tokens := by
  obtain ⟨root, t, ht, rfl⟩ := parse_eq_ok.1 h
  exact keepsComments_of_unit hs ht

theorem keepsComments_of_parse_module : ∃ s tree,
    Stream.tokenize "unit" "# first\nmodule # named\n m \x7b @[a] # flagged\n \x7b # inner\n x.y; \x7d # last\n\x7d # end" = .ok s ∧
      (s.parse true).1 = .ok tree ∧ tree.KeepsComments s.tokens := by
  obtain ⟨s, tree, hs, htree⟩ := exists_parse "unit"
    "# first\nmodule # named\n m \x7b @[a] # flagged\n \x7b # inner\n x.y; \x7d # last\n\x7d # end" true (by decide +kernel)
  exact ⟨s, tree, hs, htree, keepsComments_of_parse hs htree⟩

end Stream

end Courier
