import Courier.Proofs.Parser.Coupling
import Courier.Proofs.Tree.Comments

/-!
# States whose comments are filed

`Keeping` says of a state that the comments behind its cursor are filed. Of a parse there are three parts: before its root is open, comments
wait for it; inside the root no comment waits; behind the root they wait for the end. `Kept` tells the first two apart, and each operation
of a parser keeps it: taking comments and tokens, making and linking nodes, and leaving a production. What is known of an earlier state
holds of a later one (`Later`), since tokens are only taken and no node changes its payload or its place.
-/

namespace Courier

open Courier.Parser

namespace ParserState

/-- A place is passed: no token ahead starts before it, and no comment ahead starts there. -/
def Passed (s : ParserState) (l : Location) : Prop :=
  ∀ t ∈ s.stream.ahead, l.offset ≤ t.location.offset ∧ (t.isComment = true → l.offset < t.location.offset)

/-- The comments behind the cursor are filed. -/
structure Keeping (P : Location → Prop) (ts : List Token) (root : Option NodeId) (s : ParserState) : Prop where
  unmarked : s.stream.saved = none
  ordered : Ordered s.stream.ahead
  spelled : ∃ behind, ts = behind ++ s.stream.ahead ∧ notes s.tree.views = tokenNotes behind
  passed {i : NodeId} {e : NodeView} (h : s.tree.views[i]? = some e) : s.Passed e.location
  filed : Filed P root s.pendingComments s.tree.views
  /-- The root and what is open are blocks. -/
  blocks : ∀ b, b ∈ s.blocks ∨ root = some b → ∃ e, s.tree.views[b]? = some e ∧ e.payload.kind.isContainer = true

/-- Besides, no token ahead is at a place that is for the root, and no block is open before the root is, or some block is open and no
comment waits. -/
structure Kept (P : Location → Prop) (ts : List Token) (root : Option NodeId) (s : ParserState) : Prop extends
    Keeping P ts root s where
  inside : ∀ t ∈ s.stream.ahead, ¬P t.location
  outer : root = none → s.blocks = []
  inner : root ≠ none → s.blocks ≠ [] ∧ s.pendingComments = []

/-- A later state of a run: some more tokens are taken, and the nodes are still what they were. -/
structure Later (s t : ParserState) : Prop where
  ahead : t.stream.ahead <:+ s.stream.ahead
  views {i : NodeId} {e : NodeView} (h : s.tree.views[i]? = some e) :
    ∃ e', t.tree.views[i]? = some e' ∧ e'.payload = e.payload ∧ e'.location = e.location

variable {P : Location → Prop} {ts : List Token} {root : Option NodeId} {s t u : ParserState}

theorem Later.refl (s : ParserState) : Later s s :=
  ⟨List.suffix_refl _, fun {_ e} h => ⟨e, h, rfl, rfl⟩⟩

theorem Later.of_views (hahead : t.stream.ahead = s.stream.ahead) (hviews : t.tree.views = s.tree.views) : Later s t :=
  ⟨hahead ▸ List.suffix_refl _, fun {_ e} h => ⟨e, by rw [hviews, h], rfl, rfl⟩⟩

theorem Later.trans (h : Later s t) (h' : Later t u) : Later s u := by
  refine ⟨h'.ahead.trans h.ahead, fun he => ?_⟩
  obtain ⟨e₁, he₁, hpayload₁, hlocation₁⟩ := h.views he
  obtain ⟨e₂, he₂, hpayload₂, hlocation₂⟩ := h'.views he₁
  exact ⟨e₂, he₂, hpayload₂.trans hpayload₁, hlocation₂.trans hlocation₁⟩

theorem Passed.later {l : Location} (h : s.Passed l) (ht : t.stream.ahead <:+ s.stream.ahead) : t.Passed l :=
  fun c hc => h c (ht.subset hc)

/-! ## Tokens -/

/-- What starts where the next token does is passed with that token. -/
theorem passed_of_ordered {c : Token} {rest : List Token} (h : Ordered (c :: rest)) (hs : s.stream.ahead = rest) :
    s.Passed c.location := by
  intro d hd
  have hlt := (List.pairwise_cons.1 h).1 d (hs ▸ hd)
  exact ⟨Nat.le_of_lt hlt, fun _ => hlt⟩

theorem Keeping.passing (h : Keeping P ts root s) {c : Token} {rest : List Token} (hs : s.stream.ahead = c :: rest)
    (hc : c.isComment = false) : Keeping P ts root (s.passing c rest) := by
  have hsuffix : rest <:+ s.stream.ahead := hs ▸ List.suffix_cons c rest
  obtain ⟨behind, hts, hnotes⟩ := h.spelled
  have hnone : tokenNotes [c] = [] := by simp [tokenNotes, hc]
  refine ⟨h.unmarked, ?_, ⟨behind ++ [c], ?_, ?_⟩, fun he => (h.passed he).later hsuffix, h.filed, h.blocks⟩
  · exact h.ordered.sublist hsuffix.sublist
  · rw [hts, hs, List.append_assoc]
    rfl
  · rw [tokenNotes_append, hnone, List.append_nil]
    exact hnotes

/-- A node more, at a place that is passed, which may be an open block. -/
theorem Keeping.grow {p : Payload} {l : Location} (h : Keeping P ts root s) (hsaved : t.stream.saved = none)
    (hahead : t.stream.ahead <:+ s.stream.ahead)
    (hspelled : ∃ behind, ts = behind ++ t.stream.ahead ∧ notes t.tree.views = tokenNotes behind) (hl : t.Passed l)
    (hviews : t.tree.views = s.tree.views ++ [⟨p, l, []⟩])
    (hpending : t.pendingComments = s.pendingComments ++ commentId s.tree.size ⟨p, l, []⟩)
    (hblocks : ∀ b ∈ t.blocks, b ∈ s.blocks ∨ b = s.tree.size ∧ p.kind.isContainer = true) : Keeping P ts root t := by
  refine ⟨hsaved, h.ordered.sublist hahead.sublist, hspelled, ?_, ?_, ?_⟩
  · intro i e he
    rw [hviews] at he
    rcases getElem?_push he with he | ⟨-, rfl⟩
    · exact (h.passed he).later hahead
    · exact hl
  · have hpush := h.filed.push p l
    rw [Tree.length_views] at hpush
    rw [hviews, hpending]
    exact hpush
  · intro b hb
    rw [hviews]
    have hold : ∀ b, b ∈ s.blocks ∨ root = some b →
        ∃ e, (s.tree.views ++ [⟨p, l, []⟩])[b]? = some e ∧ e.payload.kind.isContainer = true := by
      intro b hb
      obtain ⟨e, he, hcontainer⟩ := h.blocks b hb
      exact ⟨e, getElem?_push_of_some he, hcontainer⟩
    rcases hb with hb | hb
    · rcases hblocks b hb with hb | ⟨rfl, hcontainer⟩
      · exact hold b (.inl hb)
      · rw [← Tree.length_views]
        exact ⟨_, List.getElem?_concat_length, hcontainer⟩
    · exact hold b (.inr hb)

/-- The state with all comments that wait listed by one block. -/
def listing (s : ParserState) (b : NodeId) : ParserState :=
  { s with tree := s.pendingComments.foldl (fun t c => t.attachComment b c) s.tree, pendingComments := [] }

theorem views_listing (s : ParserState) (b : NodeId) :
    (s.listing b).tree.views = s.tree.views.modify b (·.adding s.pendingComments) :=
  Tree.views_attachComments _ _ _

theorem Keeping.listing {root' : Option NodeId} {b : NodeId} {e : NodeView} (h : Keeping P ts root s) (hb : s.tree.views[b]? = some e)
    (hblock : e.payload.kind.isContainer = true) (hroot : root' = root ∨ root = none ∧ root' = some b)
    (hown : root' = some b ∨
      ∀ c ∈ s.pendingComments, ∀ m, s.tree.views[c]? = some m → e.location.offset < m.location.offset ∧ ¬P m.location) :
    Keeping P ts root' (s.listing b) := by
  have hkeep : ∀ r, root = some r → root' = some r := by
    rcases hroot with rfl | ⟨hnone, -⟩
    · exact fun _ hr => hr
    · intro r hr
      rw [hnone] at hr
      nomatch hr
  have hlist := h.filed.list hb hblock hkeep hown
  refine ⟨h.unmarked, h.ordered, ?_, ?_, ?_, ?_⟩
  · rw [views_listing, notes_adding]
    exact h.spelled
  · intro i e' he'
    rw [views_listing] at he'
    rcases getElem?_adding hb he' with ⟨rfl, rfl⟩ | he'
    · exact h.passed (e := e) hb
    · exact h.passed he'
  · rw [views_listing]
    exact hlist
  · intro b' hb'
    rw [views_listing]
    obtain ⟨e₀, he₀, hcontainer⟩ : ∃ e₀, s.tree.views[b']? = some e₀ ∧ e₀.payload.kind.isContainer = true := by
      rcases hb' with hb' | hb'
      · exact h.blocks b' (.inl hb')
      · rcases hroot with rfl | ⟨-, hroot⟩
        · exact h.blocks b' (.inr hb')
        · obtain rfl : b = b' := Option.some.inj (hroot.symm.trans hb')
          exact ⟨e, hb, hblock⟩
    obtain ⟨e', he', hpayload, -, -⟩ := exists_adding he₀ b s.pendingComments
    exact ⟨e', he', hpayload ▸ hcontainer⟩

/-- A comment is filed when it is taken, if no block is open or nothing waits, not even that comment for the root. -/
theorem Keeping.comment (h : Keeping P ts root s) {c : Token} {rest : List Token} (hs : s.stream.ahead = c :: rest)
    (hc : c.isComment = true) (hfree : s.blocks = [] ∨ s.pendingComments = [] ∧ ¬P c.location) :
    Keeping P ts root ((s.passing c rest).placeComment c) := by
  have hnew := Tree.views_alloc s.tree (.comment c.text) c.location
  have hspelled : ∃ behind, ts = behind ++ rest ∧
      notes (s.tree.alloc (.comment c.text) c.location).2.views = tokenNotes behind := by
    obtain ⟨behind, hts, hnotes⟩ := h.spelled
    refine ⟨behind ++ [c], ?_, ?_⟩
    · rw [hts, hs, List.append_assoc]
      rfl
    · rw [hnew, notes_append, tokenNotes_append, hnotes, notes_comment hc]
  have hgrown : Keeping P ts root { s.passing c rest with
      tree := (s.tree.alloc (.comment c.text) c.location).2
      pendingComments := s.pendingComments ++ [s.tree.size] } :=
    h.grow h.unmarked (hs ▸ List.suffix_cons c rest) hspelled (passed_of_ordered (hs ▸ h.ordered) rfl) hnew rfl (fun _ => .inl)
  cases hopen : s.blocks with
  | nil =>
    rw [placeComment_of_nil (s := s.passing c rest) hopen]
    exact hgrown
  | cons b bs =>
    obtain ⟨hwaiting, hP⟩ : s.pendingComments = [] ∧ ¬P c.location := by
      rcases hfree with hnil | hfree
      · rw [hopen] at hnil
        nomatch hnil
      · exact hfree
    obtain ⟨e, he, hcontainer⟩ := h.blocks b (.inl (hopen ▸ List.mem_cons_self))
    rw [hwaiting] at hgrown
    have hviews : (s.tree.alloc (.comment c.text) c.location).2.views[b]? = some e := by
      rw [hnew, getElem?_push_of_some he]
    have hlisting := hgrown.listing hviews hcontainer (.inl rfl) (.inr (fun d hd m hm => ?_))
    · rw [placeComment_of_cons (s := s.passing c rest) hopen]
      unfold ParserState.passing ParserState.listing at hlisting
      unfold ParserState.passing
      rw [hwaiting]
      exact hlisting
    · -- The comment starts behind the block, as all comments ahead do.
      obtain rfl := List.mem_singleton.1 hd
      rw [hnew, ← Tree.length_views, List.getElem?_concat_length] at hm
      obtain rfl := Option.some.inj hm
      exact ⟨(h.passed he c (hs ▸ List.mem_cons_self)).2 hc, hP⟩

theorem Later.comment (c : Token) {rest : List Token} (hs : s.stream.ahead = c :: rest) :
    Later s ((s.passing c rest).placeComment c) := by
  have hnew := Tree.views_alloc s.tree (.comment c.text) c.location
  refine ⟨?_, fun {i e} he => ?_⟩
  · rw [stream_placeComment]
    exact hs ▸ List.suffix_cons c rest
  · have hkept : (s.tree.views ++ [⟨.comment c.text, c.location, []⟩])[i]? = some e := getElem?_push_of_some he
    cases hopen : s.blocks with
    | nil =>
      rw [placeComment_of_nil (s := s.passing c rest) hopen]
      exact ⟨e, by rw [tree_passing, hnew, hkept], rfl, rfl⟩
    | cons b bs =>
      rw [placeComment_of_cons (s := s.passing c rest) hopen]
      obtain ⟨e', he', hpayload, hlocation, -⟩ := exists_adding hkept b [s.tree.size]
      exact ⟨e', by rw [tree_passing, Tree.views_attachComment, hnew, he'], hpayload, hlocation⟩

/-- Before any block is open, comments wait. -/
theorem Keeping.settle (h : Keeping P ts root s) (hopen : s.blocks = []) : Keeping P ts root s.settle := by
  have hboth : Keeping P ts root s.settle ∧ s.settle.blocks = [] := by
    refine settle_induction (I := fun u => Keeping P ts root u ∧ u.blocks = []) ?_ ⟨h, hopen⟩
    rintro u c rest hu hc ⟨hkeeping, hnil⟩
    exact ⟨hkeeping.comment hu hc (.inl hnil), (blocks_placeComment _ _).trans hnil⟩
  exact hboth.1

theorem Kept.comment (h : Kept P ts root s) {c : Token} {rest : List Token} (hs : s.stream.ahead = c :: rest)
    (hc : c.isComment = true) : Kept P ts root ((s.passing c rest).placeComment c) := by
  have hfree : s.blocks = [] ∨ s.pendingComments = [] ∧ ¬P c.location := by
    cases root with
    | none => exact .inl (h.outer rfl)
    | some r => exact .inr ⟨(h.inner (by simp)).2, h.inside c (hs ▸ List.mem_cons_self)⟩
  refine ⟨h.toKeeping.comment hs hc hfree, ?_, ?_, ?_⟩
  · intro d hd
    rw [stream_placeComment] at hd
    exact h.inside d (hs ▸ List.mem_cons_of_mem c hd)
  · intro hroot
    rw [blocks_placeComment]
    exact h.outer hroot
  · intro hroot
    obtain ⟨hopen, hnone⟩ := h.inner hroot
    rw [blocks_placeComment]
    obtain ⟨b, bs, hblocks⟩ := List.exists_cons_of_ne_nil hopen
    rw [placeComment_of_cons (s := s.passing c rest) hblocks]
    exact ⟨hopen, hnone⟩

theorem Kept.settle (h : Kept P ts root s) : Kept P ts root s.settle ∧ Later s s.settle := by
  refine settle_induction (I := fun u => Kept P ts root u ∧ Later s u) ?_ ⟨h, .refl s⟩
  rintro u c rest hu hc ⟨hkept, hlater⟩
  exact ⟨hkept.comment hu hc, hlater.trans (.comment c hu)⟩

/-- Where the next token starts is passed once the comments before it are taken. -/
theorem Kept.passed_here (h : Kept P ts root s) : s.settle.Passed s.here := by
  intro d hd
  have hordered := h.settle.1.ordered
  rw [here_eq]
  cases hs : s.significant with
  | nil =>
    have hnone := head?_ahead_settle s
    rw [hs] at hnone
    rw [List.head?_eq_none_iff.1 hnone] at hd
    nomatch hd
  | cons c v =>
    obtain ⟨rest, hrest, -, -⟩ := taken_eq hs
    rw [hrest] at hd hordered
    rcases List.mem_cons.1 hd with rfl | hd
    · have hnot : d.isComment = false := isComment_of_ahead_settle (by rw [hrest]; rfl)
      exact ⟨Nat.le_refl _, fun hcomment => by rw [hnot] at hcomment; nomatch hcomment⟩
    · have hlt := (List.pairwise_cons.1 hordered).1 d hd
      exact ⟨Nat.le_of_lt hlt, fun _ => hlt⟩

theorem Kept.taken (h : Kept P ts root s) {c : Token} {v : List Token} (hs : s.significant = c :: v) :
    Kept P ts root s.taken ∧ Later s s.taken ∧ s.taken.Passed c.location := by
  obtain ⟨hsettled, hlater⟩ := h.settle
  obtain ⟨rest, hrest, -, htaken⟩ := taken_eq hs
  have hsuffix : rest <:+ s.settle.stream.ahead := hrest ▸ List.suffix_cons c rest
  have hnot : c.isComment = false := isComment_of_mem_significant (hs ▸ List.mem_cons_self : c ∈ s.significant)
  rw [htaken]
  refine ⟨⟨hsettled.toKeeping.passing hrest hnot, fun d hd => hsettled.inside d (hsuffix.subset hd), hsettled.outer,
    hsettled.inner⟩, hlater.trans ⟨hsuffix, fun {_ e} he => ⟨e, he, rfl, rfl⟩⟩, ?_⟩
  exact passed_of_ordered (hrest ▸ hsettled.ordered) rfl

/-- What is open again when a production is left was open at its beginning. -/
theorem Kept.leave (h : Kept P ts root s) (hlater : Later s t) (ht : Kept P ts root t) : Kept P ts root (t.leave s.checkpoint) := by
  refine ⟨⟨ht.unmarked, ht.ordered, ht.spelled, ht.passed, ht.filed, fun b hb => ?_⟩, ht.inside, h.outer,
    fun hroot => ⟨(h.inner hroot).1, (ht.inner hroot).2⟩⟩
  rcases hb with hb | hb
  · obtain ⟨e, he, hcontainer⟩ := h.blocks b (.inl hb)
    obtain ⟨e', he', hpayload, -⟩ := hlater.views he
    exact ⟨e', he', hpayload ▸ hcontainer⟩
  · exact ht.blocks b (.inr hb)

/-! ## Nodes -/

theorem Later.openNode (s : ParserState) (p : Payload) (l : Location) : Later s (s.openNode p l).2 := by
  have hnew := Tree.views_alloc s.tree p l
  refine ⟨⟨[], congrArg Stream.ahead (stream_openNode s p l)⟩, fun {i e} he => ?_⟩
  have hkept : (s.tree.views ++ [⟨p, l, []⟩])[i]? = some e := getElem?_push_of_some he
  cases hcontainer : p.kind.isContainer with
  | true =>
    rw [openNode_of_container hcontainer]
    obtain ⟨e', he', hpayload, hlocation, -⟩ := exists_adding hkept s.tree.size s.pendingComments
    exact ⟨e', by rw [Tree.views_attachComments, Tree.views_withFlags, hnew, he'], hpayload, hlocation⟩
  | false =>
    rw [openNode_of_not_container hcontainer]
    exact ⟨e, by rw [Tree.views_withFlags, hnew, hkept], rfl, rfl⟩

/-- A new node is filed, and a new block lists what waits: nothing waits, or the block is the root. -/
theorem Keeping.openNode {root' : Option NodeId} {p : Payload} {l : Location} (h : Keeping P ts root s) (hkind : p.kind ≠ .comment)
    (hl : s.Passed l) (hroot : root' = root ∧ (p.kind.isContainer = true → s.pendingComments = []) ∨
      root = none ∧ root' = some s.tree.size ∧ p.kind.isContainer = true) : Keeping P ts root' (s.openNode p l).2 := by
  have hviews : ((s.tree.alloc p l).2.withFlags s.tree.size s.pendingFlags).views = s.tree.views ++ [⟨p, l, []⟩] := by
    rw [Tree.views_withFlags, Tree.views_alloc]
  have hid : commentId s.tree.size ⟨p, l, []⟩ = [] := commentId_of_not_comment hkind _
  have hspelled : ∃ behind, ts = behind ++ s.stream.ahead ∧
      notes ((s.tree.alloc p l).2.withFlags s.tree.size s.pendingFlags).views = tokenNotes behind := by
    obtain ⟨behind, hts, hnotes⟩ := h.spelled
    have hnone : notes [⟨p, l, []⟩] = [] := notes_of_not_comment hkind
    rw [hviews, notes_append, hnone, List.append_nil]
    exact ⟨behind, hts, hnotes⟩
  cases hcontainer : p.kind.isContainer with
  | false =>
    obtain rfl : root' = root := by
      rcases hroot with ⟨hroot, -⟩ | ⟨-, -, hblock⟩
      · exact hroot
      · rw [hcontainer] at hblock
        nomatch hblock
    rw [openNode_of_not_container hcontainer]
    exact h.grow h.unmarked (List.suffix_refl _) hspelled hl hviews (by rw [hid, List.append_nil]) (fun _ => .inl)
  | true =>
    have hgrown : Keeping P ts root { s with
        tree := (s.tree.alloc p l).2.withFlags s.tree.size s.pendingFlags
        blocks := s.tree.size :: s.blocks
        pendingFlags := none } := by
      refine h.grow h.unmarked (List.suffix_refl _) hspelled hl hviews (by rw [hid, List.append_nil]) (fun b hb => ?_)
      rcases List.mem_cons.1 hb with rfl | hb
      · exact .inr ⟨rfl, hcontainer⟩
      · exact .inl hb
    have hself : ((s.tree.alloc p l).2.withFlags s.tree.size s.pendingFlags).views[s.tree.size]? = some ⟨p, l, []⟩ := by
      rw [hviews, ← Tree.length_views, List.getElem?_concat_length]
    rw [openNode_of_container hcontainer]
    rcases hroot with ⟨rfl, hnone⟩ | ⟨hnone, rfl, -⟩
    · refine hgrown.listing hself hcontainer (.inl rfl) (.inr (fun c hc => ?_))
      rw [show s.pendingComments = [] from hnone hcontainer] at hc
      nomatch hc
    · exact hgrown.listing hself hcontainer (.inr ⟨hnone, rfl⟩) (.inl rfl)

theorem Kept.openNode {p : Payload} {l : Location} (h : Kept P ts root s) (hopen : root ≠ none) (hkind : p.kind ≠ .comment)
    (hl : s.Passed l) : Kept P ts root (s.openNode p l).2 := by
  obtain ⟨hblocks, hnone⟩ := h.inner hopen
  refine ⟨h.toKeeping.openNode hkind hl (.inl ⟨rfl, fun _ => hnone⟩), ?_, fun hroot => absurd hroot hopen, fun _ => ?_⟩
  · rw [stream_openNode]
    exact h.inside
  · cases hcontainer : p.kind.isContainer with
    | true =>
      rw [openNode_of_container hcontainer]
      exact ⟨List.cons_ne_nil _ _, rfl⟩
    | false =>
      rw [openNode_of_not_container hcontainer]
      exact ⟨hblocks, hnone⟩

/-- The first block that is opened is the root. -/
theorem Kept.openRoot {p : Payload} {l : Location} (h : Kept P ts none s) (hcontainer : p.kind.isContainer = true) (hl : s.Passed l) :
    Kept P ts (some (s.openNode p l).1) (s.openNode p l).2 := by
  have hkind : p.kind ≠ .comment := by
    intro heq
    rw [heq] at hcontainer
    nomatch hcontainer
  rw [fst_openNode]
  refine ⟨h.toKeeping.openNode hkind hl (.inr ⟨rfl, rfl, hcontainer⟩), ?_, (fun hroot => nomatch hroot), fun _ => ?_⟩
  · rw [stream_openNode]
    exact h.inside
  · rw [openNode_of_container hcontainer]
    exact ⟨List.cons_ne_nil _ _, rfl⟩

theorem Kept.attached (h : Kept P ts root s) (i j : NodeId) : Kept P ts root (s.attached i j) ∧ Later s (s.attached i j) := by
  have hviews : (s.attached i j).tree.views = s.tree.views := Tree.views_attach s.tree i j
  refine ⟨⟨⟨h.unmarked, h.ordered, ?_, ?_, ?_, ?_⟩, h.inside, h.outer, h.inner⟩, .of_views rfl hviews⟩
  · rw [hviews]
    exact h.spelled
  · rw [hviews]
    exact h.passed
  · rw [hviews]
    exact h.filed
  · rw [hviews]
    exact h.blocks

end ParserState

end Courier
