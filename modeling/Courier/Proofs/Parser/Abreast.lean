import Courier.Proofs.Parser.Coupling
import Courier.Proofs.Tree.Alike
import Mathlib.Data.List.Forall2

/-!
# States abreast of each other

Two runs are abreast if the tokens ahead of them correspond one by one, comments included, and their trees are related (`Abreast`). Which
tokens correspond and what the nodes may be made of is left open; each operation keeps states abreast, as long as comments that correspond
may be made nodes of (`Comparable`).
-/

namespace Courier.Parser

open ParserState

/-- Tokens that correspond are of one kind, and comments among them are made nodes that may be related. -/
structure Comparable (P : Token → Token → Prop) (M : Matter) : Prop where
  kind {t t' : Token} (h : P t t') : t'.kind = t.kind
  comment {t t' : Token} (h : P t t') (hc : t.isComment = true) : M (.comment t.text, t.location) (.comment t'.text, t'.location)

/-- Two states of the parses of two streams: the tokens ahead correspond, the trees are related, and the rest is the same. -/
structure Abreast (base base' : Stream) (P : Token → Token → Prop) (M : Matter) (s s' : ParserState) : Prop where
  source : s.stream.source = base.source ∧ s'.stream.source = base'.source
  file : s.stream.file = base.file ∧ s'.stream.file = base'.file
  saved : s.stream.saved = none ∧ s'.stream.saved = none
  ahead : List.Forall₂ P s.stream.ahead s'.stream.ahead
  constructs : s'.constructs = s.constructs
  blocks : s'.blocks = s.blocks
  comments : s'.pendingComments = s.pendingComments
  flags : s'.pendingFlags = s.pendingFlags
  traces : s'.traces = s.traces
  tree : s.tree.Related M s'.tree

variable {base base' : Stream} {P : Token → Token → Prop} {M : Matter} {s s' : ParserState}

/-! ## Tokens that correspond -/

theorem isComment_eq (hP : ∀ t t', P t t' → t'.kind = t.kind) {t t' : Token} (h : P t t') : t'.isComment = t.isComment := by
  rw [Token.isComment, Token.isComment, hP t t' h]

theorem forall₂_significant (hP : ∀ t t', P t t' → t'.kind = t.kind) {ts ts' : List Token} (h : List.Forall₂ P ts ts') :
    List.Forall₂ P (significant ts) (significant ts') := by
  induction h with
  | nil => exact .nil
  | @cons t t' ts ts' ht _ ih =>
    cases hc : t.isComment with
    | true => rwa [significant_cons_comment hc, significant_cons_comment ((isComment_eq hP ht).trans hc)]
    | false =>
      rw [significant_cons hc, significant_cons ((isComment_eq hP ht).trans hc)]
      exact .cons ht ih

/-- Tokens that correspond have the same signs, if any two of them do. -/
theorem map_eq_of_forall₂ {β : Type} {f : Token → β} (hf : ∀ t t', P t t' → f t = f t') {ts ts' : List Token}
    (h : List.Forall₂ P ts ts') : ts.map f = ts'.map f := by
  induction h with
  | nil => rfl
  | cons ht _ ih => rw [List.map_cons, List.map_cons, hf _ _ ht, ih]

theorem Abreast.significant (hP : ∀ t t', P t t' → t'.kind = t.kind) (h : Abreast base base' P M s s') :
    List.Forall₂ P s.significant s'.significant :=
  forall₂_significant hP h.ahead

/-- Both parsers are at tokens that correspond, or both are at the end. -/
theorem Abreast.here (hP : ∀ t t', P t t' → t'.kind = t.kind) (h : Abreast base base' P M s s') :
    (∃ t t', P t t' ∧ s.here = t.location ∧ s'.here = t'.location) ∨
      s.significant = [] ∧ s.here = base.endLocation ∧ s'.here = base'.endLocation := by
  have hsig := h.significant hP
  rw [here_eq, here_eq, h.source.1, h.source.2]
  generalize s.significant = v at hsig ⊢
  generalize s'.significant = v' at hsig ⊢
  cases hsig with
  | nil => exact .inr ⟨rfl, rfl, rfl⟩
  | cons ht _ => exact .inl ⟨_, _, ht, rfl, rfl⟩

/-- Failures of states abreast tell the same constructs. -/
theorem Abreast.chain (h : Abreast base base' P M s s') : s'.chain = s.chain := by
  rw [ParserState.chain, ParserState.chain, h.traces, h.constructs]

/-! ## Operations -/

theorem Abreast.mono (h : Abreast base base' P M s s') {M' : Matter} (hM : ∀ m m', M m m' → M' m m') : Abreast base base' P M' s s' :=
  { h with tree := h.tree.mono hM }

theorem Abreast.passing (h : Abreast base base' P M s s') {t t' : Token} {rest rest' : List Token} (hs : s.stream.ahead = t :: rest)
    (hs' : s'.stream.ahead = t' :: rest') : Abreast base base' P M (s.passing t rest) (s'.passing t' rest') := by
  have hahead := h.ahead
  rw [hs, hs'] at hahead
  cases hahead with
  | cons _ hrest => exact { h with ahead := hrest }

theorem Abreast.placeComment (h : Abreast base base' P M s s') {t t' : Token}
    (ht : M (.comment t.text, t.location) (.comment t'.text, t'.location)) :
    Abreast base base' P M (s.placeComment t) (s'.placeComment t') := by
  have hmade := h.tree.alloc ht
  have hid : (s'.tree.alloc (.comment t'.text) t'.location).1 = (s.tree.alloc (.comment t.text) t.location).1 := h.tree.size
  unfold ParserState.placeComment
  rw [h.blocks]
  dsimp only
  split
  · rename_i block rest hblocks
    rw [hid]
    exact { h with tree := hmade.attachComment block _, blocks := rfl }
  · rename_i hblocks
    rw [hid]
    exact { h with tree := hmade, blocks := rfl, comments := congrArg (· ++ [_]) h.comments }

/-- Both states take the same comments. -/
theorem Abreast.settle (hP : Comparable P M) (h : Abreast base base' P M s s') : Abreast base base' P M s.settle s'.settle := by
  have hall : ∀ {ts ts' : List Token}, List.Forall₂ P ts ts' → ∀ {s s' : ParserState},
      Abreast base base' P M s s' → s.stream.ahead = ts → s'.stream.ahead = ts' →
      Abreast base base' P M (s.takeComments ts) (s'.takeComments ts') := by
    intro ts ts' hts
    induction hts with
    | nil => exact fun h _ _ => h
    | @cons t t' rest rest' ht _ ih =>
      intro s s' h hs hs'
      have hsame : t'.isComment = t.isComment := isComment_eq (fun _ _ => hP.kind) ht
      cases hc : t.isComment with
      | false =>
        rw [takeComments_of_head (by simp [hc]), takeComments_of_head (by simp [hsame, hc])]
        exact h
      | true =>
        rw [takeComments_cons_comment hs hc, takeComments_cons_comment hs' (hsame.trans hc)]
        exact ih ((h.passing hs hs').placeComment (hP.comment ht hc)) (by simp) (by simp)
  exact hall h.ahead h rfl rfl

theorem Abreast.taken (hP : Comparable P M) (h : Abreast base base' P M s s') : Abreast base base' P M s.taken s'.taken := by
  have hsettled := h.settle hP
  have hahead := hsettled.ahead
  unfold ParserState.taken
  cases hs : s.settle.stream.ahead with
  | nil =>
    rw [hs] at hahead
    rw [List.forall₂_nil_left_iff.1 hahead]
    exact hsettled
  | cons t rest =>
    cases hs' : s'.settle.stream.ahead with
    | nil =>
      rw [hs, hs'] at hahead
      nomatch hahead
    | cons t' rest' => exact hsettled.passing hs hs'

theorem Abreast.openNode (h : Abreast base base' P M s s') {p p' : Payload} {l l' : Location} (hkind : p'.kind = p.kind)
    (hp : M (p, l) (p', l')) : Abreast base base' P M (s.openNode p l).2 (s'.openNode p' l').2 := by
  have hsize : s'.tree.size = s.tree.size := h.tree.size
  have hmade : ((s.tree.alloc p l).2.withFlags s.tree.size s.pendingFlags).Related M
      ((s'.tree.alloc p' l').2.withFlags s.tree.size s.pendingFlags) := by
    cases s.pendingFlags with
    | none => exact h.tree.alloc hp
    | some flags => exact (h.tree.alloc hp).setFlags _ flags
  cases hcontainer : p.kind.isContainer with
  | true =>
    rw [openNode_of_container hcontainer, openNode_of_container (hkind ▸ hcontainer), h.blocks, h.comments, h.flags, hsize]
    exact { h with tree := hmade.attachComments _ s.pendingComments, blocks := rfl, comments := rfl, flags := rfl }
  | false =>
    rw [openNode_of_not_container hcontainer, openNode_of_not_container (hkind ▸ hcontainer), h.flags, hsize]
    exact { h with tree := hmade, flags := rfl }

theorem Abreast.attached (h : Abreast base base' P M s s') (i j : NodeId) : Abreast base base' P M (s.attached i j) (s'.attached i j) :=
  { h with tree := h.tree.attach i j }

/-- Where one production ends, the chains and the open blocks are as they were where it began. -/
theorem Abreast.leave {M' : Matter} {t t' : ParserState} (h : Abreast base base' P M s s') (ht : Abreast base base' P M' t t') :
    Abreast base base' P M' (t.leave s.checkpoint) (t'.leave s'.checkpoint) :=
  { ht with constructs := h.constructs, blocks := h.blocks }

theorem abreast_initial (h : List.Forall₂ P base.tokens base'.tokens) (trace : Bool) :
    Abreast base base' P M (.initial base trace) (.initial base' trace) :=
  ⟨⟨rfl, rfl⟩, ⟨rfl, rfl⟩, ⟨rfl, rfl⟩, h, rfl, rfl, rfl, rfl, rfl, Tree.related_empty _ _⟩

/-- Trees that are finished abreast are related. -/
theorem Abreast.finish (h : Abreast base base' P M s s') (root : NodeId) : (s.finish root).Related M (s'.finish root) := by
  unfold ParserState.finish
  rw [h.comments]
  exact (h.tree.attachComments root s.pendingComments).setRoot root

end Courier.Parser
