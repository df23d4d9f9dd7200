import Courier.Proofs.Parser.Leaves
import Courier.Proofs.Tree.Extends

/-!
# Coupled runs

Two runs of a parser are coupled if they do the same on states that correspond. What corresponds is left open: a `Coupling` says it of
states, of places, of nodes and of failures, each at a world, which tells how far the runs have come. `Coupling.Reads` asks that the
operations on tokens keep the correspondence, and `Coupling.Builds` that the operations on nodes do. `Coupling.Parallel` says of two
parsers that their runs are coupled, and there is one rule for each operation and for each way parsers are put together. What the two
runs have in hand is a list of `Bond`s.

What the two runs see alike of a token is left open too (`Coupling.sign`), as long as it tells the kind, and the text but for the case
of a reserved word (`Token.folded`). Left open is as well what both may make a node of, but for an instance this is everything
(`Coupling.Shared`). Where they see the whole text and make the same nodes, the coupling is `Exact`; where any node may get any child, it
is `Loose`; where both, it is `Free`.

A coupling of a state with itself is an invariant, so the same rules serve for what one run keeps.
-/

namespace Courier

/-- The kind and the text of a token. The place of a token is no part of it. -/
def Token.sign (t : Token) : TokenKind × String :=
  (t.kind, t.text)

/-- Whether the case of the letters of a kind of token means nothing: the kind is that of a reserved word. -/
def TokenKind.isReserved (k : TokenKind) : Bool :=
  k == .keyword || k == .booleanLiteral

/-- What the grammar goes by: the kind and the text, where reserved words are told in lower case. -/
def Token.folded (t : Token) : TokenKind × List Char :=
  (t.kind, if t.kind.isReserved then t.text.toList.map Char.toLower else t.text.toList)

theorem Token.folded_of_sign {t t' : Token} (h : t.sign = t'.sign) : t.folded = t'.folded := by
  obtain ⟨hkind, htext⟩ := Prod.mk.inj h
  rw [Token.folded, Token.folded, hkind, htext]

/-- Tokens that are no reserved words have the same text if they are the same to the grammar. -/
theorem Token.text_of_folded {t t' : Token} (h : t.folded = t'.folded) (hkind : t.kind.isReserved = false) : t.text = t'.text := by
  obtain ⟨hsame, htext⟩ := Prod.mk.inj h
  rw [← hsame, hkind] at htext
  exact String.toList_injective htext

/-- The state with one node linked below another. -/
def ParserState.attached (s : ParserState) (parent child : NodeId) : ParserState :=
  { s with tree := s.tree.attach parent child, reattached := s.reattached || s.tree.hasParent child }

namespace Parser

open ParserState

/-- What two runs have in hand: places and nodes that correspond, nodes that may get children, and plain facts. -/
inductive Bond where
  | place (l l' : Location)
  | node (i i' : NodeId)
  | owner (i i' : NodeId)
  | plain (p : Prop)

/-- What corresponds in two runs. A later world knows all that an earlier one does. -/
structure Coupling where
  World : Type
  Later : World → World → Prop
  State : World → ParserState → ParserState → Prop
  Place : World → Location → Location → Prop
  Node : World → NodeId → NodeId → Prop
  /-- The nodes may get children, statements in a block apart. -/
  Owner : World → NodeId → NodeId → Prop := Node
  Failed : World → ParseError → ParserState → ParseError → ParserState → Prop
  /-- What the runs see alike of a token. -/
  sign : Token → TokenKind × String := Token.sign
  /-- The faults that correspond. -/
  Fault : ParseFault → ParseFault → Prop := Eq
  /-- What both runs may make a node of. -/
  Shared : Payload → Prop := fun _ => True

namespace Coupling

variable (C : Coupling)

/-- The bond holds at a world. -/
def Holds (w : C.World) : Bond → Prop
  | .place l l' => C.Place w l l'
  | .node i i' => C.Node w i i'
  | .owner i i' => C.Owner w i i'
  | .plain p => p

/-- The states correspond at a later world, at which the bonds hold. -/
def Onward (w : C.World) (t t' : ParserState) (bonds : List Bond) : Prop :=
  ∃ w', C.Later w w' ∧ C.State w' t t' ∧ ∀ b ∈ bonds, C.Holds w' b

/-- The failures correspond at a later world. -/
def Fails (w : C.World) (e : ParseError) (t : ParserState) (e' : ParseError) (t' : ParserState) : Prop :=
  ∃ w', C.Later w w' ∧ C.Failed w' e t e' t'

/-- The operations on tokens keep the correspondence. -/
class Reads : Prop where
  refl (w : C.World) : C.Later w w
  trans {w w' w'' : C.World} (h : C.Later w w') (h' : C.Later w' w'') : C.Later w w''
  place_later {w w' : C.World} {l l' : Location} (h : C.Later w w') (hl : C.Place w l l') : C.Place w' l l'
  node_later {w w' : C.World} {i i' : NodeId} (h : C.Later w w') (hi : C.Node w i i') : C.Node w' i i'
  owner_later {w w' : C.World} {i i' : NodeId} (h : C.Later w w') (hi : C.Owner w i i') : C.Owner w' i i'
  folded {t t' : Token} (h : C.sign t = C.sign t') : t.folded = t'.folded
  fault_refl (fault : ParseFault) : C.Fault fault fault
  fault_text {t t' : Token} (h : C.sign t = C.sign t') (fault : String → ParseFault) : C.Fault (fault t.text) (fault t'.text)
  unmarked {w : C.World} {s s' : ParserState} (h : C.State w s s') : s.stream.saved = none ∧ s'.stream.saved = none
  /-- The tokens ahead that are no comments look alike. -/
  signs {w : C.World} {s s' : ParserState} (h : C.State w s s') : s.significant.map C.sign = s'.significant.map C.sign
  settle {w : C.World} {s s' : ParserState} (h : C.State w s s') : C.Onward w s.settle s'.settle [.place s.here s'.here]
  taken {w : C.World} {s s' : ParserState} {t t' : Token} {v v' : List Token} (h : C.State w s s') (hs : s.significant = t :: v)
    (hs' : s'.significant = t' :: v') : C.Onward w s.taken s'.taken [.place t.location t'.location]
  keepFlags {w : C.World} {s s' : ParserState} (h : C.State w s s') (flags : List String) :
    C.Onward w { s with pendingFlags := some flags } { s' with pendingFlags := some flags } []
  enter {w : C.World} {s s' : ParserState} (h : C.State w s s') (construct : Construct) :
    C.Onward w (s.enter construct) (s'.enter construct) []
  leave {w w' : C.World} {s s' t t' : ParserState} (h : C.State w s s') (hw : C.Later w w') (ht : C.State w' t t') :
    C.Onward w' (t.leave s.checkpoint) (t'.leave s'.checkpoint) []
  failed_here {w : C.World} {s s' : ParserState} {fault fault' : ParseFault} (h : C.State w s s') (hf : C.Fault fault fault') :
    C.Failed w (s.errorAt s.here fault) s (s'.errorAt s'.here fault') s'
  failed_at {w : C.World} {s s' : ParserState} {l l' : Location} {fault fault' : ParseFault} (h : C.State w s s')
    (hl : C.Place w l l') (hf : C.Fault fault fault') : C.Failed w (s.errorAt l fault) s (s'.errorAt l' fault') s'
  abandon {w w' : C.World} {s s' t t' : ParserState} {e e' : ParseError} (h : C.State w s s') (hw : C.Later w w')
    (he : C.Failed w' e t e' t') : C.Fails w (e.discarding (t.abandon s.checkpoint).1) (t.abandon s.checkpoint).2
      (e'.discarding (t'.abandon s'.checkpoint).1) (t'.abandon s'.checkpoint).2

/-- The operations on nodes keep it as well. A parser makes no comment and fills no return value. -/
class Builds : Prop extends C.Reads where
  /-- Of an instance, the two runs may make nodes of their own. -/
  shared {p : Payload} (hkind : p.kind ≠ .inst) : C.Shared p
  openNode {w : C.World} {s s' : ParserState} {l l' : Location} {p : Payload} (h : C.State w s s') (hl : C.Place w l l')
    (hp : C.Shared p) (hkind : p.kind ≠ .comment) (hvalue : p.returnValue = none) :
    C.Onward w (s.openNode p l).2 (s'.openNode p l').2 [.node (s.openNode p l).1 (s'.openNode p l').1]
  attach {w : C.World} {s s' : ParserState} {i i' j j' : NodeId} (h : C.State w s s') (hi : C.Owner w i i') (hj : C.Node w j j') :
    C.Onward w (s.attached i j) (s'.attached i' j') []
  /-- Any node but a block of statements may get children. -/
  owner {w : C.World} {s s' : ParserState} {i i' : NodeId} (h : C.State w s s') (hi : C.Node w i i')
    (hkind : s.tree.kind? i ≠ some .statementsBlock) : C.Owner w i i'
  nodeLocation {w : C.World} {s s' : ParserState} {i i' : NodeId} (h : C.State w s s') (hi : C.Node w i i') :
    ∃ n n', s.tree.node? i = some n ∧ s'.tree.node? i' = some n' ∧ C.Place w n.location n'.location

/-- The runs see the whole text of a token, and make the same nodes. -/
class Exact : Prop extends C.Reads where
  text {t t' : Token} (h : C.sign t = C.sign t') : t.text = t'.text
  shared_any (p : Payload) : C.Shared p

/-- Any node may get any child. -/
class Loose : Prop extends C.Builds where
  owner_of_node {w : C.World} {i i' : NodeId} (hi : C.Node w i i') : C.Owner w i i'

/-- The runs see the whole text of a token, make the same nodes, and any node may get any child. -/
class Free : Prop extends C.Loose, C.Exact

/-- Two runs from `s` and `s'` end in `t` and `t'`: the states correspond, with these bonds, the chains of constructs are as before,
and no token has come back. A run that has to move has taken a token. -/
structure Step (w : C.World) (moves : Bool) (s s' t t' : ParserState) (bonds : List Bond) : Prop where
  onward : C.Onward w t t' bonds
  constructs : t.constructs = s.constructs
  constructs' : t'.constructs = s'.constructs
  length_le : t.significant.length ≤ s.significant.length
  length_lt : moves = true → t.significant.length < s.significant.length

/-- Two runs from `s` and `s'` end alike: both succeed and their states and values correspond, or both fail and their failures do. -/
def Ends {α : Type} (w : C.World) (moves : Bool) (s s' : ParserState) (Q : α → α → List Bond)
    (r r' : EStateM.Result ParseError ParserState α) : Prop :=
  (∃ a b t t', r = .ok a t ∧ r' = .ok b t' ∧ C.Step w moves s s' t t' (Q a b)) ∨
    ∃ e e' t t', r = .error e t ∧ r' = .error e' t' ∧ C.Fails w e t e' t'

/-- From states that correspond, where the bonds `Γ` hold, the runs of two parsers end alike. -/
def Parallel {α : Type} (moves : Bool) (Γ : List Bond) (m n : Parser α) (Q : α → α → List Bond) : Prop :=
  ∀ (w : C.World) (s s' : ParserState), C.State w s s' → (∀ b ∈ Γ, C.Holds w b) → C.Ends w moves s s' Q (m s) (n s')

/-- As `Parallel`, from states where `P` holds of the first. -/
def ParallelFrom {α : Type} (P : ParserState → Prop) (moves : Bool) (Γ : List Bond) (m n : Parser α) (Q : α → α → List Bond) : Prop :=
  ∀ (w : C.World) (s s' : ParserState), C.State w s s' → P s → (∀ b ∈ Γ, C.Holds w b) → C.Ends w moves s s' Q (m s) (n s')

/-- Where both parsers succeed, from states that correspond and with the bonds `Γ`, the states that they leave satisfy `P`. -/
def Lands {α : Type} (Γ : List Bond) (m n : Parser α) (P : ParserState → ParserState → Prop) : Prop :=
  ∀ (w : C.World) (s s' : ParserState), C.State w s s' → (∀ b ∈ Γ, C.Holds w b) →
    ∀ a b t t', m s = .ok a t → n s' = .ok b t' → P t t'

end Coupling

variable {C : Coupling} {w w' : C.World} {s s' t t' : ParserState} {Γ Δ : List Bond} {moves moves' : Bool}

/-! ## Worlds -/

/-- What takes a token takes none back. -/
theorem Coupling.Step.loose (h : C.Step w moves s s' t t' Γ) : C.Step w false s s' t t' Γ :=
  ⟨h.onward, h.constructs, h.constructs', h.length_le, fun hf => nomatch hf⟩

/-- Where no token is taken and the chains are as they were, it is enough that the states correspond. -/
theorem step_still (h : C.Onward w t t' Γ) (hchain : t.constructs = s.constructs) (hchain' : t'.constructs = s'.constructs)
    (ht : t.significant = s.significant) : C.Step w false s s' t t' Γ :=
  ⟨h, hchain, hchain', Nat.le_of_eq (congrArg List.length ht), fun hm => nomatch hm⟩

section

variable [hC : C.Reads]

theorem Coupling.Reads.holds_later (h : C.Later w w') {b : Bond} (hb : C.Holds w b) : C.Holds w' b := by
  cases b with
  | place l l' => exact hC.place_later h hb
  | node i i' => exact hC.node_later h hb
  | owner i i' => exact hC.owner_later h hb
  | plain p => exact hb

/-- Bonds of before hold besides those of now. -/
theorem Coupling.Reads.holds_append (h : C.Later w w') (hΔ : ∀ b ∈ Δ, C.Holds w' b) (hΓ : ∀ b ∈ Γ, C.Holds w b) :
    ∀ b ∈ Δ ++ Γ, C.Holds w' b := by
  intro b hb
  rcases List.mem_append.1 hb with hb | hb
  · exact hΔ b hb
  · exact hC.holds_later h (hΓ b hb)

theorem Coupling.Reads.onward_later (h : C.Later w w') (ht : C.Onward w' t t' Γ) : C.Onward w t t' Γ := by
  obtain ⟨w'', hlater, hstate, hbonds⟩ := ht
  exact ⟨w'', hC.trans h hlater, hstate, hbonds⟩

theorem Coupling.Reads.fails_later (h : C.Later w w') {e e' : ParseError} (he : C.Fails w' e t e' t') : C.Fails w e t e' t' := by
  obtain ⟨w'', hlater, hfailed⟩ := he
  exact ⟨w'', hC.trans h hlater, hfailed⟩

theorem Coupling.Reads.fails_here {fault fault' : ParseFault} (h : C.State w s s') (hf : C.Fault fault fault') :
    C.Fails w (s.errorAt s.here fault) s (s'.errorAt s'.here fault') s' :=
  ⟨w, hC.refl w, hC.failed_here h hf⟩

/-- Runs that go on behind others end alike if the rests of them do. -/
theorem Coupling.Ends.behind {α : Type} {Q : α → α → List Bond} {r r' : EStateM.Result ParseError ParserState α}
    (h : C.Ends w' moves' t t' Q r r') (hlater : C.Later w w') (hstep : C.Step w moves s s' t t' Γ) :
    C.Ends w (moves || moves') s s' Q r r' := by
  rcases h with ⟨a, b, u, u', hr, hr', hrest⟩ | ⟨e, e', u, u', hr, hr', hfail⟩
  · refine .inl ⟨a, b, u, u', hr, hr', hC.onward_later hlater hrest.onward, hrest.constructs.trans hstep.constructs,
      hrest.constructs'.trans hstep.constructs', Nat.le_trans hrest.length_le hstep.length_le, fun hmoves => ?_⟩
    rcases Bool.or_eq_true_iff.1 hmoves with hmoves | hmoves
    · exact Nat.lt_of_le_of_lt hrest.length_le (hstep.length_lt hmoves)
    · exact Nat.lt_of_lt_of_le (hrest.length_lt hmoves) hstep.length_le
  · exact .inr ⟨e, e', u, u', hr, hr', hC.fails_later hlater hfail⟩

/-- The look of the next token is the same in both runs. -/
theorem Coupling.Reads.head_sign (h : C.State w s s') :
    s.significant.head?.map C.sign = s'.significant.head?.map C.sign := by
  rw [← List.head?_map, hC.signs h, List.head?_map]

/-- Where the runs see tokens alike, they are the same to the grammar. -/
theorem Coupling.Reads.map_folded {o o' : Option Token} (h : o.map C.sign = o'.map C.sign) :
    o.map Token.folded = o'.map Token.folded := by
  cases o with
  | none => rw [Option.map_eq_none_iff.1 h.symm]
  | some t =>
    obtain ⟨t', ht', hsign⟩ := Option.map_eq_some_iff.1 h.symm
    rw [ht', Option.map_some, Option.map_some, hC.folded hsign]

/-- The kinds of the tokens ahead that are no comments are the same. -/
theorem Coupling.Reads.map_kind (h : C.State w s s') : s.significant.map Token.kind = s'.significant.map Token.kind := by
  have hall : ∀ v v' : List Token, v.map C.sign = v'.map C.sign → v.map Token.kind = v'.map Token.kind := by
    intro v
    induction v with
    | nil =>
      intro v' hv
      rw [List.map_eq_nil_iff.1 hv.symm]
    | cons t v ih =>
      intro v' hv
      cases v' with
      | nil => nomatch hv
      | cons t' v' =>
        obtain ⟨hsign, hrest⟩ := List.cons.inj hv
        have hkind : t.kind = t'.kind := congrArg Prod.fst (hC.folded hsign)
        rw [List.map_cons, List.map_cons, hkind, ih v' hrest]
  exact hall _ _ (hC.signs h)

/-- Where a token is next in one run, one that looks alike is next in the other. -/
theorem Coupling.Reads.exists_cons (h : C.State w s s') {u : Token} {v : List Token} (hs : s.significant = u :: v) :
    ∃ u' v', s'.significant = u' :: v' ∧ C.sign u = C.sign u' := by
  have hsigns := hC.signs h
  cases hs' : s'.significant with
  | nil => simp [hs, hs'] at hsigns
  | cons u' v' =>
    rw [hs, hs', List.map_cons, List.map_cons] at hsigns
    exact ⟨u', v', rfl, (List.cons.inj hsigns).1⟩

theorem Coupling.Reads.eq_nil (h : C.State w s s') (hs : s.significant = []) : s'.significant = [] := by
  have hsigns := hC.signs h
  rw [hs] at hsigns
  exact List.map_eq_nil_iff.1 hsigns.symm

end

/-! ## Sequences -/

section

variable {α β : Type} {m n : Parser α} {f g : α → Parser β} {Q : α → α → List Bond} {R : β → β → List Bond}

theorem bind_eq_of_ok {a : α} (h : m s = .ok a t) : (m >>= f) s = f a t := by
  simp only [Bind.bind, EStateM.bind, h]

theorem bind_eq_of_error {e : ParseError} (h : m s = .error e t) : (m >>= f) s = .error e t := by
  simp only [Bind.bind, EStateM.bind, h]

theorem Coupling.Parallel.map {h : α → β} (hm : C.Parallel moves Γ m n Q)
    (hQ : ∀ w a b, (∀ c ∈ Q a b, C.Holds w c) → ∀ c ∈ R (h a) (h b), C.Holds w c) : C.Parallel moves Γ (h <$> m) (h <$> n) R := by
  intro w s s' hs hΓ
  rcases hm w s s' hs hΓ with ⟨a, b, t, t', hmt, hnt, hstep⟩ | ⟨e, e', t, t', hmt, hnt, hfail⟩
  · obtain ⟨w', hlater, hstate, hbonds⟩ := hstep.onward
    refine .inl ⟨h a, h b, t, t', ?_, ?_, ⟨w', hlater, hstate, hQ w' a b hbonds⟩, hstep.constructs, hstep.constructs',
      hstep.length_le, hstep.length_lt⟩
    · simp only [Functor.map, EStateM.map, hmt]
    · simp only [Functor.map, EStateM.map, hnt]
  · refine .inr ⟨e, e', t, t', ?_, ?_, hfail⟩
    · simp only [Functor.map, EStateM.map, hmt]
    · simp only [Functor.map, EStateM.map, hnt]

/-- Where two parsers yield the same, so do the parsers that make something of it. -/
theorem Coupling.Parallel.map_eq {h : α → β} (hm : C.Parallel moves Γ m n (fun a b => [.plain (a = b)])) :
    C.Parallel moves Γ (h <$> m) (h <$> n) (fun a b => [.plain (a = b)]) := by
  refine hm.map (fun w a b hab => ?_)
  have heq : a = b := hab (.plain (a = b)) List.mem_cons_self
  intro c hc
  obtain rfl := List.mem_singleton.1 hc
  exact congrArg h heq

/-- What the runs have in hand at the end may be told by other bonds. -/
theorem Coupling.Parallel.weaken {Q' : α → α → List Bond} (hm : C.Parallel moves Γ m n Q)
    (hQ : ∀ w a b, (∀ c ∈ Q a b, C.Holds w c) → ∀ c ∈ Q' a b, C.Holds w c) : C.Parallel moves Γ m n Q' := by
  have hmap := hm.map (h := id) (R := Q') hQ
  rwa [id_map, id_map] at hmap

/-- What follows a plain fact may use it. -/
theorem parallel_plain {p : Prop} (h : p → C.Parallel moves Γ m n Q) : C.Parallel moves (.plain p :: Γ) m n Q := by
  intro w s s' hs hΓ
  have hp : p := hΓ (.plain p) List.mem_cons_self
  exact h hp w s s' hs (fun b hb => hΓ b (List.mem_cons_of_mem _ hb))

section

variable [hC : C.Reads]

/-- The bonds of the first two runs are in the hands of the second two, besides those there were. -/
theorem Coupling.Parallel.andThen (hm : C.Parallel moves Γ m n Q) (hf : ∀ a b, C.Parallel moves' (Q a b ++ Γ) (f a) (g b) R) :
    C.Parallel (moves || moves') Γ (m >>= f) (n >>= g) R := by
  intro w s s' hs hΓ
  rcases hm w s s' hs hΓ with ⟨a, b, t, t', hmt, hnt, hstep⟩ | ⟨e, e', t, t', hmt, hnt, hfail⟩
  · obtain ⟨w', hlater, hstate, hbonds⟩ := hstep.onward
    rw [bind_eq_of_ok hmt, bind_eq_of_ok hnt]
    exact (hf a b w' t t' hstate (hC.holds_append hlater hbonds hΓ)).behind hlater hstep
  · exact .inr ⟨e, e', t, t', bind_eq_of_error hmt, bind_eq_of_error hnt, hfail⟩

/-- In a sequence, what the first parser takes is enough. -/
theorem Coupling.Parallel.bind (hm : C.Parallel moves Γ m n Q) (hf : ∀ a b, C.Parallel false (Q a b ++ Γ) (f a) (g b) R) :
    C.Parallel moves Γ (m >>= f) (n >>= g) R := by
  have h := hm.andThen hf
  rwa [Bool.or_false] at h

/-- In a sequence, what the second parser takes is enough. -/
theorem Coupling.Parallel.after (hm : C.Parallel false Γ m n Q) (hf : ∀ a b, C.Parallel moves (Q a b ++ Γ) (f a) (g b) R) :
    C.Parallel moves Γ (m >>= f) (n >>= g) R := by
  have h := hm.andThen hf
  rwa [Bool.false_or] at h

/-- Where the first runs yield the same, what follows depends on that. -/
theorem Coupling.Parallel.bind_eq (hm : C.Parallel moves Γ m n (fun a b => [.plain (a = b)]))
    (hf : ∀ a, C.Parallel false Γ (f a) (g a) R) : C.Parallel moves Γ (m >>= f) (n >>= g) R := by
  refine hm.bind (fun a b => parallel_plain (fun hab => ?_))
  rw [hab]
  exact hf b

theorem Coupling.Parallel.after_eq (hm : C.Parallel false Γ m n (fun a b => [.plain (a = b)]))
    (hf : ∀ a, C.Parallel moves Γ (f a) (g a) R) : C.Parallel moves Γ (m >>= f) (n >>= g) R := by
  refine hm.after (fun a b => parallel_plain (fun hab => ?_))
  rw [hab]
  exact hf b

omit hC in
theorem Coupling.ParallelFrom.weaken {P P' : ParserState → Prop} (h : C.ParallelFrom P moves Γ m n Q) (hP : ∀ s, P' s → P s) :
    C.ParallelFrom P' moves Γ m n Q :=
  fun w s s' hs hs' hΓ => h w s s' hs (hP s hs') hΓ

omit hC in
/-- What runs in parallel does so from any states. -/
theorem Coupling.Parallel.from {P : ParserState → Prop} (h : C.Parallel moves Γ m n Q) : C.ParallelFrom P moves Γ m n Q :=
  fun w s s' hs _ hΓ => h w s s' hs hΓ

omit hC in
/-- What is known of the values of two runs is in hand as well. -/
theorem Coupling.ParallelFrom.also {P : ParserState → Prop} {R : α → α → Prop} (hm : C.ParallelFrom P moves Γ m n Q)
    (hR : ∀ w s s', C.State w s s' → P s → ∀ a b t t', m s = .ok a t → n s' = .ok b t' → R a b) :
    C.ParallelFrom P moves Γ m n (fun a b => .plain (R a b) :: Q a b) := by
  intro w s s' hs hP hΓ
  rcases hm w s s' hs hP hΓ with ⟨a, b, t, t', hmt, hnt, hstep⟩ | hfail
  · obtain ⟨w', hlater, hstate, hbonds⟩ := hstep.onward
    refine .inl ⟨a, b, t, t', hmt, hnt, { hstep with onward := ⟨w', hlater, hstate, fun c hc => ?_⟩ }⟩
    rcases List.mem_cons.1 hc with rfl | hc
    · exact hR w s s' hs hP a b t t' hmt hnt
    · exact hbonds c hc
  · exact .inr hfail

omit hC in
theorem Coupling.Parallel.also {R : α → α → Prop} (hm : C.Parallel moves Γ m n Q)
    (hR : ∀ w s s', C.State w s s' → ∀ a b t t', m s = .ok a t → n s' = .ok b t' → R a b) :
    C.Parallel moves Γ m n (fun a b => .plain (R a b) :: Q a b) := by
  have hfrom := (hm.from (P := fun _ => True)).also (fun w s s' hs _ => hR w s s' hs)
  exact fun w s s' hs hΓ => hfrom w s s' hs trivial hΓ

/-- What holds of the states at the beginning is of use to the first parser of a sequence. -/
theorem Coupling.ParallelFrom.bind {P : ParserState → Prop} (hm : C.ParallelFrom P moves Γ m n Q)
    (hf : ∀ a b, C.Parallel false (Q a b ++ Γ) (f a) (g b) R) : C.ParallelFrom P moves Γ (m >>= f) (n >>= g) R := by
  intro w s s' hs hP hΓ
  rcases hm w s s' hs hP hΓ with ⟨a, b, t, t', hmt, hnt, hstep⟩ | ⟨e, e', t, t', hmt, hnt, hfail⟩
  · obtain ⟨w', hlater, hstate, hbonds⟩ := hstep.onward
    rw [bind_eq_of_ok hmt, bind_eq_of_ok hnt]
    have hends := (hf a b w' t t' hstate (hC.holds_append hlater hbonds hΓ)).behind hlater hstep
    rwa [Bool.or_false] at hends
  · exact .inr ⟨e, e', t, t', bind_eq_of_error hmt, bind_eq_of_error hnt, hfail⟩

theorem parallel_pure {a b : α} (h : Q a b ⊆ Γ) : C.Parallel false Γ (pure a) (pure b) Q :=
  fun w s s' hs hΓ => .inl ⟨a, b, s, s', rfl, rfl,
    step_still ⟨w, hC.refl w, hs, fun c hc => hΓ c (h hc)⟩ rfl rfl rfl⟩

/-- Values that are related are yielded. -/
theorem parallel_yield {R : α → α → Prop} {a b : α} (h : R a b) :
    C.Parallel false Γ (pure a) (pure b) (fun a b => [.plain (R a b)]) := by
  intro w s s' hs _
  refine .inl ⟨a, b, s, s', rfl, rfl, step_still ⟨w, hC.refl w, hs, ?_⟩ rfl rfl rfl⟩
  intro c hc
  obtain rfl := List.mem_singleton.1 hc
  exact h

/-- A value that both runs have is yielded. -/
theorem parallel_same (a : α) : C.Parallel false Γ (pure a) (pure a) (fun a b => [.plain (a = b)]) :=
  parallel_yield rfl

/-! ## Failures -/

theorem significant?_eq (s : ParserState) : s.stream.significant? = s.significant.head? :=
  List.head?_filter.symm

theorem parallel_fail {fault : ParseFault} : C.Parallel moves Γ (fail fault) (fail fault) Q :=
  fun _ _ _ hs _ => .inr ⟨_, _, _, _, rfl, rfl, hC.fails_here hs (hC.fault_refl fault)⟩

/-- The texts that were found correspond. -/
theorem parallel_failFound {fault : Option String → ParseFault} : C.Parallel moves Γ (failFound fault) (failFound fault) Q := by
  intro w s s' hs _
  have hfound : C.Fault (fault (s.stream.significant?.map Token.text)) (fault (s'.stream.significant?.map Token.text)) := by
    rw [significant?_eq, significant?_eq]
    have hsign := hC.head_sign hs
    cases hnext : s.significant.head? with
    | none =>
      rw [hnext] at hsign
      rw [Option.map_eq_none_iff.1 hsign.symm]
      exact hC.fault_refl _
    | some t =>
      rw [hnext] at hsign
      obtain ⟨t', ht', hsame⟩ := Option.map_eq_some_iff.1 hsign.symm
      rw [ht']
      exact hC.fault_text hsame.symm (fun text => fault (some text))
  exact .inr ⟨_, _, _, _, rfl, rfl, hC.fails_here hs hfound⟩

theorem parallel_failAt {l l' : Location} (h : .place l l' ∈ Γ) {fault fault' : ParseFault} (hf : C.Fault fault fault') :
    C.Parallel moves Γ (failAt l fault) (failAt l' fault') Q :=
  fun w _ _ hs hΓ => .inr ⟨_, _, _, _, rfl, rfl, w, hC.refl w, hC.failed_at hs (hΓ _ h) hf⟩

end

end

/-! ## Looks -/

section

variable {α : Type} [hC : C.Reads]

/-- A look that goes by what the grammar sees of the next token sees the same in both runs. -/
theorem parallel_looks {m : Parser α} {p : Option Token → α} (hm : Looks m p)
    (hp : ∀ o o' : Option Token, o.map Token.folded = o'.map Token.folded → p o = p o') :
    C.Parallel false Γ m m (fun a b => [.plain (a = b)]) := by
  intro w s s' hs _
  obtain ⟨w', hlater, hstate, -⟩ := hC.settle hs
  refine .inl ⟨_, _, _, _, hm s, hm s', step_still ⟨w', hlater, hstate, ?_⟩ (constructs_settle s) (constructs_settle s')
    (significant_settle s)⟩
  intro c hc
  obtain rfl := List.mem_singleton.1 hc
  exact hp _ _ (hC.map_folded (hC.head_sign hs))

theorem map_kind_eq {o o' : Option Token} (h : o.map Token.folded = o'.map Token.folded) : o.map Token.kind = o'.map Token.kind := by
  have hfst := congrArg (Option.map Prod.fst) h
  rwa [Option.map_map, Option.map_map] at hfst

/-- A keyword is looked up by its lower case. -/
theorem keyword?_eq {t t' : Token} (h : t.folded = t'.folded) : t.keyword? = t'.keyword? := by
  obtain ⟨hkind, htext⟩ := Prod.mk.inj h
  rw [Token.keyword?, Token.keyword?, ← hkind]
  split
  · rename_i hword
    rw [← hkind, hword] at htext
    have hlower : t.text.toList.map Char.toLower = t'.text.toList.map Char.toLower := htext
    rw [Keyword.ofWord?, Keyword.ofWord?, hlower]
  · rfl

theorem bind_keyword?_eq {o o' : Option Token} (h : o.map Token.folded = o'.map Token.folded) :
    o.bind Token.keyword? = o'.bind Token.keyword? := by
  cases o with
  | none =>
    cases o' with
    | none => rfl
    | some t' => nomatch h
  | some t =>
    cases o' with
    | none => nomatch h
    | some t' => exact keyword?_eq (Option.some.inj h)

theorem isSome_eq {o o' : Option Token} (h : o.map Token.folded = o'.map Token.folded) : o.isSome = o'.isSome := by
  have hsome := congrArg Option.isSome h
  rwa [Option.isSome_map, Option.isSome_map] at hsome

theorem parallel_look : C.Parallel false Γ look look (fun a b => [.plain (a = b)]) :=
  parallel_looks looks_look (fun _ _ h => by rw [map_kind_eq h, bind_keyword?_eq h])

theorem parallel_atKind (k : TokenKind) : C.Parallel false Γ (atKind k) (atKind k) (fun a b => [.plain (a = b)]) :=
  parallel_looks (looks_atKind k) (fun _ _ h => by rw [map_kind_eq h])

theorem parallel_atKeyword (k : Keyword) : C.Parallel false Γ (atKeyword k) (atKeyword k) (fun a b => [.plain (a = b)]) :=
  parallel_looks (looks_atKeyword k) (fun _ _ h => by rw [bind_keyword?_eq h])

/-- Whether a token is next is the same in both runs. -/
theorem parallel_current? : C.Parallel false Γ (Option.isSome <$> current?) (Option.isSome <$> current?)
    (fun a b => [.plain (a = b)]) :=
  parallel_looks (looks_current?.map Option.isSome) (fun _ _ h => isSome_eq h)

theorem inBlock_eq {o o' : Option Token} (h : o.map Token.folded = o'.map Token.folded) :
    (o.map Token.kind != some .rightBrace && o.isSome) = (o'.map Token.kind != some .rightBrace && o'.isSome) := by
  rw [map_kind_eq h, isSome_eq h]

theorem parallel_inBlock : C.Parallel false Γ inBlock inBlock (fun a b => [.plain (a = b)]) :=
  parallel_looks looks_inBlock (fun _ _ h => inBlock_eq h)

theorem parallel_startsMessage : C.Parallel false Γ Grammar.startsMessage Grammar.startsMessage (fun a b => [.plain (a = b)]) := by
  refine parallel_looks looks_startsMessage (fun o o' h => ?_)
  have hany : ∀ o : Option Token, o.any (fun t => t.kind == .identifier || t.kind.isMessageOperator) =
      (o.map Token.kind).any (fun k => k == .identifier || k.isMessageOperator) := by
    intro o
    cases o <;> rfl
  rw [hany, hany, map_kind_eq h]

theorem parallel_location : C.Parallel false Γ location location (fun l l' => [.place l l']) :=
  fun _ s s' hs _ => .inl ⟨_, _, _, _, location_eq_here s, location_eq_here s',
    step_still (hC.settle hs) (constructs_settle s) (constructs_settle s') (significant_settle s)⟩

/-- What follows may use that it is at the place. -/
theorem parallel_location_bind {β : Type} {f g : Location → Parser β} {R : β → β → List Bond}
    (hf : ∀ l l', C.ParallelFrom (fun s => s.here = l) moves (.place l l' :: Γ) (f l) (g l') R) :
    C.Parallel moves Γ (location >>= f) (location >>= g) R := by
  intro w s s' hs hΓ
  obtain ⟨w', hlater, hstate, hplace⟩ := hC.settle hs
  have hstep : C.Step w false s s' s.settle s'.settle [.place s.here s'.here] :=
    step_still ⟨w', hlater, hstate, hplace⟩ (constructs_settle s) (constructs_settle s') (significant_settle s)
  have hhere : s.settle.here = s.here := by rw [here_eq, here_eq, significant_settle, source_settle]
  have hrest := hf s.here s'.here w' s.settle s'.settle hstate hhere (hC.holds_append hlater hplace hΓ)
  rw [bind_eq_of_ok (location_eq_here s), bind_eq_of_ok (location_eq_here s')]
  have hends := hrest.behind hlater hstep
  rwa [Bool.false_or] at hends

/-- What follows a look may use what was seen. -/
theorem parallel_looks_bind {β : Type} {m : Parser α} {p : Option Token → α} (hm : Looks m p)
    (hp : ∀ o o' : Option Token, o.map Token.folded = o'.map Token.folded → p o = p o') {f g : α → Parser β}
    {R : β → β → List Bond} (hf : ∀ a, C.ParallelFrom (fun s => p s.significant.head? = a) moves Γ (f a) (g a) R) :
    C.Parallel moves Γ (m >>= f) (m >>= g) R := by
  intro w s s' hs hΓ
  obtain ⟨w', hlater, hstate, -⟩ := hC.settle hs
  have hsame : m s' = .ok (p s.significant.head?) s'.settle := by
    rw [hm s', hp _ _ (hC.map_folded (hC.head_sign hs))]
  have hstep : C.Step w false s s' s.settle s'.settle [] :=
    step_still ⟨w', hlater, hstate, fun _ hb => nomatch hb⟩ (constructs_settle s) (constructs_settle s') (significant_settle s)
  have hnext : p s.settle.significant.head? = p s.significant.head? := by rw [significant_settle]
  have hrest := hf _ w' s.settle s'.settle hstate hnext (fun b hb => hC.holds_later hlater (hΓ b hb))
  rw [bind_eq_of_ok (hm s), bind_eq_of_ok hsame]
  have hends := hrest.behind hlater hstep
  rwa [Bool.false_or] at hends

theorem parallel_look_bind {β : Type} {f g : Option TokenKind × Option Keyword → Parser β} {R : β → β → List Bond}
    (hf : ∀ next, C.ParallelFrom (fun s => s.significant.head?.map Token.kind = next.1) moves Γ (f next) (g next) R) :
    C.Parallel moves Γ (look >>= f) (look >>= g) R :=
  parallel_looks_bind looks_look (fun _ _ h => by rw [map_kind_eq h, bind_keyword?_eq h])
    (fun next => (hf next).weaken (fun _ hs => congrArg Prod.fst hs))

/-! ## Tokens -/

/-- The tokens that two runs take look alike, and their places correspond. -/
theorem parallel_take :
    C.Parallel moves Γ take take (fun t t' => [.plain (C.sign t = C.sign t'), .place t.location t'.location]) := by
  intro w s s' hs _
  cases hv : s.significant with
  | nil =>
    have hv' := hC.eq_nil hs hv
    have herror : ∀ u : ParserState, u.significant = [] → take u = .error (u.settle.errorAt u.settle.here .endOfInput) u.settle := by
      intro u hu
      unfold take
      simp only [Bind.bind, EStateM.bind, looks_current? u, hu, List.head?_nil, id]
      rfl
    obtain ⟨w', hlater, hstate, -⟩ := hC.settle hs
    exact .inr ⟨_, _, _, _, herror s hv, herror s' hv', hC.fails_later hlater (hC.fails_here hstate (hC.fault_refl _))⟩
  | cons t v =>
    obtain ⟨t', v', hv', hsign⟩ := hC.exists_cons hs hv
    obtain ⟨w', hlater, hstate, hplace⟩ := hC.taken hs hv hv'
    have hless : s.taken.significant.length < s.significant.length := by
      rw [significant_taken hv, hv]
      exact Nat.lt_succ_self _
    refine .inl ⟨t, t', _, _, take_eq hv, take_eq hv', ⟨w', hlater, hstate, ?_⟩, constructs_taken s, constructs_taken s',
      Nat.le_of_lt hless, fun _ => hless⟩
    intro c hc
    rcases List.mem_cons.1 hc with rfl | hc
    · exact hsign
    · exact hplace c hc

/-- A token that is taken where a kind was seen is of that kind. -/
theorem parallelFrom_take {k : TokenKind} : C.ParallelFrom (fun s => s.significant.head?.map Token.kind = some k) moves Γ take take
    (fun t t' => [.plain (t.kind = k ∧ C.sign t = C.sign t'), .place t.location t'.location]) := by
  intro w s s' hs hk hΓ
  rcases parallel_take w s s' hs hΓ with ⟨t, t', u, u', ht, ht', hstep⟩ | ⟨e, e', u, u', he, he', hfail⟩
  · obtain ⟨w', hlater, hstate, hbonds⟩ := hstep.onward
    refine .inl ⟨t, t', u, u', ht, ht', { hstep with onward := ⟨w', hlater, hstate, fun b hb => ?_⟩ }⟩
    rcases List.mem_cons.1 hb with rfl | hb
    · refine ⟨?_, hbonds (.plain (C.sign t = C.sign t')) List.mem_cons_self⟩
      cases hv : s.significant with
      | nil =>
        rw [hv] at hk
        nomatch hk
      | cons next v =>
        obtain ⟨rfl, -⟩ := EStateM.Result.ok.inj ((take_eq hv).symm.trans ht)
        rw [hv] at hk
        exact Option.some.inj hk
    · exact hbonds b (List.mem_cons_of_mem _ hb)
  · exact .inr ⟨e, e', u, u', he, he', hfail⟩

theorem parallel_expect {k : TokenKind} {what : String} : C.Parallel moves Γ (expect k what) (expect k what)
    (fun t t' => [.plain (t.kind = k ∧ C.sign t = C.sign t'), .place t.location t'.location]) := by
  unfold expect
  refine parallel_looks_bind (looks_atKind k) (fun _ _ h => by rw [map_kind_eq h]) (fun found => ?_)
  split
  · rename_i hfound
    exact parallelFrom_take.weaken (fun s hs => eq_of_beq (hs.trans hfound))
  · exact parallel_failFound.from

theorem parallel_expectKeyword {k : Keyword} : C.Parallel moves Γ (expectKeyword k) (expectKeyword k)
    (fun t t' => [.plain (C.sign t = C.sign t'), .place t.location t'.location]) := by
  unfold expectKeyword
  refine (parallel_atKeyword k).after_eq (fun found => ?_)
  split
  · exact parallel_take
  · exact parallel_failFound

/-- Tokens of a kind that is no reserved word's have the same text in both runs. -/
theorem text_eq {k : TokenKind} {t t' : Token} (h : t.kind = k ∧ C.sign t = C.sign t') (hk : k.isReserved = false) :
    t.text = t'.text :=
  Token.text_of_folded (hC.folded h.2) (h.1 ▸ hk)

theorem parallel_identifier {what : String} :
    C.Parallel moves Γ (identifier what) (identifier what) (fun a b => [.plain (a = b)]) := by
  unfold identifier
  refine parallel_expect.bind (fun t t' => parallel_plain (fun hsame => ?_))
  rw [text_eq hsame rfl]
  exact parallel_same _

omit hC in
/-- In an exact coupling, the text of a token that was taken is the same in both runs. -/
theorem parallel_takeText [hE : C.Exact] :
    C.Parallel moves Γ (do return (← take).text) (do return (← take).text) (fun a b => [.plain (a = b)]) := by
  refine parallel_take.bind (fun t t' => parallel_plain (fun hsign => ?_))
  rw [hE.text hsign]
  exact parallel_same _

theorem parallel_keepFlags (flags : List String) : C.Parallel false Γ (keepFlags flags) (keepFlags flags) (fun _ _ => []) :=
  fun _ _ _ hs _ => .inl ⟨(), (), _, _, rfl, rfl, step_still (hC.keepFlags hs flags) rfl rfl rfl⟩

/-! ## Lookahead -/

/-- A probe that goes by the kinds of the tokens ahead sees the same in both runs. -/
theorem parallel_probe {m : Parser α} {p : List Token → α} (hm : Probes m p)
    (hp : ∀ v v' : List Token, v.map Token.kind = v'.map Token.kind → p v = p v') :
    C.Parallel false Γ m m (fun a b => [.plain (a = b)]) := by
  intro w s s' hs _
  obtain ⟨hsaved, hsaved'⟩ := hC.unmarked hs
  refine .inl ⟨_, _, _, _, hm s hsaved, hm s' hsaved', step_still ⟨w, hC.refl w, hs, ?_⟩ rfl rfl rfl⟩
  intro c hc
  obtain rfl := List.mem_singleton.1 hc
  exact hp _ _ (hC.map_kind hs)

/-- The test goes by the kinds of tokens. -/
def Blind (f : List Token → Option (List Token)) : Prop :=
  ∀ v v' : List Token, v.map Token.kind = v'.map Token.kind → (f v).map (List.map Token.kind) = (f v').map (List.map Token.kind)

theorem Blind.isSome_eq {f : List Token → Option (List Token)} (h : Blind f) {v v' : List Token}
    (hv : v.map Token.kind = v'.map Token.kind) : (f v).isSome = (f v').isSome := by
  have hsome := congrArg Option.isSome (h v v' hv)
  rwa [Option.isSome_map, Option.isSome_map] at hsome

theorem Blind.bind {f g : List Token → Option (List Token)} (hf : Blind f) (hg : Blind g) : Blind (fun v => (f v).bind g) := by
  intro v v' hv
  have hmap := hf v v' hv
  dsimp only
  cases hfv : f v with
  | none =>
    rw [hfv] at hmap
    rw [Option.map_eq_none_iff.1 hmap.symm]
  | some y =>
    rw [hfv] at hmap
    obtain ⟨y', hy', heq⟩ := Option.map_eq_some_iff.1 hmap.symm
    rw [hy', Option.bind_some, Option.bind_some]
    exact hg y y' heq.symm

theorem blind_behindKinds (ks : List TokenKind) : Blind (Scan.behindKinds ks) := by
  induction ks with
  | nil => exact fun v v' hv => congrArg some hv
  | cons k ks ih =>
    intro v v' hv
    cases v with
    | nil =>
      rw [List.map_eq_nil_iff.1 hv.symm]
    | cons t v =>
      cases v' with
      | nil => nomatch hv
      | cons t' v' =>
        obtain ⟨hkind, hrest⟩ := List.cons.inj hv
        rw [Scan.behindKinds, Scan.behindKinds, hkind]
        split
        · exact ih v v' hrest
        · rfl

theorem blind_behindDots : Blind Scan.behindDots := by
  intro v
  induction hlen : v.length using Nat.strongRecOn generalizing v with
  | _ len ih =>
    subst hlen
    intro v' hv
    have hhead : v.head?.map Token.kind = v'.head?.map Token.kind := by
      rw [← List.head?_map, hv, List.head?_map]
    have hkinds := blind_behindKinds [.dot, .identifier] v v' hv
    rw [Scan.behindDots_eq v, Scan.behindDots_eq v', hhead]
    split
    · cases hfv : Scan.behindKinds [.dot, .identifier] v with
      | none =>
        rw [hfv] at hkinds
        rw [Option.map_eq_none_iff.1 hkinds.symm]
      | some y =>
        rw [hfv] at hkinds
        obtain ⟨y', hy', heq⟩ := Option.map_eq_some_iff.1 hkinds.symm
        have hless := Scan.length_behindKinds hfv
        rw [hy', Option.bind_some, Option.bind_some]
        exact ih y.length (by simp only [List.length_cons] at hless; omega) y rfl y' heq.symm
    · exact congrArg some hv

theorem blind_behindName : Blind Scan.behindName :=
  (blind_behindKinds _).bind blind_behindDots

theorem blind_behindDefinition : Blind Scan.behindDefinition :=
  (blind_behindKinds _).bind (blind_behindName.bind (blind_behindKinds _))

theorem blind_behindTarget : Blind Scan.behindTarget :=
  blind_behindName.bind (blind_behindKinds _)

theorem parallel_lookAhead (ks : List TokenKind) :
    C.Parallel false Γ (lookAhead ks) (lookAhead ks) (fun a b => [.plain (a = b)]) :=
  parallel_probe (probes_lookAhead ks) (fun _ _ h => (blind_behindKinds ks).isSome_eq h)

theorem parallel_looksLikeVariableDefinition :
    C.Parallel false Γ looksLikeVariableDefinition looksLikeVariableDefinition (fun a b => [.plain (a = b)]) :=
  parallel_probe probes_looksLikeVariableDefinition (fun _ _ h => blind_behindDefinition.isSome_eq h)

theorem parallel_looksLikePlainAssignment :
    C.Parallel false Γ looksLikePlainAssignment looksLikePlainAssignment (fun a b => [.plain (a = b)]) :=
  parallel_probe probes_looksLikePlainAssignment (fun _ _ h => blind_behindTarget.isSome_eq h)

end

/-! ## Nodes -/

section

variable [hC : C.Builds]

theorem parallel_openShared {p : Payload} {l l' : Location} (h : .place l l' ∈ Γ) (hp : C.Shared p) (hkind : p.kind ≠ .comment)
    (hvalue : p.returnValue = none) : C.Parallel false Γ (openNode p l) (openNode p l') (fun i i' => [.node i i']) := by
  intro w s s' hs hΓ
  exact .inl ⟨_, _, _, _, rfl, rfl, step_still (hC.openNode hs (hΓ _ h) hp hkind hvalue) (constructs_openNode s p l)
    (constructs_openNode s' p l') (significant_openNode s p l)⟩

theorem parallel_openNode {p : Payload} {l l' : Location} (h : .place l l' ∈ Γ) (hkind : p.kind ≠ .comment ∧ p.kind ≠ .inst)
    (hvalue : p.returnValue = none) : C.Parallel false Γ (openNode p l) (openNode p l') (fun i i' => [.node i i']) :=
  parallel_openShared h (hC.shared hkind.2) hkind.1 hvalue

/-- A node that is no block of statements may get children. -/
theorem parallel_openOwner {p : Payload} {l l' : Location} (h : .place l l' ∈ Γ) (hkind : p.kind ≠ .comment ∧ p.kind ≠ .inst)
    (hblock : p.kind ≠ .statementsBlock) (hvalue : p.returnValue = none) :
    C.Parallel false Γ (openNode p l) (openNode p l') (fun i i' => [.owner i i', .node i i']) := by
  intro w s s' hs hΓ
  obtain ⟨w', hlater, hstate, hnode⟩ := hC.openNode hs (hΓ _ h) (hC.shared hkind.2) hkind.1 hvalue
  have hmade : C.Node w' (s.openNode p l).1 (s'.openNode p l').1 := hnode (.node _ _) List.mem_cons_self
  refine .inl ⟨(s.openNode p l).1, (s'.openNode p l').1, _, _, rfl, rfl, step_still ⟨w', hlater, hstate, fun b hb => ?_⟩
    (constructs_openNode s p l) (constructs_openNode s' p l') (significant_openNode s p l)⟩
  rcases List.mem_cons.1 hb with rfl | hb
  · refine hC.owner hstate hmade ?_
    rw [kind?_openNode]
    exact fun heq => hblock (Option.some.inj heq)
  · exact hnode b hb

omit hC in
/-- In a loose coupling, any node may. -/
theorem parallel_openAny [hL : C.Loose] {p : Payload} {l l' : Location} (h : .place l l' ∈ Γ) (hkind : p.kind ≠ .comment ∧ p.kind ≠ .inst)
    (hvalue : p.returnValue = none) :
    C.Parallel false Γ (openNode p l) (openNode p l') (fun i i' => [.owner i i', .node i i']) := by
  intro w s s' hs hΓ
  obtain ⟨w', hlater, hstate, hnode⟩ := hL.openNode hs (hΓ _ h) (hL.shared hkind.2) hkind.1 hvalue
  refine .inl ⟨(s.openNode p l).1, (s'.openNode p l').1, _, _, rfl, rfl, step_still ⟨w', hlater, hstate, fun b hb => ?_⟩
    (constructs_openNode s p l) (constructs_openNode s' p l') (significant_openNode s p l)⟩
  rcases List.mem_cons.1 hb with rfl | hb
  · exact hL.owner_of_node (hnode (.node _ _) List.mem_cons_self)
  · exact hnode b hb

theorem parallel_attach {i i' j j' : NodeId} (hi : .owner i i' ∈ Γ) (hj : .node j j' ∈ Γ) :
    C.Parallel false Γ (attach i j) (attach i' j') (fun _ _ => []) :=
  fun _ _ _ hs hΓ => .inl ⟨(), (), _, _, rfl, rfl,
    step_still (hC.attach hs (hΓ _ hi) (hΓ _ hj)) rfl rfl rfl⟩

/-- A node that a parser makes is linked below another at once. -/
theorem Coupling.Parallel.attach {m n : Parser NodeId} {i i' : NodeId} (hm : C.Parallel moves Γ m n (fun j j' => [.node j j']))
    (hi : .owner i i' ∈ Γ) :
    C.Parallel moves Γ (m >>= fun j => attach i j) (n >>= fun j' => attach i' j') (fun _ _ => []) :=
  hm.bind (fun j j' => parallel_attach (by simp [hi]) (by simp))

theorem parallel_nodeLocation {i i' : NodeId} (hi : .node i i' ∈ Γ) :
    C.Parallel false Γ (nodeLocation i) (nodeLocation i') (fun l l' => [.place l l']) := by
  intro w s s' hs hΓ
  obtain ⟨n, n', hn, hn', hplace⟩ := hC.nodeLocation hs (hΓ _ hi)
  refine .inl ⟨_, _, _, _, nodeLocation_eq hn, nodeLocation_eq hn',
    step_still ⟨w, hC.refl w, hs, ?_⟩ rfl rfl rfl⟩
  intro c hc
  obtain rfl := List.mem_singleton.1 hc
  exact hplace

end

/-! ## Loops and productions -/

section

variable {α : Type} {m n : Parser α} {Q : α → α → List Bond} [hC : C.Reads]

/-- A loop that is not gone round leaves what it carries. -/
theorem repeatFor_eq_of_not_more {more : Parser Bool} {t : ParserState} (hmore : more s = .ok false t) (step : α → Parser α)
    (rounds : List Token) (a : α) : repeatFor more step rounds a s = .ok a t := by
  cases rounds with
  | nil =>
    rw [repeatFor]
    simp only [Bind.bind, EStateM.bind, hmore, Bool.false_eq_true, if_false]
    rfl
  | cons r rest =>
    rw [repeatFor]
    simp only [Bind.bind, EStateM.bind, hmore, Bool.false_eq_true, if_false]
    rfl

/-- A loop fails where its condition or its first round does. -/
theorem repeatFor_eq_error {more : Parser Bool} {step : α → Parser α} {a : α} {e : ParseError} {u : ParserState}
    (h : more s = .error e u ∨ ∃ t, more s = .ok true t ∧ step a t = .error e u) (rounds : List Token) :
    repeatFor more step rounds a s = .error e u := by
  rcases h with hmore | ⟨t, hmore, hstep⟩
  · cases rounds <;> simp only [repeatFor, Bind.bind, EStateM.bind, hmore]
  · cases rounds <;> simp only [repeatFor, Bind.bind, EStateM.bind, hmore, hstep, if_true]

/-- A loop that is gone round goes on behind its first round. -/
theorem repeatFor_cons_eq {more : Parser Bool} {step : α → Parser α} {a c : α} {t u : ParserState} (hmore : more s = .ok true t)
    (hstep : step a t = .ok c u) (r : Token) (rest : List Token) :
    repeatFor more step (r :: rest) a s = repeatFor more step rest c u := by
  simp only [repeatFor, Bind.bind, EStateM.bind, hmore, hstep, if_true]

/-- Two loops go round together. Every round takes a token, so neither runs out of rounds, whatever their bounds are. -/
theorem parallel_repeatWhile {more : Parser Bool} {step step' : α → Parser α} {I : α → α → List Bond}
    (hmore : ∀ Γ, C.Parallel false Γ more more (fun a b => [.plain (a = b)]))
    (hstep : ∀ a b, C.Parallel true (I a b ++ Γ) (step a) (step' b) I) (a b : α) :
    C.Parallel false (I a b ++ Γ) (repeatWhile more step a) (repeatWhile more step' b) I := by
  have hfor : ∀ (k : Nat) (rounds rounds' : List Token) (a b : α) (w : C.World) (s s' : ParserState), s.significant.length = k →
      k ≤ rounds.length → k ≤ rounds'.length → C.State w s s' → (∀ c ∈ I a b ++ Γ, C.Holds w c) →
      C.Ends w false s s' I (repeatFor more step rounds a s) (repeatFor more step' rounds' b s') := by
    intro k
    induction k using Nat.strongRecOn with
    | _ k ih =>
    intro rounds rounds' a b w s s' hk hrounds hrounds' hs hΓ
    rcases hmore _ w s s' hs hΓ with ⟨x, y, t, t', hmt, hnt, hlook⟩ | ⟨e, e', t, t', hmt, hnt, hfail⟩
    · obtain ⟨w₁, hlater, hstate, hxy⟩ := hlook.onward
      obtain rfl : x = y := hxy (.plain (x = y)) List.mem_cons_self
      have hΓ₁ : ∀ c ∈ I a b ++ Γ, C.Holds w₁ c := fun c hc => hC.holds_later hlater (hΓ c hc)
      cases x with
      | false =>
        refine .inl ⟨a, b, t, t', repeatFor_eq_of_not_more hmt step rounds a, repeatFor_eq_of_not_more hnt step' rounds' b, ?_⟩
        exact ⟨⟨w₁, hlater, hstate, fun c hc => hΓ₁ c (List.mem_append_left _ hc)⟩, hlook.constructs, hlook.constructs',
          hlook.length_le, hlook.length_lt⟩
      | true =>
        rcases hstep a b w₁ t t' hstate hΓ₁ with ⟨c, d, u, u', hmu, hnu, hround⟩ | ⟨e, e', u, u', hmu, hnu, hfail⟩
        · -- The round took a token, so there are rounds left.
          have hless : u.significant.length < k := hk ▸ Nat.lt_of_lt_of_le (hround.length_lt rfl) hlook.length_le
          cases rounds with
          | nil => exact absurd hless (by rw [Nat.le_zero.1 hrounds]; exact Nat.not_lt_zero _)
          | cons r rest =>
          cases rounds' with
          | nil => exact absurd hless (by rw [Nat.le_zero.1 hrounds']; exact Nat.not_lt_zero _)
          | cons r' rest' =>
          rw [List.length_cons] at hrounds hrounds'
          rw [repeatFor_cons_eq hmt hmu, repeatFor_cons_eq hnt hnu]
          obtain ⟨w₂, hlater', hstate', hI⟩ := hround.onward
          have hΓ₂ : ∀ x ∈ I c d ++ Γ, C.Holds w₂ x :=
            hC.holds_append hlater' hI (fun x hx => hΓ₁ x (List.mem_append_right _ hx))
          have hrest := ih _ hless rest rest' c d w₂ u u' rfl (by omega) (by omega) hstate' hΓ₂
          exact (hrest.behind hlater' hround.loose).behind hlater hlook
        · exact .inr ⟨e, e', u, u', repeatFor_eq_error (.inr ⟨t, hmt, hmu⟩) rounds,
            repeatFor_eq_error (.inr ⟨t', hnt, hnu⟩) rounds', hC.fails_later hlater hfail⟩
    · exact .inr ⟨e, e', t, t', repeatFor_eq_error (.inl hmt) rounds, repeatFor_eq_error (.inl hnt) rounds', hfail⟩
  intro w s s' hs hΓ
  have hsame : s.significant.length = s'.significant.length := by
    have hlength := congrArg List.length (hC.signs hs)
    rwa [List.length_map, List.length_map] at hlength
  have hget : ∀ (f : α → Parser α) (c : α) (u : ParserState), repeatWhile more f c u = repeatFor more f u.stream.ahead c u :=
    fun _ _ _ => rfl
  rw [hget, hget]
  exact hfor _ _ _ a b w s s' rfl (length_significant_le _) (hsame ▸ length_significant_le _) hs hΓ

/-- Two loops that carry nothing go round together. -/
theorem parallel_loop {more : Parser Bool} {step step' : Unit → Parser Unit}
    (hmore : ∀ Γ, C.Parallel false Γ more more (fun a b => [.plain (a = b)]))
    (hstep : C.Parallel true Γ (step ()) (step' ()) (fun _ _ => [])) :
    C.Parallel false Γ (repeatWhile more step ()) (repeatWhile more step' ()) (fun _ _ => []) :=
  parallel_repeatWhile (I := fun _ _ => []) hmore (fun _ _ => hstep) () ()

/-- Two loops that carry what is related go round together. -/
theorem parallel_repeatWhile_from {more : Parser Bool} {step step' : α → Parser α} {R : α → α → Prop} {a b : α} (h : R a b)
    (hmore : ∀ Γ, C.Parallel false Γ more more (fun a b => [.plain (a = b)]))
    (hstep : ∀ a b, C.Parallel true ([.plain (R a b)] ++ Γ) (step a) (step' b) (fun a b => [.plain (R a b)])) :
    C.Parallel false Γ (repeatWhile more step a) (repeatWhile more step' b) (fun a b => [.plain (R a b)]) := by
  intro w s s' hs hΓ
  refine parallel_repeatWhile (I := fun a b => [.plain (R a b)]) hmore hstep a b w s s' hs (fun c hc => ?_)
  rcases List.mem_cons.1 hc with rfl | hc
  · exact h
  · exact hΓ c hc

/-- Two loops that carry the same go round together. -/
theorem parallel_loop_eq {more : Parser Bool} {step : α → Parser α}
    (hmore : ∀ Γ, C.Parallel false Γ more more (fun a b => [.plain (a = b)]))
    (hstep : ∀ a, C.Parallel true Γ (step a) (step a) (fun a b => [.plain (a = b)])) (a : α) :
    C.Parallel false Γ (repeatWhile more step a) (repeatWhile more step a) (fun a b => [.plain (a = b)]) :=
  parallel_repeatWhile_from rfl hmore (fun a _ => parallel_plain (fun hab => hab ▸ hstep a))

/-- Productions run in parallel if their bodies do. -/
theorem Coupling.Parallel.guarded {construct : Construct} (h : C.Parallel moves Γ m n Q) :
    C.Parallel moves Γ (guarded construct m) (guarded construct n) Q := by
  intro w s s' hs hΓ
  obtain ⟨w₁, hlater, hstate, -⟩ := hC.enter hs construct
  rcases h w₁ _ _ hstate (fun b hb => hC.holds_later hlater (hΓ b hb)) with
    ⟨a, b, t, t', hmt, hnt, hstep⟩ | ⟨e, e', t, t', hmt, hnt, hfail⟩
  · obtain ⟨w₂, hlater', hstate', hQ⟩ := hstep.onward
    obtain ⟨w₃, hlater₃, hstate₃, -⟩ := hC.leave hs (hC.trans hlater hlater') hstate'
    refine .inl ⟨a, b, _, _, guarded_eq_ok hmt hstep.constructs, guarded_eq_ok hnt hstep.constructs', ?_⟩
    exact ⟨⟨w₃, hC.trans hlater (hC.trans hlater' hlater₃), hstate₃, fun c hc => hC.holds_later hlater₃ (hQ c hc)⟩, rfl, rfl,
      hstep.length_le, hstep.length_lt⟩
  · obtain ⟨w₂, hlater', hfailed⟩ := hfail
    exact .inr ⟨_, _, _, _, guarded_eq_abandon hmt, guarded_eq_abandon hnt, hC.abandon hs (hC.trans hlater hlater') hfailed⟩

/-! ## Where runs land -/

variable {β : Type} {f g : α → Parser β} {P : ParserState → ParserState → Prop}

/-- Behind parsers that run in parallel, it is enough that the rests land. -/
theorem Coupling.Parallel.lands (hm : C.Parallel false Γ m n Q) (hf : ∀ a b, C.Lands (Q a b ++ Γ) (f a) (g b) P) :
    C.Lands Γ (m >>= f) (n >>= g) P := by
  intro w s s' hs hΓ a b t t' hmt hnt
  rcases hm w s s' hs hΓ with ⟨x, y, u, u', hmu, hnu, hstep⟩ | ⟨e, e', u, u', hmu, -, -⟩
  · obtain ⟨w', hlater, hstate, hQ⟩ := hstep.onward
    rw [bind_eq_of_ok hmu] at hmt
    rw [bind_eq_of_ok hnu] at hnt
    exact hf x y w' u u' hstate (hC.holds_append hlater hQ hΓ) a b t t' hmt hnt
  · rw [bind_eq_of_error hmu] at hmt
    nomatch hmt

theorem Coupling.Parallel.lands_eq (hm : C.Parallel false Γ m n (fun a b => [.plain (a = b)]))
    (hf : ∀ a, C.Lands Γ (f a) (g a) P) : C.Lands Γ (m >>= f) (n >>= g) P := by
  refine hm.lands (fun a b w s s' hs hΓ => ?_)
  obtain rfl : a = b := hΓ (.plain (a = b)) List.mem_cons_self
  exact hf a w s s' hs (fun c hc => hΓ c (List.mem_cons_of_mem _ hc))

omit hC in
/-- What follows keeps where the runs have landed. -/
theorem Coupling.Lands.bind {P' : ParserState → ParserState → Prop} (hm : C.Lands Γ m n P)
    (hf : ∀ a b t t' c d u u', P t t' → f a t = .ok c u → g b t' = .ok d u' → P' u u') : C.Lands Γ (m >>= f) (n >>= g) P' := by
  intro w s s' hs hΓ c d u u' hmu hnu
  cases hmt : m s with
  | error e t =>
    rw [bind_eq_of_error hmt] at hmu
    nomatch hmu
  | ok a t =>
    cases hnt : n s' with
    | error e t' =>
      rw [bind_eq_of_error hnt] at hnu
      nomatch hnu
    | ok b t' =>
      rw [bind_eq_of_ok hmt] at hmu
      rw [bind_eq_of_ok hnt] at hnu
      exact hf a b t t' c d u u' (hm w s s' hs hΓ a b t t' hmt hnt) hmu hnu

omit hC in
/-- A value that is yielded at the end changes no state. -/
theorem Coupling.Lands.result {b b' : α → β} (hm : C.Lands Γ m n P) :
    C.Lands Γ (m >>= fun a => pure (b a)) (n >>= fun a => pure (b' a)) P := by
  refine hm.bind (fun _ _ t t' _ _ u u' ht hu hu' => ?_)
  obtain ⟨-, rfl⟩ := EStateM.Result.ok.inj hu
  obtain ⟨-, rfl⟩ := EStateM.Result.ok.inj hu'
  exact ht

/-- A production lands where its body does, if leaving it keeps that. -/
theorem Coupling.Lands.guarded {construct : Construct} (h : C.Lands Γ m n P)
    (hleave : ∀ w s s' t t', C.State w s s' → P t t' → P (t.leave s.checkpoint) (t'.leave s'.checkpoint)) :
    C.Lands Γ (guarded construct m) (guarded construct n) P := by
  intro w s s' hs hΓ a b t t' hmt hnt
  obtain ⟨w', hlater, hstate, -⟩ := hC.enter hs construct
  obtain ⟨u, hu, rfl⟩ := exists_of_guarded hmt
  obtain ⟨u', hu', rfl⟩ := exists_of_guarded hnt
  exact hleave w s s' u u' hs (h w' _ _ hstate (fun c hc => hC.holds_later hlater (hΓ c hc)) a b u u' hu hu')

end

end Parser

end Courier
