import Courier.Proofs.Parser.Assembly
import Courier.Proofs.Tree.Extends

/-!
# What a parser makes of the tokens ahead

`Makes T v m Q` ties what a parser adds to a tree to the tokens that it reads: where the tree extends `T` and the tokens ahead that are no
comments are `v`, a parser that succeeds extends the tree, and its value, the tokens it leaves and its tree satisfy `Q`. What `Q` says of
the tree should be something that stays true of trees that extend it, such as what is seen of a node (`Tree.Bears`); then a parser in a
sequence may go on from the tree that the one before it left (`Makes.bind`). Every production extends the tree (`extending_parse`).
-/

namespace Courier.Parser

open ParserState

/-- Where the tree extends `T`, no mark is saved and the tokens ahead that are no comments are `v`, a parser that succeeds extends the
tree, and its value, the tokens it leaves and its tree satisfy `Q`. -/
def Makes {α : Type} (T : Tree) (v : List Token) (m : Parser α) (Q : α → List Token → Tree → Prop) : Prop :=
  ∀ s : ParserState, T.Extends s.tree → s.stream.saved = none → s.significant = v →
    Yields m s (fun a t => s.tree.Extends t.tree ∧ t.stream.saved = none ∧ Q a t.significant t.tree) (fun _ _ => True)

/-- A success extends the tree, whatever is ahead. -/
def Extending {α : Type} (m : Parser α) : Prop :=
  ∀ T v, Makes T v m (fun _ _ _ => True)

section

variable {α β : Type} {T : Tree} {v : List Token} {m : Parser α} {f : α → Parser β} {Q Q' : α → List Token → Tree → Prop}
  {R : β → List Token → Tree → Prop}

/-! ## Sequences -/

theorem Makes.mono (h : Makes T v m Q) (hQ : ∀ a v' T', T.Extends T' → Q a v' T' → Q' a v' T') : Makes T v m Q' := by
  intro s hT hsaved hs
  refine (h s hT hsaved hs).mono (fun a t ⟨htree, htsaved, ht⟩ => ?_) (fun _ _ _ => trivial)
  exact ⟨htree, htsaved, hQ a _ _ (hT.trans htree) ht⟩

/-- The second of two parsers goes on from the tokens and the tree that the first one leaves. -/
theorem Makes.bind (hm : Makes T v m Q) (hf : ∀ a v' T', T.Extends T' → Q a v' T' → Makes T' v' (f a) R) : Makes T v (m >>= f) R := by
  intro s hT hsaved hs
  rw [yields_bind]
  refine (hm s hT hsaved hs).mono (fun a t ⟨htree, htsaved, ht⟩ => ?_) (fun _ _ _ => trivial)
  refine (hf a _ _ (hT.trans htree) ht t (.refl _) htsaved rfl).mono (fun b u ⟨hutree, husaved, hu⟩ => ?_) (fun _ _ _ => trivial)
  exact ⟨htree.trans hutree, husaved, hu⟩

theorem Extending.bind (hm : Extending m) (hf : ∀ a v' T', T.Extends T' → Makes T' v' (f a) R) : Makes T v (m >>= f) R :=
  (hm T v).bind (fun a v' T' hT' _ => hf a v' T' hT')

theorem makes_pure {a : α} (h : ∀ T', T.Extends T' → Q a v T') : Makes T v (pure a) Q := by
  intro s hT hsaved hs
  subst hs
  exact yields_pure.2 ⟨.refl _, hsaved, h _ hT⟩

theorem makes_fail {fault : ParseFault} : Makes T v (fail fault : Parser α) Q :=
  fun _ _ _ _ => trivial

theorem makes_failFound {fault : Option String → ParseFault} : Makes T v (failFound fault : Parser α) Q :=
  fun _ _ _ _ => trivial

theorem makes_failAt {l : Location} {fault : ParseFault} : Makes T v (failAt l fault : Parser α) Q :=
  fun _ _ _ _ => trivial

/-! ## Tokens -/

theorem makes_look {p : Option Token → α} (hm : Looks m p) : Makes T v m (fun a v' _ => a = p v.head? ∧ v' = v) := by
  intro s hT hsaved hs
  rw [yields_of_eq_ok (hm s), hs]
  exact ⟨(keeps_settle s).extends, by simpa using hsaved, rfl, by simpa using hs⟩

/-- What follows a look is picked by what is next. -/
theorem makes_look_bind {p : Option Token → α} (hm : Looks m p) (hf : ∀ T', T.Extends T' → Makes T' v (f (p v.head?)) R) :
    Makes T v (m >>= f) R := by
  refine (makes_look hm).bind (fun a v' T' hT' hlook => ?_)
  obtain ⟨rfl, rfl⟩ := hlook
  exact hf T' hT'

/-- What follows a scan is picked by what is ahead. -/
theorem makes_probe_bind {p : List Token → α} (hm : Probes m p) (hf : Makes T v (f (p v)) R) : Makes T v (m >>= f) R := by
  intro s hT hsaved hs
  rw [yields_bind, yields_of_eq_ok (hm s hsaved), hs]
  exact hf s hT hsaved hs

/-- The place is that of the next token. -/
theorem makes_location : Makes T v location (fun l v' _ => (∀ t ∈ v.head?, l = t.location) ∧ v' = v) := by
  intro s hT hsaved hs
  rw [yields_of_eq_ok (location_eq_here s)]
  refine ⟨(keeps_settle s).extends, by simpa using hsaved, fun t ht => ?_, by simpa using hs⟩
  cases v with
  | nil => nomatch ht
  | cons u v =>
    obtain rfl : u = t := by simpa using ht
    rw [here_eq, hs]
    rfl

theorem makes_take : Makes T v take (fun t v' _ => v = t :: v') := by
  intro s hT hsaved hs
  cases v with
  | nil =>
    obtain ⟨e, he, -⟩ := take_eq_error hs
    exact (yields_of_eq_error he).2 trivial
  | cons t v =>
    rw [yields_of_eq_ok (take_eq hs)]
    exact ⟨(keeps_taken s).extends, by simpa using hsaved, by rw [significant_taken hs]⟩

theorem makes_expect {k : TokenKind} {what : String} : Makes T v (expect k what) (fun t v' _ => v = t :: v' ∧ t.kind = k) := by
  intro s hT hsaved hs
  by_cases h : ∃ t ∈ v.head?, t.kind = k
  · obtain ⟨t, ht, rfl⟩ := h
    cases v with
    | nil => nomatch ht
    | cons u v =>
      obtain rfl : u = t := by simpa using ht
      rw [yields_of_eq_ok (expect_eq hs what)]
      exact ⟨(keeps_taken s).extends, by simpa using hsaved, by rw [significant_taken hs], rfl⟩
  · obtain ⟨e, found, he, -⟩ := expect_eq_error (k := k) (s := s) (fun t ht hk => h ⟨t, hs ▸ ht, hk⟩) what
    exact (yields_of_eq_error he).2 trivial

/-- The text of a name is that of its token. -/
theorem makes_identifier {what : String} :
    Makes T v (identifier what) (fun name v' _ => ∃ t, v = t :: v' ∧ t.kind = .identifier ∧ name = t.text) := by
  unfold identifier
  exact makes_expect.bind (fun t v' T' hT' ht => makes_pure (fun _ _ => ⟨t, ht.1, ht.2, rfl⟩))

/-! ## Nodes -/

theorem makes_openNode {p : Payload} {l : Location} : Makes T v (openNode p l) (fun i v' T' => v' = v ∧ T'.Bears i p l []) := by
  intro s hT hsaved hs
  have hstream : (s.openNode p l).2.stream = s.stream := stream_openNode s p l
  have hok : openNode p l s = .ok (s.openNode p l).1 (s.openNode p l).2 := rfl
  rw [yields_of_eq_ok hok]
  refine ⟨(keeps_openNode s p l).extends, by rw [hstream]; exact hsaved, ?_, bears_openNode s p l⟩
  rw [significant_openNode]
  exact hs

theorem makes_nodeLocation {i : NodeId} {p : Payload} {l : Location} {below : List NodeId} (h : T.Bears i p l below) :
    Makes T v (nodeLocation i) (fun l' v' _ => l' = l ∧ v' = v) := by
  intro s hT hsaved hs
  obtain ⟨n, hn, -, hl, -⟩ := h.later hT
  exact (yields_of_eq_ok (nodeLocation_eq hn)).2 ⟨.refl _, hsaved, hl, hs⟩

theorem makes_attach {i j : NodeId} {p : Payload} {l : Location} {below : List NodeId} (h : T.Bears i p l below) :
    Makes T v (attach i j) (fun _ v' T' => v' = v ∧ T'.Bears i p l (below ++ [j])) := by
  intro s hT hsaved hs
  have hok : attach i j s = .ok () { s with tree := s.tree.attach i j, reattached := s.reattached || s.tree.hasParent j } := rfl
  rw [yields_of_eq_ok hok]
  exact ⟨Tree.extends_attach _ _ _, hsaved, hs, (h.later hT).attach j⟩

/-! ## Loops and productions -/

/-- A loop whose rounds each take a token keeps an invariant, and ends where its condition says no. -/
theorem makes_repeatWhile {more : Parser Bool} {p : Option Token → Bool} {step : α → Parser α} {I : α → List Token → Prop}
    (hm : Looks more p) (hstep : ∀ a v T, I a v → p v.head? = true → Makes T v (step a) (fun a' v' _ => I a' v' ∧ v'.length < v.length))
    {a : α} (h : I a v) : Makes T v (repeatWhile more step a) (fun a' v' _ => I a' v' ∧ p v'.head? = false) := by
  intro s hT hsaved hs
  refine yields_repeatWhile (I := fun a t => s.tree.Extends t.tree ∧ t.stream.saved = none ∧ I a t.significant)
    (fun t => t.significant.length) (fun t => length_significant_le _) (fun a t ⟨htree, htsaved, ht⟩ => ?_) a
    ⟨.refl _, hsaved, hs ▸ h⟩
  rw [yields_of_eq_ok (hm t)]
  refine ⟨by simp, ?_⟩
  have hsettle : s.tree.Extends t.settle.tree := htree.trans (keeps_settle t).extends
  split
  · rename_i hp
    have hround := hstep a _ t.settle.tree ht hp t.settle (.refl _) (by simpa using htsaved) (significant_settle t)
    refine hround.mono (fun a' u ⟨hutree, husaved, hu⟩ => ?_) (fun _ _ _ => trivial)
    exact ⟨⟨hsettle.trans hutree, husaved, hu.1⟩, by simpa using hu.2⟩
  · rename_i hp
    exact ⟨hsettle, by simpa using htsaved, by simpa using ht, by simpa using hp⟩

theorem Makes.guarded {c : Construct} (h : Makes T v m Q) : Makes T v (guarded c m) Q := by
  intro s hT hsaved hs
  cases hguarded : Parser.guarded c m s with
  | error e u => exact (yields_of_eq_error hguarded).2 trivial
  | ok a u =>
    obtain ⟨t, hmt, rfl⟩ := exists_of_guarded hguarded
    have hbody := (h (s.enter c) hT hsaved hs).ok hmt
    exact (yields_of_eq_ok hguarded).2 hbody

end

/-! ## Every production extends the tree -/

section

variable {α β : Type} {m n : Parser α} {f : α → Parser β} {moves moved : Bool} {I J : Inner} {c : Construct}

theorem Extending.then (hm : Extending m) (hf : ∀ a, Extending (f a)) : Extending (m >>= f) :=
  fun _ _ => hm.bind (fun a v' T' _ => hf a T' v')

theorem Looks.extending {p : Option Token → α} (hm : Looks m p) : Extending m :=
  fun _ _ => (makes_look hm).mono (fun _ _ _ _ _ => trivial)

theorem extending_location : Extending location :=
  fun _ _ => makes_location.mono (fun _ _ _ _ _ => trivial)

theorem extending_take : Extending take :=
  fun _ _ => makes_take.mono (fun _ _ _ _ _ => trivial)

theorem extending_expect {k : TokenKind} {what : String} : Extending (expect k what) :=
  fun _ _ => makes_expect.mono (fun _ _ _ _ _ => trivial)

theorem extending_expectKeyword {word : Keyword} : Extending (expectKeyword word) := by
  unfold expectKeyword
  refine (looks_atKeyword word).extending.then (fun found => ?_)
  split
  · exact extending_take
  · exact fun _ _ => makes_failFound

theorem extending_identifier {what : String} : Extending (identifier what) :=
  fun _ _ => makes_identifier.mono (fun _ _ _ _ _ => trivial)

theorem extending_openNode {p : Payload} {l : Location} : Extending (openNode p l) :=
  fun _ _ => makes_openNode.mono (fun _ _ _ _ _ => trivial)

theorem extending_attach (i j : NodeId) : Extending (attach i j) :=
  fun _ _ _ _ hsaved _ => ⟨Tree.extends_attach _ _ _, hsaved, trivial⟩

theorem extending_repeatWhile {more : Parser Bool} {step : α → Parser α} (hmore : Extending more) (hstep : ∀ a, Extending (step a))
    (a : α) : Extending (repeatWhile more step a) := by
  have hfor : ∀ (rounds : List Token) (a : α), Extending (repeatFor more step rounds a) := by
    intro rounds
    induction rounds with
    | nil =>
      refine fun a => hmore.then (fun goesOn => ?_)
      split
      · exact hstep a
      · exact fun _ _ => makes_pure (fun _ _ => trivial)
    | cons _ rest ih =>
      refine fun a => hmore.then (fun goesOn => ?_)
      split
      · exact (hstep a).then ih
      · exact fun _ _ => makes_pure (fun _ _ => trivial)
  exact fun T v s => hfor s.stream.ahead a T v s

theorem Elementary.extending (h : Elementary moves m) : Extending m := by
  intro T v
  cases h with
  | pure a => exact makes_pure (fun _ _ => trivial)
  | get => exact fun s hT hsaved hs => ⟨.refl _, hsaved, trivial⟩
  | look h => exact h.extending T v
  | take => exact extending_take T v
  | @speculate scan f hscan =>
    exact fun s hT hsaved hs => (yields_of_eq_ok (speculate_eq hscan hsaved)).2 ⟨.refl _, hsaved, trivial⟩
  | openNode p l => exact extending_openNode T v
  | attach parent child => exact extending_attach parent child T v
  | keepFlags flags => exact fun s hT hsaved hs => ⟨.refl _, hsaved, trivial⟩
  | fail => exact makes_fail
  | failFound => exact makes_failFound

/-- What is put together from productions that extend the tree extends it. -/
theorem Assembled.extending (h : Assembled I J c moved moves m n) (hI : ∀ {α : Type} (r : Rule α), Extending (I.parse r)) :
    Extending m := by
  induction h with
  | elementary h => exact h.extending
  | blame _ l fault => exact fun _ _ => makes_failAt
  | call r _ => exact hI r
  | seq _ _ ih ihf => exact fun _ _ => ih.bind (fun a v' T' _ => ihf a T' v')
  | after _ _ ih ihf => exact fun _ _ => ih.bind (fun a v' T' _ => ihf a T' v')
  | loose _ ih => exact ih

theorem extending_parse (room : Nat) : ∀ {α : Type} (r : Rule α), Extending (Rule.parse room r) := by
  induction room with
  | zero => exact fun r T v => makes_fail
  | succ room ih =>
    exact fun r T v => ((assembled_body (J := ⟨fun r => Rule.parse room r⟩) r).extending ih T v).guarded

/-- What the bodies of a rule make, whatever the room inside, its productions make. -/
theorem makes_rule {r : Rule α} {T : Tree} {v : List Token} {Q : α → List Token → Tree → Prop}
    (h : ∀ room, Makes T v (r.body ⟨fun r => Rule.parse room r⟩) Q) (room : Nat) : Makes T v (Rule.parse room r) Q := by
  cases room with
  | zero => exact makes_fail
  | succ room => exact (h room).guarded

end

end Courier.Parser
