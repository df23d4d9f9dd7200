import Courier.Proofs.Parser.Lookahead
import Courier.Proofs.Parser.Yields

/-!
# What a parser leaves

`Leaves E m v S` speaks of the tokens alone: where the tokens ahead that are no comments are `v`, the parser leaves tokens that satisfy
`S`, or it fails and blames some tokens, where the fault and the tokens satisfy `E`. Comments, nodes and open blocks are out of
sight, and the chain of constructs and the mark are as before. Both halves of the correctness of the grammar are proved with these
rules, and so is what is known of the place of a failure.
-/

namespace Courier

/-- The number of tokens that a rule takes at least. -/
def Rule.least {α : Type} : Rule α → Nat
  | statements => 0
  | _ => 1

namespace Parser

open ParserState

/-- What is granted to a failure: its fault, and the tokens from the blamed one on. -/
abbrev Blame : Type :=
  ParseFault → List Token → Prop

/-- No mark is saved, and the text is that of another state. -/
def Unmarked (s t : ParserState) : Prop :=
  t.stream.saved = none ∧ t.stream.source = s.stream.source

/-- Where no mark is saved and the tokens ahead that are no comments are `v`, the parser succeeds and leaves tokens that satisfy `S`,
with the chain of constructs as before and no mark saved, or it fails and blames some tokens as `E` grants. -/
def Leaves {α : Type} (E : Blame) (m : Parser α) (v : List Token) (S : List Token → Prop) : Prop :=
  ∀ s : ParserState, s.stream.saved = none → s.significant = v →
    Yields m s (fun _ t => Unmarked s t ∧ t.constructs = s.constructs ∧ S t.significant)
      (fun e _ => ∃ v', e.Blames s.stream.source v' ∧ E e.fault v')

/-- The parser succeeds everywhere and leaves the tokens, the chain and the mark as they are. -/
def Silent {α : Type} (m : Parser α) : Prop :=
  ∀ s : ParserState, ∃ a t, m s = .ok a t ∧ (t.stream.saved = s.stream.saved ∧ t.stream.source = s.stream.source) ∧
    t.constructs = s.constructs ∧ t.significant = s.significant

section

variable {α β : Type} {E : Blame} {m : Parser α} {f : α → Parser β} {v : List Token} {S : List Token → Prop}

/-! ## Sequences -/

theorem Unmarked.trans {s t u : ParserState} (h : Unmarked s t) (h' : Unmarked t u) : Unmarked s u :=
  ⟨h'.1, h'.2.trans h.2⟩

/-- A parser that goes on from another state of the same text may fail as it would from the first. -/
theorem Unmarked.yields {s t u : ParserState} (h : Unmarked s t) (hc : t.constructs = s.constructs)
    (hm : Yields m u (fun _ u' => Unmarked t u' ∧ u'.constructs = t.constructs ∧ S u'.significant)
      (fun e _ => ∃ v', e.Blames t.stream.source v' ∧ E e.fault v')) :
    Yields m u (fun _ u' => Unmarked s u' ∧ u'.constructs = s.constructs ∧ S u'.significant)
      (fun e _ => ∃ v', e.Blames s.stream.source v' ∧ E e.fault v') := by
  rw [h.2] at hm
  exact hm.mono (fun _ _ hu => ⟨h.trans hu.1, hu.2.1.trans hc, hu.2.2⟩) (fun _ _ he => he)

theorem leaves_pure {a : α} (h : S v) : Leaves E (pure a : Parser α) v S := by
  intro s hsaved hs
  subst hs
  exact yields_pure.2 ⟨⟨hsaved, rfl⟩, rfl, h⟩

theorem Leaves.mono {E' : Blame} {S' : List Token → Prop} (h : Leaves E m v S) (hE : ∀ e v', E e v' → E' e v')
    (hS : ∀ v', S v' → S' v') : Leaves E' m v S' := by
  intro s hsaved hs
  exact (h s hsaved hs).mono (fun a t ht => ⟨ht.1, ht.2.1, hS _ ht.2.2⟩) (fun e _ ⟨v', hplace, he⟩ => ⟨v', hplace, hE _ v' he⟩)

theorem Leaves.bind {S' : List Token → Prop} (hm : Leaves E m v S) (hf : ∀ a v', S v' → Leaves E (f a) v' S') :
    Leaves E (m >>= f) v S' := by
  intro s hsaved hs
  rw [yields_bind]
  refine (hm s hsaved hs).mono (fun a t ⟨htmark, htc, ht⟩ => ?_) (fun _ _ he => he)
  exact htmark.yields htc (hf a _ ht t htmark.1 rfl)

theorem Leaves.map {g : α → β} (hm : Leaves E m v S) : Leaves E (g <$> m) v S := by
  intro s hsaved hs
  rw [yields_map]
  exact hm s hsaved hs

/-- What is returned at the end is no token. -/
theorem Leaves.result {b : α → β} (hm : Leaves E m v S) : Leaves E (m >>= fun a => pure (b a)) v S :=
  hm.bind (fun _ _ h => leaves_pure h)

/-- A parser that leaves the tokens as they are may be followed by any other. -/
theorem Silent.leaves_bind (hm : Silent m) (hf : ∀ a, Leaves E (f a) v S) : Leaves E (m >>= f) v S := by
  intro s hsaved hs
  obtain ⟨a, t, hmt, ⟨htsaved, htsource⟩, htc, ht⟩ := hm s
  rw [yields_bind, yields_of_eq_ok hmt]
  have htmark : Unmarked s t := ⟨htsaved.trans hsaved, htsource⟩
  exact htmark.yields htc (hf a t htmark.1 (ht.trans hs))

/-- A look is followed by what its answer picks. -/
theorem Looks.leaves_bind {p : Option Token → α} (hm : Looks m p) (hf : Leaves E (f (p v.head?)) v S) :
    Leaves E (m >>= f) v S := by
  intro s hsaved hs
  rw [yields_bind, yields_of_eq_ok (hm s), hs]
  have hmark : Unmarked s s.settle := ⟨by simpa using hsaved, source_settle s⟩
  exact hmark.yields (constructs_settle s) (hf s.settle hmark.1 (by simpa using hs))

/-- The parser answers by the tokens ahead that are no comments and leaves its state as it is, if no mark is saved. -/
def Probes (m : Parser α) (p : List Token → α) : Prop :=
  ∀ s : ParserState, s.stream.saved = none → m s = .ok (p s.significant) s

theorem Probes.leaves_bind {p : List Token → α} (hm : Probes m p) (hf : Leaves E (f (p v)) v S) :
    Leaves E (m >>= f) v S := by
  intro s hsaved hs
  rw [yields_bind, yields_of_eq_ok (hm s hsaved), hs]
  exact hf s hsaved hs

theorem probes_lookAhead (ks : List TokenKind) : Probes (lookAhead ks) (fun v => (Scan.behindKinds ks v).isSome) :=
  fun _ h => lookAhead_eq ks h

theorem probes_looksLikeVariableDefinition :
    Probes looksLikeVariableDefinition (fun v => (Scan.behindDefinition v).isSome) :=
  fun _ h => looksLikeVariableDefinition_eq h

theorem probes_looksLikePlainAssignment : Probes looksLikePlainAssignment (fun v => (Scan.behindTarget v).isSome) :=
  fun _ h => looksLikePlainAssignment_eq h

/-! ## Silent operations -/

theorem silent_pure (a : α) : Silent (pure a : Parser α) :=
  fun s => ⟨a, s, rfl, ⟨rfl, rfl⟩, rfl, rfl⟩

theorem Silent.bind (hm : Silent m) (hf : ∀ a, Silent (f a)) : Silent (m >>= f) := by
  intro s
  obtain ⟨a, t, hmt, ⟨htsaved, htsource⟩, htc, ht⟩ := hm s
  obtain ⟨b, u, hfu, ⟨husaved, husource⟩, huc, hu⟩ := hf a t
  refine ⟨b, u, ?_, ⟨husaved.trans htsaved, husource.trans htsource⟩, huc.trans htc, hu.trans ht⟩
  simp only [Bind.bind, EStateM.bind, hmt, hfu]

theorem silent_location : Silent location := by
  intro s
  obtain ⟨l, hl⟩ := location_eq s
  exact ⟨l, s.settle, hl, ⟨saved_settle s, source_settle s⟩, constructs_settle s, significant_settle s⟩

theorem silent_openNode (payload : Payload) (l : Location) : Silent (openNode payload l) := by
  intro s
  have hstream : (s.openNode payload l).2.stream = s.stream := stream_openNode s payload l
  exact ⟨_, (s.openNode payload l).2, rfl, ⟨congrArg Stream.saved hstream, congrArg Stream.source hstream⟩,
    constructs_openNode s payload l, significant_openNode s payload l⟩

theorem silent_attach (parent child : NodeId) : Silent (attach parent child) :=
  fun _ => ⟨(), _, rfl, ⟨rfl, rfl⟩, rfl, rfl⟩

theorem silent_keepFlags (flags : List String) : Silent (keepFlags flags) :=
  fun _ => ⟨(), _, rfl, ⟨rfl, rfl⟩, rfl, rfl⟩

theorem silent_nodeLocation (id : NodeId) : Silent (nodeLocation id) := by
  intro s
  have hget : ∀ f : ParserState → Parser Location, (get >>= f) s = f s s := fun _ => rfl
  unfold nodeLocation
  rw [hget]
  cases s.tree.node? id with
  | some n => exact ⟨_, s, rfl, ⟨rfl, rfl⟩, rfl, rfl⟩
  | none => exact silent_location s

theorem leaves_silent (hm : Silent m) (h : S v) : Leaves E m v S := by
  have hend : Leaves E (m >>= pure) v S := hm.leaves_bind (fun _ => leaves_pure h)
  rwa [bind_pure] at hend

/-! ## Tokens that are there -/

/-- The state behind the next token is of the same text. -/
theorem unmarked_taken {s : ParserState} (h : s.stream.saved = none) : Unmarked s s.taken :=
  ⟨by simpa using h, source_taken s⟩

theorem leaves_take {t : Token} (h : S v) : Leaves E take (t :: v) S := by
  intro s hsaved hs
  rw [yields_of_eq_ok (take_eq hs), significant_taken hs]
  exact ⟨unmarked_taken hsaved, by simp, h⟩

theorem leaves_take_bind {f : Token → Parser β} {t : Token} (h : Leaves E (f t) v S) : Leaves E (take >>= f) (t :: v) S := by
  intro s hsaved hs
  rw [yields_bind, yields_of_eq_ok (take_eq hs)]
  have hmark := unmarked_taken hsaved
  exact hmark.yields (constructs_taken s) (h s.taken hmark.1 (significant_taken hs))

theorem leaves_expect {k : TokenKind} {what : String} {t : Token} (ht : t.kind = k) (h : S v) :
    Leaves E (expect k what) (t :: v) S := by
  intro s hsaved hs
  subst ht
  rw [yields_of_eq_ok (expect_eq hs what), significant_taken hs]
  exact ⟨unmarked_taken hsaved, by simp, h⟩

theorem leaves_expectKeyword {k : Keyword} {t : Token} (ht : t.keyword? = some k) (h : S v) :
    Leaves E (expectKeyword k) (t :: v) S := by
  intro s hsaved hs
  rw [yields_of_eq_ok (expectKeyword_eq hs ht), significant_taken hs]
  exact ⟨unmarked_taken hsaved, by simp, h⟩

theorem leaves_identifier {what : String} {t : Token} (ht : t.kind = .identifier) (h : S v) :
    Leaves E (identifier what) (t :: v) S :=
  (leaves_expect ht h).result

/-! ## Failures -/

/-- A failure at the next token blames the tokens ahead. -/
theorem blames_here {s : ParserState} (hs : s.significant = v) (fault : ParseFault) :
    (s.errorAt s.here fault).Blames s.stream.source v :=
  .inr (hs ▸ here_eq s)

theorem leaves_fail {fault : ParseFault} (h : E fault v) : Leaves E (fail fault : Parser α) v S :=
  fun _ _ hs => ⟨v, blames_here hs _, h⟩

theorem leaves_failFound {fault : Option String → ParseFault} (h : ∀ found, E (fault found) v) :
    Leaves E (failFound fault : Parser α) v S :=
  fun _ _ hs => ⟨v, blames_here hs _, h _⟩

/-- A failure at a token that was taken before blames the tokens from there on. -/
theorem leaves_failAt {t : Token} {v' : List Token} {fault : ParseFault} (h : E fault (t :: v')) :
    Leaves E (failAt t.location fault : Parser α) v S :=
  fun _ _ _ => ⟨t :: v', .inr rfl, h⟩

/-- An array that is not closed may be blamed on any place. -/
theorem leaves_unterminatedArray {l : Location} (h : E .unterminatedArray v) :
    Leaves E (failAt l .unterminatedArray : Parser α) v S :=
  fun _ _ _ => ⟨v, .inl rfl, h⟩

/-! ## Loops and productions -/

/-- A loop keeps what its rounds keep and ends where its condition says no. Every round takes a token. -/
theorem leaves_repeatWhile {more : Parser Bool} {p : Option Token → Bool} {step : α → Parser α} (I : List Token → Prop)
    (hm : Looks more p)
    (hstep : ∀ a v, I v → p v.head? = true → Leaves E (step a) v (fun v' => I v' ∧ v'.length < v.length))
    (a : α) (h : I v) : Leaves E (repeatWhile more step a) v (fun v' => I v' ∧ p v'.head? = false) := by
  intro s hsaved hs
  refine yields_repeatWhile (I := fun _ t => Unmarked s t ∧ t.constructs = s.constructs ∧ I t.significant)
    (fun t => t.significant.length) (fun t => length_significant_le _) (fun a t ⟨htmark, htc, ht⟩ => ?_) a
    ⟨⟨hsaved, rfl⟩, rfl, hs ▸ h⟩
  rw [yields_of_eq_ok (hm t)]
  refine ⟨by simp, ?_⟩
  have hsettle : Unmarked s t.settle := ⟨by simpa using htmark.1, (source_settle t).trans htmark.2⟩
  split
  · rename_i hp
    have hround := Unmarked.yields (S := fun v' => I v' ∧ v'.length < t.significant.length) hsettle
      ((constructs_settle t).trans htc) (hstep a _ ht hp t.settle hsettle.1 (significant_settle t))
    refine hround.mono (fun a' u hu => ?_) (fun _ _ he => he)
    simp only [significant_settle]
    exact ⟨⟨hu.1, hu.2.1, hu.2.2.1⟩, hu.2.2.2⟩
  · rename_i hp
    simp only [significant_settle, constructs_settle]
    exact ⟨hsettle, htc, ht, by simpa using hp⟩

/-- A production leaves what its body leaves. -/
theorem Leaves.guarded {c : Construct} (h : Leaves E m v S) : Leaves E (guarded c m) v S := by
  intro s hsaved hs
  refine yields_guarded ((h (s.enter c) hsaved hs).mono (fun a t ht => ?_) (fun e t he => he))
  exact ⟨ht.2.1, ht.1, rfl, ht.2.2⟩

end

end Parser

end Courier
