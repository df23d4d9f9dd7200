import Courier.Grammar.Parse

/-!
# What a parser yields

`Yields m s Q E` says how a parser ends that starts in the state `s`: it succeeds with a value and a state that satisfy `Q`, or
it fails with a failure and a state that satisfy `E`. There is one rule for each way parsers are put together; the rule for a
loop (`yields_repeatWhile`) carries an invariant and a number that every round lowers.
-/

namespace Courier.Parser

/-- From the state `s` the parser succeeds with a value and a state that satisfy `Q`, or fails with a failure and a state that
satisfy `E`. -/
def Yields {α : Type} (m : Parser α) (s : ParserState) (Q : α → ParserState → Prop) (E : ParseError → ParserState → Prop) :
    Prop :=
  match m s with
  | .ok a t => Q a t
  | .error e t => E e t

section

variable {α β : Type} {m : Parser α} {f : α → Parser β} {s : ParserState} {E E' : ParseError → ParserState → Prop}

theorem yields_of_eq_ok {Q : α → ParserState → Prop} {a : α} {t : ParserState} (h : m s = .ok a t) :
    Yields m s Q E ↔ Q a t := by
  unfold Yields
  rw [h]

theorem yields_of_eq_error {Q : α → ParserState → Prop} {e : ParseError} {t : ParserState} (h : m s = .error e t) :
    Yields m s Q E ↔ E e t := by
  unfold Yields
  rw [h]

theorem yields_pure {Q : α → ParserState → Prop} {a : α} : Yields (pure a) s Q E ↔ Q a s :=
  yields_of_eq_ok rfl

/-- Two parsers in sequence: the second goes on from where the first ends, and a failure of either is a failure. -/
theorem yields_bind {Q : β → ParserState → Prop} :
    Yields (m >>= f) s Q E ↔ Yields m s (fun a t => Yields (f a) t Q E) E := by
  unfold Yields
  simp only [bind, EStateM.bind]
  cases m s <;> rfl

theorem yields_map {g : α → β} {Q : β → ParserState → Prop} :
    Yields (g <$> m) s Q E ↔ Yields m s (fun a t => Q (g a) t) E := by
  unfold Yields
  simp only [Functor.map, EStateM.map]
  cases m s <;> rfl

theorem Yields.mono {Q Q' : α → ParserState → Prop} (h : Yields m s Q E) (hQ : ∀ a t, Q a t → Q' a t)
    (hE : ∀ e t, E e t → E' e t) : Yields m s Q' E' := by
  unfold Yields at h ⊢
  split
  · rename_i a t hm
    rw [hm] at h
    exact hQ a t h
  · rename_i e t hm
    rw [hm] at h
    exact hE e t h

/-- What two statements say of one run. -/
theorem Yields.both {Q Q' : α → ParserState → Prop} (h : Yields m s Q E) (h' : Yields m s Q' E') :
    Yields m s (fun a t => Q a t ∧ Q' a t) (fun e t => E e t ∧ E' e t) := by
  unfold Yields at h h' ⊢
  split
  · rename_i a t hm
    rw [hm] at h h'
    exact ⟨h, h'⟩
  · rename_i e t hm
    rw [hm] at h h'
    exact ⟨h, h'⟩

/-- A parser that succeeds satisfies its postcondition. -/
theorem Yields.ok {Q : α → ParserState → Prop} {a : α} {t : ParserState} (h : Yields m s Q E) (hm : m s = .ok a t) :
    Q a t :=
  (yields_of_eq_ok hm).1 h

theorem Yields.error {Q : α → ParserState → Prop} {e : ParseError} {t : ParserState} (h : Yields m s Q E)
    (hm : m s = .error e t) : E e t :=
  (yields_of_eq_error hm).1 h

/-- A guarded production runs its body one construct further in. What it leaves behind is restored on success and destroyed on
failure. -/
theorem yields_guarded {Q : α → ParserState → Prop} {c : Construct}
    (h : Yields m (s.enter c) (fun a t => t.constructs = c :: s.constructs ∧ Q a (t.leave s.checkpoint))
      (fun e t => E (e.discarding (t.abandon s.checkpoint).1) (t.abandon s.checkpoint).2)) :
    Yields (guarded c m) s Q E := by
  unfold guarded Yields
  unfold Yields at h
  split at h
  · rename_i a t hm
    simp only [hm, ParserState.checkpoint, h.1, if_true]
    exact h.2
  · rename_i e t hm
    simp only [hm]
    exact h

/-- A production that succeeds ends where its body does, with the chain and the open blocks of its beginning. -/
theorem guarded_eq_ok {construct : Construct} {a : α} {t : ParserState} (h : m (s.enter construct) = .ok a t)
    (ht : t.constructs = construct :: s.constructs) : guarded construct m s = .ok a (t.leave s.checkpoint) := by
  unfold guarded
  simp only [h, ParserState.checkpoint, ht, if_true]

/-- A production whose body fails destroys what was made since its beginning. -/
theorem guarded_eq_abandon {construct : Construct} {e : ParseError} {t : ParserState} (h : m (s.enter construct) = .error e t) :
    guarded construct m s = .error (e.discarding (t.abandon s.checkpoint).1) (t.abandon s.checkpoint).2 := by
  unfold guarded
  simp only [h]

/-- Where a production succeeds, its body does. -/
theorem exists_of_guarded {construct : Construct} {a : α} {u : ParserState} (h : guarded construct m s = .ok a u) :
    ∃ t, m (s.enter construct) = .ok a t ∧ u = t.leave s.checkpoint := by
  cases hm : m (s.enter construct) with
  | error e t =>
    rw [guarded_eq_abandon hm] at h
    nomatch h
  | ok b t =>
    unfold guarded at h
    simp only [hm] at h
    split at h
    · obtain ⟨rfl, rfl⟩ := EStateM.Result.ok.inj h
      exact ⟨t, rfl, rfl⟩
    · nomatch h

/-- Where a production fails, what was made since its beginning was destroyed behind its body. -/
theorem exists_of_guarded_error {construct : Construct} {e : ParseError} {u : ParserState}
    (h : guarded construct m s = .error e u) : ∃ t : ParserState, u = (t.abandon s.checkpoint).2 := by
  unfold guarded at h
  cases hm : m (s.enter construct) with
  | ok a t =>
    simp only [hm] at h
    split at h
    · nomatch h
    · exact ⟨t, (EStateM.Result.error.inj h).2.symm⟩
  | error e' t =>
    simp only [hm] at h
    exact ⟨t, (EStateM.Result.error.inj h).2.symm⟩

/-- A loop with an invariant `I` over what it carries, whose rounds each lower the number of tokens ahead that `size` counts. The
rounds are bounded by the tokens ahead at the beginning, which is never too few, so the loop ends where `more` says no. -/
theorem yields_repeatWhile {more : Parser Bool} {step : α → Parser α} {I Q : α → ParserState → Prop}
    (size : ParserState → Nat) (hsize : ∀ s, size s ≤ s.stream.ahead.length)
    (hround : ∀ a s, I a s → Yields more s
      (fun b t => size t ≤ size s ∧ if b then Yields (step a) t (fun a' t' => I a' t' ∧ size t' < size t) E else Q a t) E)
    (a : α) (h : I a s) : Yields (repeatWhile more step a) s Q E := by
  have hfor : ∀ (rounds : List Token) (a : α) (s : ParserState), I a s → size s ≤ rounds.length →
      Yields (repeatFor more step rounds a) s Q E := by
    intro rounds
    induction rounds with
    | nil =>
      intro a s h hs
      rw [repeatFor, yields_bind]
      refine (hround a s h).mono (fun b t hb => ?_) (fun _ _ he => he)
      cases b with
      | false => simpa [yields_pure] using hb.2
      | true =>
        -- A round would lower the size below zero, so it cannot succeed.
        refine Yields.mono (by simpa using hb.2) (fun a' t' ht => ?_) (fun _ _ he => he)
        simp only [List.length_nil] at hs
        omega
    | cons t rest ih =>
      intro a s h hs
      rw [repeatFor, yields_bind]
      refine (hround a s h).mono (fun b t hb => ?_) (fun _ _ he => he)
      cases b with
      | false => simpa [yields_pure] using hb.2
      | true =>
        simp only [if_true] at hb ⊢
        rw [yields_bind]
        refine hb.2.mono (fun a' t' ht => ih a' t' ht.1 ?_) (fun _ _ he => he)
        simp only [List.length_cons] at hs
        omega
  have hget : (repeatWhile more step a) s = repeatFor more step s.stream.ahead a s := rfl
  unfold Yields
  rw [hget]
  exact hfor _ a s h (hsize s)

/-! ## A whole parse -/

/-- The end of a run: a value or a failure, and a state. -/
abbrev Ending (α : Type) : Type :=
  EStateM.Result ParseError ParserState α

/-- The state in which a run ends. -/
def Ending.state : Ending α → ParserState
  | .ok _ t => t
  | .error _ t => t

/-- What a parse makes of the end of its run: the finished tree or the failure, and the stream as it was left. -/
def Ending.report : Ending NodeId → Except ParseError Tree × Stream
  | .ok root t => (.ok (t.finish root), t.stream)
  | .error e t => (.error e, t.stream)

theorem parse_eq_report (s : Stream) (trace : Bool) :
    s.parse trace = Ending.report (Rule.unit.parse maxNesting (.initial s trace)) := by
  unfold Stream.parse Stream.parseWithin Ending.report
  cases Rule.unit.parse maxNesting (.initial s trace) <;> rfl

/-- A parse within some room succeeds exactly where the production of units does, with the tree that the parser finished. -/
theorem parseWithin_eq_ok {room : Nat} {s : Stream} {trace : Bool} {tree : Tree} :
    (s.parseWithin room trace).1 = .ok tree ↔
      ∃ root t, Rule.unit.parse room (.initial s trace) = .ok root t ∧ tree = t.finish root := by
  unfold Stream.parseWithin
  constructor
  · intro h
    split at h
    · rename_i root t ht
      exact ⟨root, t, ht, (Except.ok.inj h).symm⟩
    · nomatch h
  · rintro ⟨root, t, ht, rfl⟩
    rw [ht]

theorem parse_eq_ok {s : Stream} {trace : Bool} {tree : Tree} :
    (s.parse trace).1 = .ok tree ↔
      ∃ root t, Rule.unit.parse maxNesting (.initial s trace) = .ok root t ∧ tree = t.finish root :=
  parseWithin_eq_ok

theorem parseWithin_eq_error {room : Nat} {s : Stream} {trace : Bool} {e : ParseError} :
    (s.parseWithin room trace).1 = .error e ↔ ∃ t, Rule.unit.parse room (.initial s trace) = .error e t := by
  unfold Stream.parseWithin
  constructor
  · intro h
    split at h
    · nomatch h
    · rename_i e' t ht
      obtain rfl := Except.error.inj h
      exact ⟨t, ht⟩
  · rintro ⟨t, ht⟩
    rw [ht]

theorem parse_eq_error {s : Stream} {trace : Bool} {e : ParseError} :
    (s.parse trace).1 = .error e ↔ ∃ t, Rule.unit.parse maxNesting (.initial s trace) = .error e t :=
  parseWithin_eq_error

/-- A text that computes to a tree is cut into a stream that parses. -/
theorem exists_parse (file text : String) (trace : Bool)
    (h : (Stream.tokenize file text).toOption.any (fun s => (s.parse trace).1.toOption.isSome) = true) :
    ∃ s tree, Stream.tokenize file text = .ok s ∧ (s.parse trace).1 = .ok tree := by
  cases hs : Stream.tokenize file text with
  | error e =>
    rw [hs] at h
    nomatch h
  | ok s =>
    rw [hs] at h
    have hparse : (s.parse trace).1.toOption.isSome = true := h
    cases htree : (s.parse trace).1 with
    | error e =>
      rw [htree] at hparse
      nomatch hparse
    | ok tree => exact ⟨s, tree, rfl, htree⟩

/-- A text that computes to what is read off its tree is cut into a stream that parses, to such a tree. -/
theorem exists_parse_eq {α : Type} (file text : String) (trace : Bool) (f : Tree → α) {a : α}
    (h : (Stream.tokenize file text).toOption.bind (fun s => (s.parse trace).1.toOption.map f) = some a) :
    ∃ s tree, Stream.tokenize file text = .ok s ∧ (s.parse trace).1 = .ok tree ∧ f tree = a := by
  obtain ⟨s, hs, htree⟩ := Option.bind_eq_some_iff.1 h
  obtain ⟨tree, htree, hf⟩ := Option.map_eq_some_iff.1 htree
  have hok : ∀ {ε β : Type} {r : Except ε β} {b : β}, r.toOption = some b → r = .ok b := by
    rintro ε β (e | b') b hb
    · nomatch hb
    · exact congrArg Except.ok (Option.some.inj hb)
  exact ⟨s, tree, hok hs, hok htree, hf⟩

/-- A text that computes to a failure is cut into a stream that fails so. -/
theorem exists_parse_error (file text : String) (trace : Bool) (p : ParseError → Bool)
    (h : (Stream.tokenize file text).toOption.any (fun s => match (s.parse trace).1 with
      | .ok _ => false
      | .error e => p e) = true) :
    ∃ s e, Stream.tokenize file text = .ok s ∧ (s.parse trace).1 = .error e ∧ p e = true := by
  cases hs : Stream.tokenize file text with
  | error e =>
    rw [hs] at h
    nomatch h
  | ok s =>
    rw [hs] at h
    cases hparse : (s.parse trace).1 with
    | ok tree => simp [Except.toOption, hparse] at h
    | error e => exact ⟨s, e, rfl, hparse, by simpa [Except.toOption, hparse] using h⟩

end

end Courier.Parser
