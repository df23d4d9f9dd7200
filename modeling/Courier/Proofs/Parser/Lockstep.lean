import Courier.Proofs.Parser.Leaves

/-!
# Parsers in lockstep

Two runs of a parser over tokens that begin alike do the same until one of them has passed the common tokens. `Lockstep k m n` says so
of the parsers `m` and `n`: where the tokens ahead are `c` with `x` behind for the one and `c` with `x'` behind for the other, the run
of `m` passes `c`, or fails beyond `c`, or the run of `n` goes with it: both succeed at the same place inside `c`, or both fail with
the same fault. The values the runs yield may differ: they name nodes, and no parser here looks into them. The number `k` is what a run
takes at least; the loops need it.
-/

namespace Courier.Parser

open ParserState

/-- Two states without a mark whose tokens ahead begin with `c`, and go on with `x` and with `x'`. -/
structure Forked (c x x' : List Token) (s s' : ParserState) : Prop where
  saved : s.stream.saved = none
  saved' : s'.stream.saved = none
  ahead : s.significant = c ++ x
  ahead' : s'.significant = c ++ x'

/-- No mark is saved, and the text and the chain of constructs are those of another state. -/
def Steady (s t : ParserState) : Prop :=
  Unmarked s t ∧ t.constructs = s.constructs

/-- The failure blames nothing that stands before `x`. A parse that is nested too deeply blames none of its tokens. -/
def Beyond (e : ParseError) (source : String) (x : List Token) : Prop :=
  e.fault = .nestedTooDeeply ∨ ∃ v, e.Blames source v ∧ v <:+ x

/-- The run takes at least `k` tokens and all that stands before `x`, or it fails beyond. -/
def Clears {α : Type} (k : Nat) (m : Parser α) (x : List Token) (s : ParserState) : Prop :=
  Yields m s (fun _ u => Steady s u ∧ u.significant.length + k ≤ s.significant.length ∧ u.significant <:+ x)
    (fun e _ => Beyond e s.stream.source x)

/-- The run of `m` clears `c`, or the run of `n` goes with it. -/
def LockstepAt {α : Type} (k : Nat) (m n : Parser α) (c x x' : List Token) (s s' : ParserState) : Prop :=
  Yields m s
    (fun _ u => Steady s u ∧ u.significant.length + k ≤ s.significant.length ∧
      (u.significant <:+ x ∨
        ∃ d b u', d ≠ [] ∧ n s' = .ok b u' ∧ Steady s' u' ∧ u.significant = d ++ x ∧ u'.significant = d ++ x'))
    (fun e _ => Beyond e s.stream.source x ∨ c ≠ [] ∧ ∃ e' u', n s' = .error e' u' ∧ e'.fault = e.fault)

/-- Wherever the tokens ahead fork, the run of `m` clears the common ones, or the run of `n` goes with it. -/
def Lockstep {α : Type} (k : Nat) (m n : Parser α) : Prop :=
  ∀ c x x' s s', Forked c x x' s s' → LockstepAt k m n c x x' s s'

/-- Behind runs from `s` and `s'` that took `k` tokens each, `f` and `g` keep pace. How much the other run took is known only where
tokens are common. -/
def Onward {α β : Type} (k l : Nat) (f g : α → Parser β) (c : List Token) (s s' : ParserState) : Prop :=
  ∀ a b d y y' u u', Forked d y y' u u' → u.significant.length + k ≤ s.significant.length →
    (d ≠ [] → c ≠ [] ∧ u'.significant.length + k ≤ s'.significant.length) → LockstepAt l (f a) (g b) d y y' u u'

section

variable {α β : Type} {k l : Nat} {m n : Parser α} {f g : α → Parser β} {c x x' : List Token} {s s' : ParserState}

/-! ## Sequences -/

theorem Steady.refl (h : s.stream.saved = none) : Steady s s :=
  ⟨⟨h, rfl⟩, rfl⟩

theorem Steady.trans {t u : ParserState} (h : Steady s t) (h' : Steady t u) : Steady s u :=
  ⟨h.1.trans h'.1, h'.2.trans h.2⟩

theorem steady_settle (h : s.stream.saved = none) : Steady s s.settle :=
  ⟨⟨by simpa using h, source_settle s⟩, constructs_settle s⟩

theorem steady_taken (h : s.stream.saved = none) : Steady s s.taken :=
  ⟨unmarked_taken h, constructs_taken s⟩

theorem Beyond.mono {e : ParseError} {source : String} {y : List Token} (h : Beyond e source y) (hy : y <:+ x) :
    Beyond e source x := by
  rcases h with h | ⟨v, hplace, hv⟩
  · exact .inl h
  · exact .inr ⟨v, hplace, hv.trans hy⟩

/-- A run that clears the common tokens needs no other to go with it. -/
theorem Clears.lockstepAt (h : Clears k m x s) : LockstepAt k m n c x x' s s' :=
  Yields.mono h (fun _ _ ⟨hsteady, hlength, hu⟩ => ⟨hsteady, hlength, .inl hu⟩) (fun _ _ he => .inl he)

/-- A run that takes so much takes less. -/
theorem LockstepAt.mono (h : LockstepAt k m n c x x' s s') (hl : l ≤ k) : LockstepAt l m n c x x' s s' :=
  Yields.mono h (fun _ _ ⟨hsteady, hlength, hu⟩ => ⟨hsteady, by omega, hu⟩) (fun _ _ he => he)

/-- Where no token is common, every token ahead is cleared. -/
theorem LockstepAt.clears (h : LockstepAt k m n [] x x' s s') (hs : s.significant = x) : Clears k m x s := by
  refine Yields.mono h (fun _ u ⟨hsteady, hlength, hu⟩ => ⟨hsteady, hlength, ?_⟩) (fun _ _ he => ?_)
  · rcases hu with hu | ⟨d, -, -, hd, -, -, hu, -⟩
    · exact hu
    · have hpos := List.length_pos_iff.2 hd
      rw [hu, hs, List.length_append] at hlength
      omega
  · exact he.resolve_right (fun hne => hne.1 rfl)

/-- Any run clears what is ahead of it. -/
theorem Lockstep.clears (h : Lockstep k m n) (hs : s.stream.saved = none) : Clears k m s.significant s :=
  (h [] s.significant s.significant s s ⟨hs, hs, rfl, rfl⟩).clears rfl

/-- A run goes on from where another ended that cleared the common tokens. -/
theorem Clears.bind (h : Clears k m x s) (hf : ∀ a, Lockstep l (f a) (g a)) : Clears (k + l) (m >>= f) x s := by
  unfold Clears
  rw [yields_bind]
  refine Yields.mono h (fun a u ⟨hsteady, hlength, hu⟩ => ?_) (fun _ _ he => he)
  refine Yields.mono ((hf a).clears hsteady.1.1) (fun b w ⟨hw, hwlength, hwu⟩ => ?_) (fun e _ he => ?_)
  · exact ⟨hsteady.trans hw, by omega, hwu.trans hu⟩
  · rw [hsteady.1.2] at he
    exact he.mono hu

theorem Clears.map {γ : Type} {f : α → γ} (h : Clears k m x s) : Clears k (f <$> m) x s := by
  unfold Clears
  rw [yields_map]
  exact h

/-- A state that a run leaves inside the common tokens has fewer of them ahead. -/
theorem Forked.length_le (h : Forked c x x' s s') {d : List Token} {u : ParserState} (hu : u.significant = d ++ x)
    (hlength : u.significant.length + k ≤ s.significant.length) : d.length + k ≤ c.length := by
  rw [hu, h.ahead, List.length_append, List.length_append] at hlength
  omega

/-- If tokens are still common behind a run, some were common before. -/
theorem Forked.ne_nil (h : Forked c x x' s s') {d : List Token} {u : ParserState} (hd : d ≠ []) (hu : u.significant = d ++ x)
    (hlength : u.significant.length + k ≤ s.significant.length) : c ≠ [] := by
  have hle := h.length_le hu hlength
  have hpos := List.length_pos_iff.2 hd
  exact List.length_pos_iff.1 (by omega)

/-- Two runs go on together from where they ended together. What follows may count on the tokens that were taken. -/
theorem LockstepAt.bind (hs : Forked c x x' s s') (hm : LockstepAt k m n c x x' s s') (hf : Onward k l f g c s s') :
    LockstepAt (k + l) (m >>= f) (n >>= g) c x x' s s' := by
  unfold LockstepAt
  rw [yields_bind]
  refine Yields.mono hm (fun a u ⟨hsteady, hlength, hu⟩ => ?_) (fun e _ he => ?_)
  · rcases hu with hu | ⟨d, b, u', hd, hn, hsteady', hu, hu'⟩
    · -- The common tokens are passed: from here on no other run has to go with this one.
      have hstep := hf a a [] u.significant u.significant u u ⟨hsteady.1.1, hsteady.1.1, rfl, rfl⟩ hlength (fun h => absurd rfl h)
      refine Yields.mono (hstep.clears rfl) (fun b w ⟨hw, hwlength, hwu⟩ => ?_) (fun e _ he => ?_)
      · exact ⟨hsteady.trans hw, by omega, .inl (hwu.trans hu)⟩
      · rw [hsteady.1.2] at he
        exact .inl (he.mono hu)
    · have hc : c ≠ [] := hs.ne_nil hd hu hlength
      have hlength' : u'.significant.length + k ≤ s'.significant.length := by
        have hdlength := hs.length_le hu hlength
        rw [hu', hs.ahead', List.length_append, List.length_append]
        omega
      refine Yields.mono (hf a b d x x' u u' ⟨hsteady.1.1, hsteady'.1.1, hu, hu'⟩ hlength (fun _ => ⟨hc, hlength'⟩))
        (fun a' w ⟨hw, hwlength, htogether⟩ => ⟨hsteady.trans hw, by omega, ?_⟩) (fun e w he => ?_)
      · refine htogether.imp_right (fun ⟨d', b', w', hd', hg, hw', hwd, hwd'⟩ => ?_)
        exact ⟨d', b', w', hd', by simp only [Bind.bind, EStateM.bind, hn, hg], hsteady'.trans hw', hwd, hwd'⟩
      · rw [hsteady.1.2] at he
        refine he.imp_right (fun ⟨_, e', w', hg, hfault⟩ => ⟨hc, e', w', ?_, hfault⟩)
        simp only [Bind.bind, EStateM.bind, hn, hg]
  · refine he.imp_right (fun ⟨hc, e', u', hn, hfault⟩ => ⟨hc, e', u', ?_, hfault⟩)
    simp only [Bind.bind, EStateM.bind, hn]

theorem Lockstep.bind_add (hm : Lockstep k m n) (hf : ∀ a b, Lockstep l (f a) (g b)) : Lockstep (k + l) (m >>= f) (n >>= g) :=
  fun c x x' s s' hs => (hm c x x' s s' hs).bind hs (fun a b d y y' u u' hu _ _ => hf a b d y y' u u' hu)

/-- In a sequence, what the first parser takes is enough. -/
theorem Lockstep.bind (hm : Lockstep k m n) (hf : ∀ a b, Lockstep 0 (f a) (g b)) : Lockstep k (m >>= f) (n >>= g) :=
  hm.bind_add hf

/-- In a sequence, what the second parser takes is enough. -/
theorem Lockstep.bind_right (hm : Lockstep 0 m n) (hf : ∀ a b, Lockstep l (f a) (g b)) : Lockstep l (m >>= f) (n >>= g) := by
  have h := hm.bind_add hf
  rwa [Nat.zero_add] at h

theorem lockstep_pure {a b : α} : Lockstep 0 (pure a : Parser α) (pure b) := by
  intro c x x' s s' hs
  refine yields_pure.2 ⟨Steady.refl hs.saved, Nat.le_refl _, ?_⟩
  by_cases hc : c = []
  · subst hc
    exact .inl (by rw [hs.ahead]; exact List.suffix_refl x)
  · exact .inr ⟨c, b, s', hc, rfl, Steady.refl hs.saved', hs.ahead, hs.ahead'⟩

/-- How much a run takes at least may be left open. -/
theorem Lockstep.loose (h : Lockstep k m n) : Lockstep 0 m n :=
  fun c x x' s s' hs => (h c x x' s s' hs).mono (Nat.zero_le k)

theorem Lockstep.map {γ : Type} {f g : α → γ} (hm : Lockstep k m n) : Lockstep k (f <$> m) (g <$> n) := by
  have h : Lockstep k (m >>= fun a => pure (f a)) (n >>= fun b => pure (g b)) := hm.bind (fun _ _ => lockstep_pure)
  rwa [bind_pure_comp, bind_pure_comp] at h

/-- Parsers that take nothing keep pace. -/
theorem lockstep_silent (hm : Silent m) (hn : Silent n) : Lockstep 0 m n := by
  intro c x x' s s' hs
  obtain ⟨a, t, hmt, ⟨hsaved, hsource⟩, hconstructs, ht⟩ := hm s
  obtain ⟨b, t', hnt, ⟨hsaved', hsource'⟩, hconstructs', ht'⟩ := hn s'
  refine (yields_of_eq_ok hmt).2 ⟨⟨⟨hsaved.trans hs.saved, hsource⟩, hconstructs⟩, by rw [ht]; exact Nat.le_refl _, ?_⟩
  by_cases hc : c = []
  · subst hc
    exact .inl (by rw [ht, hs.ahead]; exact List.suffix_refl x)
  · exact .inr ⟨c, b, t', hc, hnt, ⟨⟨hsaved'.trans hs.saved', hsource'⟩, hconstructs'⟩, ht.trans hs.ahead, ht'.trans hs.ahead'⟩

theorem lockstep_silent_bind (hm : Silent m) (hn : Silent n) (hf : ∀ a b, Lockstep k (f a) (g b)) :
    Lockstep k (m >>= f) (n >>= g) :=
  (lockstep_silent hm hn).bind_right hf

/-- Two ways on, one of them with a beginning that the other lacks. -/
theorem lockstep_opt {b : Bool} {m n : Parser Unit} {f g : Unit → Parser β} (hm : Lockstep 0 m n) (hf : Lockstep k (f ()) (g ())) :
    Lockstep k (if b = true then m >>= f else f ()) (if b = true then n >>= g else g ()) := by
  split
  · exact hm.bind_right (fun _ _ => hf)
  · exact hf

/-- Two ways to begin that go on alike. -/
theorem lockstep_ite {b : Bool} {m₁ m₂ n₁ n₂ : Parser α} (h₁ : Lockstep k m₁ n₁) (h₂ : Lockstep k m₂ n₂)
    (hf : ∀ a b, Lockstep 0 (f a) (g b)) :
    Lockstep k (if b = true then m₁ >>= f else m₂ >>= f) (if b = true then n₁ >>= g else n₂ >>= g) := by
  split
  · exact h₁.bind hf
  · exact h₂.bind hf

/-! ## Looks -/

theorem Forked.settle (h : Forked c x x' s s') : Forked c x x' s.settle s'.settle :=
  ⟨by simpa using h.saved, by simpa using h.saved', by simpa using h.ahead, by simpa using h.ahead'⟩

/-- The next token is common to both runs, if any is. -/
theorem Forked.head?_eq (h : Forked c x x' s s') (hc : c ≠ []) : s'.significant.head? = s.significant.head? := by
  obtain ⟨t, d, rfl⟩ := List.exists_cons_of_ne_nil hc
  rw [h.ahead, h.ahead', List.cons_append, List.cons_append, List.head?_cons, List.head?_cons]

/-- Where the runs see the same next token, they go on alike. -/
theorem LockstepAt.looks_bind {p : Option Token → α} (hm : Looks m p) (hs : Forked c x x' s s')
    (hf : ∀ o, LockstepAt k (f (p o)) (g (p o)) c x x' s.settle s'.settle) : LockstepAt k (m >>= f) (m >>= g) c x x' s s' := by
  have hsteady := steady_settle hs.saved
  unfold LockstepAt
  rw [yields_bind, yields_of_eq_ok (hm s)]
  refine Yields.mono (hf _) (fun a u ⟨hu, hlength, htogether⟩ => ⟨hsteady.trans hu, by simpa using hlength, ?_⟩) (fun e u he => ?_)
  · refine htogether.imp_right (fun ⟨d, b, u', hd, hg, hu', hud, hud'⟩ => ?_)
    refine ⟨d, b, u', hd, ?_, (steady_settle hs.saved').trans hu', hud, hud'⟩
    have hc : c ≠ [] := hs.settle.ne_nil hd hud hlength
    simp only [Bind.bind, EStateM.bind, hm s', hs.head?_eq hc, hg]
  · rw [source_settle] at he
    refine he.imp_right (fun ⟨hc, e', u', hg, hfault⟩ => ⟨hc, e', u', ?_, hfault⟩)
    simp only [Bind.bind, EStateM.bind, hm s', hs.head?_eq hc, hg]

theorem lockstep_look_bind {p : Option Token → α} (hm : Looks m p) (hf : ∀ o, Lockstep k (f (p o)) (g (p o))) :
    Lockstep k (m >>= f) (m >>= g) :=
  fun c x x' s s' hs => LockstepAt.looks_bind hm hs (fun o => hf o c x x' s.settle s'.settle hs.settle)

/-- Parsers that run as others do from these states keep pace as those do. -/
theorem LockstepAt.congr {m₁ n₁ : Parser α} (h : LockstepAt k m₁ n₁ c x x' s s') (hm : m s = m₁ s) (hn : n s' = n₁ s') :
    LockstepAt k m n c x x' s s' := by
  unfold LockstepAt Yields at h ⊢
  rwa [hm, hn]

theorem Clears.congr {m₁ : Parser α} (h : Clears k m₁ x s) (hm : m s = m₁ s) : Clears k m x s := by
  unfold Clears Yields at h ⊢
  rwa [hm]

/-- Two runs that choose how to go on by all the tokens ahead may choose differently. Then the run that is asked has to clear the
common tokens. -/
theorem LockstepAt.choice {ι : Type} {p : List Token → ι} {f g : ι → Parser α} (hs : Forked c x x' s s')
    (hm : ∀ s : ParserState, s.stream.saved = none → m s = f (p s.significant) s)
    (hn : ∀ s : ParserState, s.stream.saved = none → n s = g (p s.significant) s) (hf : ∀ v, Lockstep k (f (p v)) (g (p v)))
    (hne : c ≠ [] → p (c ++ x) ≠ p (c ++ x') → Clears k (f (p (c ++ x))) x s) : LockstepAt k m n c x x' s s' := by
  have hrun : m s = f (p (c ++ x)) s := by rw [hm s hs.saved, hs.ahead]
  have hrun' : n s' = g (p (c ++ x')) s' := by rw [hn s' hs.saved', hs.ahead']
  by_cases hc : c = []
  · subst hc
    exact (((hf x [] x x' s s' hs).clears hs.ahead).congr hrun).lockstepAt
  · by_cases hp : p (c ++ x) = p (c ++ x')
    · rw [← hp] at hrun'
      exact (hf _ c x x' s s' hs).congr hrun hrun'
    · exact ((hne hc hp).congr hrun).lockstepAt

/-- Two ways on, one of them chosen by a probe. -/
theorem LockstepAt.probe_if {q : Parser Bool} {p : List Token → Bool} {m₁ m₂ n₁ n₂ : Parser α} (hs : Forked c x x' s s')
    (hq : Probes q p) (h₁ : Lockstep k m₁ n₁) (h₂ : Lockstep k m₂ n₂)
    (hne : c ≠ [] → p (c ++ x) ≠ p (c ++ x') → Clears k m₁ x s ∧ Clears k m₂ x s) :
    LockstepAt k (q >>= fun b => if b = true then m₁ else m₂) (q >>= fun b => if b = true then n₁ else n₂) c x x' s s' := by
  refine LockstepAt.choice (p := p) (f := fun b => if b = true then m₁ else m₂) (g := fun b => if b = true then n₁ else n₂) hs
    (fun s hsaved => ?_) (fun s hsaved => ?_) (fun v => ?_) (fun hc hp => ?_)
  · simp only [Bind.bind, EStateM.bind, hq s hsaved]
  · simp only [Bind.bind, EStateM.bind, hq s hsaved]
  · split
    · exact h₁
    · exact h₂
  · split
    · exact (hne hc hp).1
    · exact (hne hc hp).2

/-- Two ways to begin that go on alike, one of them chosen by a probe. -/
theorem LockstepAt.probe_ite {q : Parser Bool} {p : List Token → Bool} {m₁ m₂ n₁ n₂ : Parser α} (hs : Forked c x x' s s')
    (hq : Probes q p) (h₁ : Lockstep k m₁ n₁) (h₂ : Lockstep k m₂ n₂) (hf : ∀ a b, Lockstep 0 (f a) (g b))
    (hne : c ≠ [] → p (c ++ x) ≠ p (c ++ x') → Clears k m₁ x s ∧ Clears k m₂ x s) :
    LockstepAt k (q >>= fun b => if b = true then m₁ >>= f else m₂ >>= f) (q >>= fun b => if b = true then n₁ >>= g else n₂ >>= g)
      c x x' s s' :=
  LockstepAt.probe_if hs hq (h₁.bind hf) (h₂.bind hf)
    (fun hc hp => ⟨(hne hc hp).1.bind (fun a => hf a a), (hne hc hp).2.bind (fun a => hf a a)⟩)

/-! ## Tokens and failures -/

theorem lockstep_fail {fault : ParseFault} : Lockstep k (fail fault : Parser α) (fail fault) := by
  intro c x x' s s' hs
  by_cases hc : c = []
  · subst hc
    exact .inl (.inr ⟨x, blames_here hs.ahead fault, List.suffix_refl x⟩)
  · exact .inr ⟨hc, _, _, rfl, rfl⟩

theorem lockstep_failFound {fault : Option String → ParseFault} : Lockstep k (failFound fault : Parser α) (failFound fault) := by
  intro c x x' s s' hs
  by_cases hc : c = []
  · subst hc
    exact .inl (.inr ⟨x, blames_here hs.ahead _, List.suffix_refl x⟩)
  · have hnext : s'.stream.significant? = s.stream.significant? := by
      have hhead := hs.head?_eq hc
      rwa [ParserState.significant, ParserState.significant, Courier.significant, Courier.significant, List.head?_filter,
        List.head?_filter] at hhead
    exact .inr ⟨hc, _, _, rfl, by rw [ParserState.errorAt, ParserState.errorAt, hnext]⟩

theorem lockstep_unterminatedArray {i j : Location} :
    Lockstep k (failAt i .unterminatedArray : Parser α) (failAt j .unterminatedArray) :=
  fun _ x _ _ _ _ => .inl (.inr ⟨x, .inl rfl, List.suffix_refl x⟩)

/-- The next token is taken by both runs, if it is common, and what follows may depend on it. -/
theorem lockstep_take : Lockstep 1 take take := by
  intro c x x' s s' hs
  cases c with
  | nil =>
    cases hx : x with
    | nil =>
      have hnil : s.significant = [] := hs.ahead.trans hx
      obtain ⟨e, he, -, hplace⟩ := take_eq_error hnil
      exact (yields_of_eq_error he).2 (.inl (.inr ⟨[], .inr (hnil ▸ hplace), List.suffix_refl []⟩))
    | cons t v =>
      have hcons : s.significant = t :: v := hs.ahead.trans hx
      refine (yields_of_eq_ok (take_eq hcons)).2 ⟨steady_taken hs.saved, ?_, .inl ?_⟩
      · rw [significant_taken hcons, hcons]
        exact Nat.le_refl _
      · rw [significant_taken hcons]
        exact List.suffix_cons t v
  | cons t c =>
    have hcons : s.significant = t :: (c ++ x) := hs.ahead
    have hcons' : s'.significant = t :: (c ++ x') := hs.ahead'
    refine (yields_of_eq_ok (take_eq hcons)).2 ⟨steady_taken hs.saved, ?_, ?_⟩
    · rw [significant_taken hcons, hcons]
      exact Nat.le_refl _
    · by_cases hc : c = []
      · subst hc
        exact .inl (by rw [significant_taken hcons]; exact List.suffix_refl x)
      · exact .inr ⟨c, t, s'.taken, hc, take_eq hcons', steady_taken hs.saved', significant_taken hcons, significant_taken hcons'⟩

theorem lockstep_expect {c : TokenKind} {what : String} : Lockstep 1 (expect c what) (expect c what) := by
  unfold expect
  refine lockstep_look_bind (looks_atKind c) (fun o => ?_)
  split
  · exact lockstep_take
  · exact lockstep_failFound

theorem lockstep_expectKeyword {c : Keyword} : Lockstep 1 (expectKeyword c) (expectKeyword c) := by
  unfold expectKeyword
  refine lockstep_look_bind (looks_atKeyword c) (fun o => ?_)
  split
  · exact lockstep_take
  · exact lockstep_failFound

theorem lockstep_identifier {what : String} : Lockstep 1 (identifier what) (identifier what) :=
  lockstep_expect.bind (fun _ _ => lockstep_pure)

/-! ## Loops and productions -/

section

variable {more : Parser Bool} {p : Option Token → Bool} {step step' : α → Parser α}

/-- A round of a loop and what follows it keep pace. A round that is begun takes a token, which what follows may count on. -/
theorem lockstepAt_round (hm : Looks more p) (hstep : ∀ a b, Lockstep 1 (step a) (step' b)) {next next' : α → Parser α}
    (hs : Forked c x x' s s') (hnext : Onward 1 0 next next' c s s') (a b : α) :
    LockstepAt 0 (do if ← more then next (← step a) else return a) (do if ← more then next' (← step' b) else return b)
      c x x' s s' := by
  refine LockstepAt.looks_bind hm hs (fun o => ?_)
  split
  · have hrest : Onward 1 0 next next' c s.settle s'.settle := by
      unfold Onward
      rw [significant_settle, significant_settle]
      exact hnext
    exact ((hstep a b c x x' _ _ hs.settle).bind hs.settle hrest).mono (Nat.zero_le _)
  · exact lockstep_pure c x x' _ _ hs.settle

/-- Two bounded loops keep pace if their rounds do and their bounds are no less than the tokens ahead. The other bound counts only
where tokens are common. -/
theorem lockstepAt_repeatFor (hm : Looks more p) (hstep : ∀ a b, Lockstep 1 (step a) (step' b)) {rounds rounds' : List Token}
    (hs : Forked c x x' s s') (hlength : s.significant.length ≤ rounds.length)
    (hlength' : c ≠ [] → s'.significant.length ≤ rounds'.length) (a b : α) :
    LockstepAt 0 (repeatFor more step rounds a) (repeatFor more step' rounds' b) c x x' s s' := by
  induction rounds generalizing rounds' c x x' s s' a b with
  | nil =>
    -- No token is ahead, and no step takes one.
    have hnil : s.significant = [] := List.length_eq_zero_iff.1 (Nat.le_zero.1 hlength)
    obtain ⟨rfl, rfl⟩ := List.append_eq_nil_iff.1 (hs.ahead.symm.trans hnil)
    have hself : Forked [] [] [] s s := ⟨hs.saved, hs.saved, hnil, hnil⟩
    have hpure : Onward 1 0 (pure : α → Parser α) pure [] s s := fun _ _ _ _ _ _ _ hu _ _ => lockstep_pure _ _ _ _ _ hu
    have hlast := lockstepAt_round hm hstep hself hpure a b
    simp only [bind_pure] at hlast
    exact (hlast.clears hnil).lockstepAt
  | cons r rest ih =>
    rw [List.length_cons] at hlength
    cases rounds' with
    | nil =>
      -- The other run has no token ahead either, so none is common.
      have hc : c = [] := by
        by_cases hc : c = []
        · exact hc
        · have hzero := hlength' hc
          have hpos := List.length_pos_iff.2 hc
          rw [hs.ahead', List.length_append, List.length_nil] at hzero
          omega
      subst hc
      have hself : Onward 1 0 (repeatFor more step rest) (repeatFor more step' rest) [] s s :=
        fun a b d y y' u u' hu hlt hlt' => ih hu (by omega) (fun hd => absurd rfl (hlt' hd).1) a b
      exact ((lockstepAt_round hm hstep ⟨hs.saved, hs.saved, hs.ahead, hs.ahead⟩ hself a b).clears hs.ahead).lockstepAt
    | cons r' rest' =>
      rw [List.length_cons] at hlength'
      refine lockstepAt_round hm hstep hs (fun a b d y y' u u' hu hlt hlt' => ih hu (by omega) (fun hd => ?_) a b) a b
      obtain ⟨hc, hless⟩ := hlt' hd
      have hbound := hlength' hc
      omega

/-- Two loops keep pace if their rounds do and each round takes a token: then either loop has rounds enough. -/
theorem lockstep_repeatWhile (hm : Looks more p) (hstep : ∀ a b, Lockstep 1 (step a) (step' b)) (a b : α) :
    Lockstep 0 (repeatWhile more step a) (repeatWhile more step' b) := by
  intro c x x' s s' hs
  have hsize : s.significant.length ≤ s.stream.ahead.length := length_significant_le _
  have hsize' : s'.significant.length ≤ s'.stream.ahead.length := length_significant_le _
  exact lockstepAt_repeatFor hm hstep hs hsize (fun _ => hsize') a b

end

theorem guarded_eq_error {construct : Construct} {e : ParseError} {t : ParserState} (h : m (s.enter construct) = .error e t) :
    ∃ e' u, guarded construct m s = .error e' u ∧ e'.fault = e.fault := by
  exact ⟨_, _, guarded_eq_abandon h, rfl⟩

/-- Productions keep pace if their bodies do. -/
theorem Lockstep.guarded {construct : Construct} (h : Lockstep k m n) : Lockstep k (guarded construct m) (guarded construct n) := by
  intro c x x' s s' hs
  have hbody := h c x x' (s.enter construct) (s'.enter construct) ⟨hs.saved, hs.saved', hs.ahead, hs.ahead'⟩
  refine yields_guarded (Yields.mono hbody (fun a u ⟨hu, hlength, htogether⟩ => ?_) (fun e u he => ?_))
  · refine ⟨hu.2, ⟨hu.1, rfl⟩, hlength, htogether.imp_right (fun ⟨d, b, u', hd, hn, hu', hud, hud'⟩ => ?_)⟩
    exact ⟨d, b, _, hd, guarded_eq_ok hn hu'.2, ⟨hu'.1, rfl⟩, hud, hud'⟩
  · refine he.imp_right (fun ⟨hc, e', u', hn, hfault⟩ => ?_)
    obtain ⟨e'', w, hw, hfault'⟩ := guarded_eq_error hn
    exact ⟨hc, e'', w, hw, hfault'.trans hfault⟩

end

end Courier.Parser
