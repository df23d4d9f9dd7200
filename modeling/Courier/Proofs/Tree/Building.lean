import Courier.Proofs.Tree.Draft

/-!
# What a parser builds

`Builds P m Q` says that a parser that starts in a state with `P` and succeeds gives a value and a state with `Q`; of a failure it says
nothing, since the nodes of a production that fails are destroyed. Here is one rule for each operation of a parser, told by what it
makes of the drafts of a state (`Drafts`), and one for each way parsers are put together.
-/

namespace Courier.Parser

open ParserState

/-- Names are no operators. -/
def Named (ts : List Token) : Prop :=
  ∀ t ∈ ts, t.kind = .identifier → t.text ∉ Payload.operators

/-- The tree has the drafts given, the comments that wait for a block are comments, and the names ahead are names. -/
structure Drafts (opened : List Draft) (made : List (NodeId × Payload)) (s : ParserState) : Prop where
  tree : s.tree.Drafted opened made
  pending : ∀ c ∈ s.pendingComments, s.tree.IsComment c
  unmarked : s.stream.saved = none
  named : Named s.stream.ahead

/-- A parser that starts in a state with `P` and succeeds gives a value and a state with `Q`. -/
def Builds {α : Type} (P : ParserState → Prop) (m : Parser α) (Q : α → ParserState → Prop) : Prop :=
  ∀ s : ParserState, P s → Yields m s Q (fun _ _ => True)

/-! ## States -/

section

variable {opened : List Draft} {made : List (NodeId × Payload)} {s : ParserState}

theorem Drafts.passing (h : Drafts opened made s) {t : Token} {rest : List Token} (hs : s.stream.ahead = t :: rest) :
    Drafts opened made (s.passing t rest) := by
  refine ⟨h.tree, h.pending, h.unmarked, fun u hu => h.named u ?_⟩
  rw [hs]
  exact List.mem_cons_of_mem t hu

/-- A comment is a node that is finished at once. -/
theorem Drafts.placeComment (h : Drafts opened made s) (t : Token) : Drafts opened made (s.placeComment t) := by
  have halloc := h.tree.alloc (.comment t.text) t.location
  have hclosed := halloc.close rfl
  have hcomment : (s.tree.alloc (.comment t.text) t.location).2.IsComment s.tree.size := ⟨t.text, hclosed.known List.mem_cons_self⟩
  have htree : (s.tree.alloc (.comment t.text) t.location).2.Drafted opened made :=
    hclosed.forget (List.subset_cons_self _ _)
  have hpending : ∀ c ∈ s.pendingComments, (s.tree.alloc (.comment t.text) t.location).2.IsComment c :=
    fun c hc => (h.pending c hc).mono (fun i q hq => Tree.payload?_alloc hq _ _)
  unfold ParserState.placeComment
  dsimp only
  split
  · refine ⟨htree.attachComment _ hcomment, fun c hc => ?_, h.unmarked, h.named⟩
    exact (hpending c hc).mono (fun i q hq => by rw [Tree.payload?_attachComment]; exact hq)
  · refine ⟨htree, fun c hc => ?_, h.unmarked, h.named⟩
    rcases List.mem_append.1 hc with hc | hc
    · exact hpending c hc
    · obtain rfl := List.mem_singleton.1 hc
      exact hcomment

theorem Drafts.settle (h : Drafts opened made s) : Drafts opened made s.settle :=
  settle_induction (fun _ t _ hs _ h => (h.passing hs).placeComment t) h

theorem Drafts.taken (h : Drafts opened made s) : Drafts opened made s.taken := by
  unfold ParserState.taken
  split
  · rename_i t rest hs
    exact h.settle.passing hs
  · exact h.settle

/-- Comments that waited for a block are its comments. -/
theorem drafted_foldl_attachComment {t : Tree} {parent : NodeId} {cs : List NodeId} (h : t.Drafted opened made)
    (hcs : ∀ c ∈ cs, t.IsComment c) : (cs.foldl (fun t c => t.attachComment parent c) t).Drafted opened made := by
  induction cs generalizing t with
  | nil => exact h
  | cons c cs ih =>
    refine ih (h.attachComment parent (hcs c List.mem_cons_self)) (fun d hd => ?_)
    exact (hcs d (List.mem_cons_of_mem c hd)).mono (fun i q hq => by rw [Tree.payload?_attachComment]; exact hq)

/-- A new node is a draft. -/
theorem Drafts.openNode (h : Drafts opened made s) (p : Payload) (l : Location) :
    Drafts (⟨(s.openNode p l).1, p, []⟩ :: opened) made (s.openNode p l).2 := by
  have hpending : ∀ c ∈ s.pendingComments, (s.tree.alloc p l).2.IsComment c :=
    fun c hc => (h.pending c hc).mono (fun i q hq => Tree.payload?_alloc hq _ _)
  have hflagged : ∀ flags, ∀ c ∈ s.pendingComments, ((s.tree.alloc p l).2.setFlags s.tree.size flags).IsComment c :=
    fun flags c hc => (hpending c hc).mono (fun i q hq => by rw [Tree.payload?_setFlags]; exact hq)
  have halloc := h.tree.alloc p l
  unfold ParserState.openNode
  dsimp only
  split
  · refine ⟨?_, fun _ hc => (nomatch hc), h.unmarked, h.named⟩
    cases s.pendingFlags with
    | none => exact drafted_foldl_attachComment halloc hpending
    | some flags => exact drafted_foldl_attachComment (halloc.setFlags _ flags) (hflagged flags)
  · cases s.pendingFlags with
    | none => exact ⟨halloc, hpending, h.unmarked, h.named⟩
    | some flags => exact ⟨halloc.setFlags _ flags, fun c hc => hflagged flags c hc, h.unmarked, h.named⟩

end

/-! ## Parsers in sequence -/

section

variable {α β : Type} {P P' : ParserState → Prop} {m : Parser α} {f : α → Parser β} {Q : α → ParserState → Prop}

theorem Builds.mono {Q' : α → ParserState → Prop} (h : Builds P m Q) (hQ : ∀ a t, Q a t → Q' a t) : Builds P m Q' :=
  fun s hs => (h s hs).mono hQ (fun _ _ _ => trivial)

theorem Builds.weaken (h : Builds P m Q) (hP : ∀ s, P' s → P s) : Builds P' m Q :=
  fun s hs => h s (hP s hs)

theorem Builds.bind {R : β → ParserState → Prop} (hm : Builds P m Q) (hf : ∀ a, Builds (Q a) (f a) R) :
    Builds P (m >>= f) R := by
  intro s hs
  rw [yields_bind]
  exact (hm s hs).mono (fun a t ht => hf a t ht) (fun _ _ _ => trivial)

theorem Builds.map {g : α → β} {R : β → ParserState → Prop} (hm : Builds P m (fun a => R (g a))) : Builds P (g <$> m) R := by
  intro s hs
  rw [yields_map]
  exact hm s hs

/-- What is known of something that there is may be used. -/
theorem builds_of_exists {γ : Type} {G : γ → Prop} {R : γ → ParserState → Prop} (h : ∀ c, G c → Builds (R c) m Q) :
    Builds (fun s => ∃ c, G c ∧ R c s) m Q :=
  fun s ⟨c, hc, hs⟩ => h c hc s hs

theorem builds_of_and {G : Prop} (h : G → Builds P m Q) : Builds (fun s => G ∧ P s) m Q :=
  fun s ⟨hG, hs⟩ => h hG s hs

theorem builds_pure {a : α} (h : ∀ s, P s → Q a s) : Builds P (pure a) Q :=
  fun s hs => yields_pure.2 (h s hs)

theorem builds_fail {fault : ParseFault} : Builds P (fail fault : Parser α) Q :=
  fun _ _ => trivial

theorem builds_failFound {fault : Option String → ParseFault} : Builds P (failFound fault : Parser α) Q :=
  fun _ _ => trivial

theorem builds_failAt {l : Location} {fault : ParseFault} : Builds P (failAt l fault : Parser α) Q :=
  fun _ _ => trivial

end

/-! ## Looking ahead -/

section

variable {α β : Type} {P : ParserState → Prop} {m : Parser α} {f : α → Parser β} {Q : β → ParserState → Prop}

/-- A look keeps what is kept while comments are taken. -/
theorem Looks.builds {p : Option Token → α} (hm : Looks m p) (hP : ∀ s, P s → P s.settle) : Builds P m (fun _ => P) :=
  fun s hs => (yields_of_eq_ok (hm s)).2 (hP s hs)

/-- What follows a look may use what is next. -/
theorem Looks.builds_bind {p : Option Token → α} (hm : Looks m p) (hP : ∀ s, P s → P s.settle)
    (hf : ∀ next, Builds (fun s => s.significant.head? = next ∧ P s) (f (p next)) Q) : Builds P (m >>= f) Q := by
  intro s hs
  rw [yields_bind, yields_of_eq_ok (hm s)]
  exact hf s.significant.head? s.settle ⟨by rw [significant_settle], hP s hs⟩

/-- A scan keeps everything. -/
theorem Probes.builds {p : List Token → α} (hm : Probes m p) (hP : ∀ s, P s → s.stream.saved = none) : Builds P m (fun _ => P) :=
  fun s hs => (yields_of_eq_ok (hm s (hP s hs))).2 hs

theorem location_builds (hP : ∀ s, P s → P s.settle) : Builds P location (fun _ => P) := by
  intro s hs
  obtain ⟨l, hl⟩ := location_eq s
  exact (yields_of_eq_ok hl).2 (hP s hs)

theorem nodeLocation_builds (hP : ∀ s, P s → P s.settle) (id : NodeId) : Builds P (nodeLocation id) (fun _ => P) := by
  intro s hs
  have hget : ∀ f : ParserState → Parser Location, (get >>= f) s = f s s := fun _ => rfl
  unfold Yields nodeLocation
  rw [hget]
  cases s.tree.node? id with
  | some n => exact hs
  | none => exact location_builds hP s hs

end

/-! ## Tokens -/

section

variable {α β : Type} {opened : List Draft} {made : List (NodeId × Payload)} {m : Parser α} {f : α → Parser β}
  {Q : β → ParserState → Prop}

theorem builds_looks {p : Option Token → α} (hm : Looks m p) : Builds (Drafts opened made) m (fun _ => Drafts opened made) :=
  hm.builds (fun _ hs => hs.settle)

/-- What follows a look may use what is next. -/
theorem builds_look_bind {p : Option Token → α} (hm : Looks m p)
    (hf : ∀ next, Builds (fun s => s.significant.head? = next ∧ Drafts opened made s) (f (p next)) Q) :
    Builds (Drafts opened made) (m >>= f) Q :=
  hm.builds_bind (fun _ hs => hs.settle) hf

theorem builds_probe {p : List Token → α} (hm : Probes m p) : Builds (Drafts opened made) m (fun _ => Drafts opened made) :=
  hm.builds (fun _ hs => hs.unmarked)

theorem builds_location : Builds (Drafts opened made) location (fun _ => Drafts opened made) :=
  location_builds (fun _ hs => hs.settle)

theorem builds_take : Builds (Drafts opened made) take (fun _ => Drafts opened made) := by
  intro s hs
  cases hnext : s.significant with
  | nil =>
    obtain ⟨e, he, -⟩ := take_eq_error hnext
    exact (yields_of_eq_error he).2 trivial
  | cons t v => exact (yields_of_eq_ok (take_eq hnext)).2 hs.taken

/-- A name that is taken is a name. -/
theorem builds_expect {k : TokenKind} {what : String} :
    Builds (Drafts opened made) (expect k what) (fun t u => (k = .identifier → t.text ∉ Payload.operators) ∧ Drafts opened made u) := by
  intro s hs
  by_cases h : ∃ t ∈ s.significant.head?, t.kind = k
  · obtain ⟨t, ht, rfl⟩ := h
    obtain ⟨v, hv⟩ : ∃ v, s.significant = t :: v := by
      cases hnext : s.significant with
      | nil => simp [hnext] at ht
      | cons u v => exact ⟨v, by rw [hnext, List.head?_cons, Option.mem_some_iff] at ht; rw [ht]⟩
    have hmem : t ∈ s.stream.ahead := by
      have hsig : t ∈ s.significant := hv ▸ List.mem_cons_self
      exact (List.mem_filter.1 hsig).1
    exact (yields_of_eq_ok (expect_eq hv what)).2 ⟨hs.named t hmem, hs.taken⟩
  · obtain ⟨e, found, he, -⟩ := expect_eq_error (k := k) (s := s) (fun t ht hk => h ⟨t, ht, hk⟩) what
    exact (yields_of_eq_error he).2 trivial

theorem builds_expectKeyword {word : Keyword} :
    Builds (Drafts opened made) (expectKeyword word) (fun _ => Drafts opened made) := by
  unfold expectKeyword
  refine (builds_looks (looks_atKeyword word)).bind (fun found => ?_)
  split
  · exact builds_take
  · exact builds_failFound

theorem builds_identifier {what : String} : Builds (Drafts opened made) (identifier what)
    (fun name t => name ∉ Payload.operators ∧ Drafts opened made t) := by
  unfold identifier
  exact builds_expect.bind (fun t => builds_of_and (fun hname => builds_pure (fun s hs => ⟨hname rfl, hs⟩)))

/-! ## Nodes -/

theorem builds_keepFlags (flags : List String) :
    Builds (Drafts opened made) (keepFlags flags) (fun _ => Drafts opened made) :=
  fun _ hs => ⟨hs.tree, hs.pending, hs.unmarked, hs.named⟩

theorem builds_nodeLocation (id : NodeId) : Builds (Drafts opened made) (nodeLocation id) (fun _ => Drafts opened made) :=
  nodeLocation_builds (fun _ hs => hs.settle) id

/-- A node is made without children. -/
theorem builds_openNode {p : Payload} {l : Location} : Builds (Drafts opened made) (openNode p l)
    (fun node => Drafts (⟨node, p, []⟩ :: opened) made) :=
  fun _ hs => hs.openNode p l

variable {node child : NodeId} {p q : Payload} {below : List Payload} {G : Payload → Prop}

/-- The last draft gets the node that was made last. -/
theorem builds_attach : Builds (Drafts (⟨node, p, below⟩ :: opened) ((child, q) :: made)) (attach node child)
    (fun _ => Drafts (⟨node, p, below ++ [q]⟩ :: opened) made) := by
  intro s hs
  refine ⟨(hs.tree.attach List.mem_cons_self).forget (List.subset_cons_self _ _), fun c hc => ?_, hs.unmarked, hs.named⟩
  refine (hs.pending c hc).mono (fun i r hr => ?_)
  rw [Tree.payload?_attach]
  exact hr

theorem Drafts.close {s : ParserState} (h : Drafts (⟨node, p, below⟩ :: opened) made s) (hadmits : p.Admits below) :
    Drafts opened ((node, p) :: made) s :=
  ⟨h.tree.close hadmits, h.pending, h.unmarked, h.named⟩

/-- A production yields the draft that it finished. -/
theorem builds_close (hp : G p) (hadmits : p.Admits below) : Builds (Drafts (⟨node, p, below⟩ :: opened) made) (pure node)
    (fun a t => ∃ q, G q ∧ Drafts opened ((a, q) :: made) t) :=
  builds_pure (fun _ hs => ⟨p, hp, hs.close hadmits⟩)

/-- A node that admits no children is finished when it is made. -/
theorem builds_leaf {l : Location} (hp : G p) (hadmits : p.Admits []) : Builds (Drafts opened made) (openNode p l)
    (fun a t => ∃ q, G q ∧ Drafts opened ((a, q) :: made) t) :=
  fun _ hs => ⟨p, hp, (hs.openNode p l).close hadmits⟩

theorem Drafts.forget {made' : List (NodeId × Payload)} {s : ParserState} (h : Drafts opened made s) (hsub : made' ⊆ made) :
    Drafts opened made' s :=
  ⟨h.tree.forget hsub, h.pending, h.unmarked, h.named⟩

/-- What is known of nodes may be forgotten, or told in another order. -/
theorem Builds.forget {made' : List (NodeId × Payload)} {Q : α → ParserState → Prop} (h : Builds (Drafts opened made') m Q)
    (hsub : made' ⊆ made) : Builds (Drafts opened made) m Q :=
  h.weaken (fun _ hs => hs.forget hsub)

/-- The last draft is finished before the parser goes on. -/
theorem Builds.closed {Q : α → ParserState → Prop} (h : Builds (Drafts opened ((node, p) :: made)) m Q)
    (hadmits : p.Admits below) : Builds (Drafts (⟨node, p, below⟩ :: opened) made) m Q :=
  h.weaken (fun _ hs => hs.close hadmits)

/-- A node that a parser makes is a child of the last draft at once. -/
theorem Builds.attach {m : Parser NodeId} (hm : Builds (Drafts (⟨node, p, below⟩ :: opened) made) m
      (fun a t => ∃ q, G q ∧ Drafts (⟨node, p, below⟩ :: opened) ((a, q) :: made) t)) :
    Builds (Drafts (⟨node, p, below⟩ :: opened) made) (m >>= fun child => attach node child)
      (fun _ t => ∃ q, G q ∧ Drafts (⟨node, p, below ++ [q]⟩ :: opened) made t) :=
  hm.bind (fun _ => builds_of_exists (fun q hq => builds_attach.mono (fun _ _ ht => ⟨q, hq, ht⟩)))

/-! ## Loops and productions -/

/-- A loop: `I` holds before each round, where the condition says yes, `J` after each round, and `Q` where the loop ends. -/
theorem builds_repeatWhile {more : Parser Bool} {p : Option Token → Bool} {f : α → Parser α} {I J Q : α → ParserState → Prop}
    (hm : Looks more p) (hsettle : ∀ a s, I a s → I a s.settle)
    (hstep : ∀ a, Builds (fun s => p s.significant.head? = true ∧ I a s) (f a) J)
    (hend : ∀ a s, I a s → p s.significant.head? = false → Q a s) (hround : ∀ a s, J a s → I a s ∧ Q a s) (a : α) :
    Builds (I a) (repeatWhile more f a) Q := by
  have hfor : ∀ (rounds : List Token) (a : α), Builds (I a) (repeatFor more f rounds a) Q := by
    intro rounds
    induction rounds with
    | nil =>
      intro a s hs
      rw [repeatFor, yields_bind, yields_of_eq_ok (hm s)]
      split
      · rename_i hp
        exact ((hstep a).mono (fun a' t ht => (hround a' t ht).2)) s.settle ⟨by rwa [significant_settle], hsettle a s hs⟩
      · rename_i hp
        exact yields_pure.2 (hend a s.settle (hsettle a s hs) (by simpa using hp))
    | cons t rounds ih =>
      intro a s hs
      rw [repeatFor, yields_bind, yields_of_eq_ok (hm s)]
      split
      · rename_i hp
        exact (hstep a).bind (fun a' => (ih a').weaken (fun u hu => (hround a' u hu).1)) s.settle
          ⟨by rwa [significant_settle], hsettle a s hs⟩
      · rename_i hp
        exact yields_pure.2 (hend a s.settle (hsettle a s hs) (by simpa using hp))
  exact fun s hs => hfor s.stream.ahead a s hs

/-- A loop keeps what each of its rounds keeps; a round may use what is next. -/
theorem builds_while {more : Parser Bool} {p : Option Token → Bool} {step : α → Parser α} {I : α → ParserState → Prop}
    (hm : Looks more p) (hsettle : ∀ a s, I a s → I a s.settle)
    (hstep : ∀ a next, p next = true → Builds (fun s => s.significant.head? = next ∧ I a s) (step a) I) (a : α) :
    Builds (I a) (repeatWhile more step a) I :=
  builds_repeatWhile hm hsettle (fun a s ⟨hp, hs⟩ => hstep a _ hp s ⟨rfl, hs⟩) (fun _ _ hs _ => hs) (fun _ _ hs => ⟨hs, hs⟩) a

/-- A loop that makes no node. -/
theorem builds_loop {K : α → Prop} {more : Parser Bool} {p : Option Token → Bool} {step : α → Parser α} (hm : Looks more p)
    (hstep : ∀ a, K a → Builds (Drafts opened made) (step a) (fun a' t => K a' ∧ Drafts opened made t)) (a : α) (ha : K a) :
    Builds (Drafts opened made) (repeatWhile more step a) (fun a' t => K a' ∧ Drafts opened made t) := by
  have hloop := builds_repeatWhile (I := fun a t => K a ∧ Drafts opened made t) hm (fun _ _ hs => ⟨hs.1, hs.2.settle⟩)
    (fun a => (builds_of_and (hstep a)).weaken (fun _ hs => hs.2)) (fun _ _ hs _ => hs) (fun _ _ hs => ⟨hs, hs⟩) a
  exact hloop.weaken (fun s hs => ⟨ha, hs⟩)

/-- The last draft has got more children, all of which satisfy `G`. -/
def Gains (opened : List Draft) (made : List (NodeId × Payload)) (d : Draft) (G : Payload → Prop) (ps : List Payload)
    (s : ParserState) : Prop :=
  (∀ c ∈ ps, G c) ∧ Drafts (⟨d.node, d.payload, d.below ++ ps⟩ :: opened) made s

/-- A loop whose rounds each give the last draft a child. If the loop is entered, there is a first child. -/
theorem builds_children {more : Parser Bool} {look : Option Token → Bool} {step : Unit → Parser Unit} (hm : Looks more look)
    (hstep : ∀ below, Builds (Drafts (⟨node, p, below⟩ :: opened) made) (step ())
      (fun _ t => ∃ q, G q ∧ Drafts (⟨node, p, below ++ [q]⟩ :: opened) made t)) (next : Option Token) :
    Builds (fun s => s.significant.head? = next ∧ Drafts (⟨node, p, below⟩ :: opened) made s) (repeatWhile more step ())
      (fun _ t => ∃ ps, ((∀ c ∈ ps, G c) ∧ (look next = true → ps ≠ [])) ∧ Drafts (⟨node, p, below ++ ps⟩ :: opened) made t) := by
  have hloop := builds_repeatWhile (f := step)
    (I := fun _ s => ∃ ps, (ps ≠ [] ∨ s.significant.head? = next) ∧ Gains opened made ⟨node, p, below⟩ G ps s)
    (J := fun _ s => ∃ ps, ps ≠ [] ∧ Gains opened made ⟨node, p, below⟩ G ps s)
    (Q := fun _ s => ∃ ps, (look next = true → ps ≠ []) ∧ Gains opened made ⟨node, p, below⟩ G ps s) hm ?_ ?_ ?_ ?_ ()
  · intro s ⟨hnext, hs⟩
    have hnone : Gains opened made ⟨node, p, below⟩ G [] s := ⟨fun _ hc => (nomatch hc), by rwa [List.append_nil]⟩
    refine (hloop s ⟨[], .inr hnext, hnone⟩).mono ?_ (fun _ _ _ => trivial)
    rintro _ t ⟨ps, hne, hps, ht⟩
    exact ⟨ps, ⟨hps, hne⟩, ht⟩
  · rintro _ s ⟨ps, hnext, hps, hs⟩
    exact ⟨ps, by rwa [significant_settle], hps, hs.settle⟩
  · intro _ s ⟨_, ps, _, hps, hs⟩
    refine (hstep (below ++ ps) s hs).mono ?_ (fun _ _ _ => trivial)
    rintro _ t ⟨q, hq, ht⟩
    refine ⟨ps ++ [q], by simp, fun c hc => ?_, by rw [← List.append_assoc]; exact ht⟩
    rcases List.mem_append.1 hc with hc | hc
    · exact hps c hc
    · exact List.mem_singleton.1 hc ▸ hq
  · rintro _ s ⟨ps, hnext, hps⟩ hstop
    refine ⟨ps, fun hlook => ?_, hps⟩
    rcases hnext with hne | hnext
    · exact hne
    · rw [hnext, hlook] at hstop
      nomatch hstop
  · rintro _ s ⟨ps, hne, hps⟩
    exact ⟨⟨ps, .inl hne, hps⟩, ps, fun _ => hne, hps⟩

/-- A loop whose rounds each give the last draft a child. -/
theorem builds_any_children {more : Parser Bool} {look : Option Token → Bool} {step : Unit → Parser Unit} (hm : Looks more look)
    (hstep : ∀ below, Builds (Drafts (⟨node, p, below⟩ :: opened) made) (step ())
      (fun _ t => ∃ q, G q ∧ Drafts (⟨node, p, below ++ [q]⟩ :: opened) made t)) :
    Builds (Drafts (⟨node, p, below⟩ :: opened) made) (repeatWhile more step ())
      (fun _ t => ∃ ps, (∀ c ∈ ps, G c) ∧ Drafts (⟨node, p, below ++ ps⟩ :: opened) made t) := by
  intro s hs
  refine (builds_children hm hstep s.significant.head? s ⟨rfl, hs⟩).mono ?_ (fun _ _ _ => trivial)
  rintro _ t ⟨ps, ⟨hps, -⟩, ht⟩
  exact ⟨ps, hps, ht⟩

/-- A production that succeeds leaves the state that its body left, but for the chain and the open blocks of its beginning. -/
theorem Builds.guarded_leave {construct : Construct} {Q Q' : α → ParserState → Prop} {P : ParserState → Prop} (h : Builds P m Q)
    (henter : ∀ s, P s → P (s.enter construct)) (hleave : ∀ s a t, P s → Q a t → Q' a (t.leave s.checkpoint)) :
    Builds P (guarded construct m) Q' := by
  intro s hs
  have hbody := h (s.enter construct) (henter s hs)
  cases hm : guarded construct m s with
  | error e u => exact (yields_of_eq_error hm).2 trivial
  | ok a u =>
    obtain ⟨t, ht, rfl⟩ := exists_of_guarded hm
    exact (yields_of_eq_ok hm).2 (hleave s a t hs (hbody.ok ht))

/-- A production that succeeds leaves the tree that its body left. -/
theorem Builds.guarded {construct : Construct} {Q : α → ParserState → Prop} {P : ParserState → Prop} (h : Builds P m Q)
    (henter : ∀ s, P s → P (s.enter construct)) (hleave : ∀ a t before, Q a t → Q a (t.leave before)) :
    Builds P (guarded construct m) Q :=
  h.guarded_leave henter (fun _ a t _ ht => hleave a t _ ht)

end

end Courier.Parser
