import Courier.Proofs.Parser.Abreast
import Courier.Proofs.Parser.Parallel

/-!
# Layout is no part of the grammar

Two streams whose tokens have the same kinds and texts, whatever lies between the tokens, are parsed alike: their trees differ in the
places of the nodes only, and where one parse fails, the other does, for the same reason and at the token of the same index
(`Stream.parse_alike`). The runs of both parses are coupled (`respacing`). A place at the end of the text is only met when no token is
left, so a tree that is closed by a brace has no node there (`lands_unit`).
-/

namespace Courier

/-- The places are those of the tokens with one index. -/
def SameIndex (ts ts' : List Token) (l l' : Location) : Prop :=
  ∃ (k : Nat) (t t' : Token), ts[k]? = some t ∧ ts'[k]? = some t' ∧ t.location = l ∧ t'.location = l'

namespace Stream

/-- The places are those of the tokens with one index, or both are the end of the text. -/
def SamePlace (s s' : Stream) (l l' : Location) : Prop :=
  SameIndex s.tokens s'.tokens l l' ∨ l = s.endLocation ∧ l' = s'.endLocation

/-- The failures of two streams are the same but for their files, places and lines: the fault, and with it the message, the kind that
was discarded and the chain of constructs agree. Both places are at the same token or at the end, and each failure shows the line of its
own place. -/
structure FailAlike (s s' : Stream) (e e' : ParseError) : Prop where
  fault : e'.fault = e.fault
  discarded : e'.discarded = e.discarded
  constructs : e'.constructs = e.constructs
  place : s.SamePlace s' e.location e'.location
  file : e.file = s.file ∧ e'.file = s'.file
  line : e.sourceLine = s.lineAt e.location.offset ∧ e'.sourceLine = s'.lineAt e'.location.offset

/-- Two parses end alike: with trees that are the same but for the places of their nodes, which are those of the tokens with one index,
or with failures that are alike. -/
def ParsedAlike (s s' : Stream) : Except ParseError Tree → Except ParseError Tree → Prop
  | .ok tree, .ok tree' => tree.Alike (SameIndex s.tokens s'.tokens) tree'
  | .error e, .error e' => s.FailAlike s' e e'
  | _, _ => False

end Stream

namespace Parser

open ParserState

variable {base base' : Stream} {R : Location → Location → Prop} {s s' : ParserState}

/-! ## States at the same token -/

/-- Tokens that look alike and have one index. -/
def Matched (base base' : Stream) (t t' : Token) : Prop :=
  t.sign = t'.sign ∧ SameIndex base.tokens base'.tokens t.location t'.location

theorem Matched.kind_eq {t t' : Token} (h : Matched base base' t t') : t'.kind = t.kind :=
  congrArg Prod.fst h.1.symm

/-- Two states that are alike: the tokens ahead match, and the trees are the same but for places, which are related. -/
abbrev Alike (base base' : Stream) (R : Location → Location → Prop) : ParserState → ParserState → Prop :=
  Abreast base base' (Matched base base') (.same R)

theorem comparable_matched (hR : ∀ l l', SameIndex base.tokens base'.tokens l l' → R l l') :
    Comparable (Matched base base') (.same R) :=
  ⟨Matched.kind_eq, fun h _ => ⟨congrArg (fun x => Payload.comment (Prod.snd x)) h.1.symm, hR _ _ h.2⟩⟩

theorem Alike.mono (h : Alike base base' R s s') {R' : Location → Location → Prop} (hR : ∀ l l', R l l' → R' l l') :
    Alike base base' R' s s' :=
  Abreast.mono h (fun _ _ hm => ⟨hm.1, hR _ _ hm.2⟩)

/-- Both parsers are at a token of the same index, or both are at the end. -/
theorem Alike.here (h : Alike base base' R s s') :
    SameIndex base.tokens base'.tokens s.here s'.here ∨
      s.significant = [] ∧ s.here = base.endLocation ∧ s'.here = base'.endLocation := by
  refine (Abreast.here (fun _ _ => Matched.kind_eq) h).imp_left (fun ⟨t, t', ht, hl, hl'⟩ => ?_)
  rw [hl, hl']
  exact ht.2

/-! ## The coupling -/

/-- How far two runs have come: the nodes that each has made, and the tokens ahead of each that are no comments. -/
structure Progress where
  nodes : Nat
  left : Nat

/-- Where two runs may have been so far: at tokens with one index or, if no token is left, at the end. -/
def Reached (base base' : Stream) (left : Nat) (l l' : Location) : Prop :=
  SameIndex base.tokens base'.tokens l l' ∨ left = 0 ∧ l = base.endLocation ∧ l' = base'.endLocation

/-- The runs of two parses of streams whose tokens look alike. -/
def respacing (base base' : Stream) : Coupling where
  World := Progress
  Later w w' := w.nodes ≤ w'.nodes ∧ w'.left ≤ w.left
  State w s s' := Alike base base' (Reached base base' w.left) s s' ∧ s.tree.size = w.nodes ∧ s.significant.length = w.left
  Place w := Reached base base' w.left
  Node w i i' := i' = i ∧ i < w.nodes
  Failed _ e t e' t' := base.FailAlike base' e e' ∧ t.tree.Related (.same (fun _ _ => True)) t'.tree

theorem Reached.mono {left left' : Nat} {l l' : Location} (h : Reached base base' left l l') (hle : left' ≤ left) :
    Reached base base' left' l l' :=
  h.imp_right (fun ⟨hzero, hend⟩ => ⟨Nat.le_zero.1 (hzero ▸ hle), hend⟩)

theorem Reached.samePlace {left : Nat} {l l' : Location} (h : Reached base base' left l l') : base.SamePlace base' l l' :=
  h.imp_right And.right

/-- While a token is left, no run has been at the end. -/
theorem Reached.sameIndex {left : Nat} {l l' : Location} (h : Reached base base' left l l') (hpos : 0 < left) :
    SameIndex base.tokens base'.tokens l l' :=
  h.resolve_right (fun hend => absurd hend.1 (Nat.ne_of_gt hpos))

theorem Alike.reached_here (h : Alike base base' R s s') : Reached base base' s.significant.length s.here s'.here :=
  h.here.imp_right (fun ⟨hnil, hend⟩ => ⟨List.length_eq_zero_iff.2 hnil, hend⟩)

/-- Failures at places that were reached are alike. -/
theorem Alike.errorAt (h : Alike base base' R s s') {l l' : Location} (hl : base.SamePlace base' l l') (fault : ParseFault) :
    base.FailAlike base' (s.errorAt l fault) (s'.errorAt l' fault) where
  fault := rfl
  discarded := rfl
  constructs := h.chain
  place := hl
  file := h.file
  line := ⟨congrArg (Text.lineAt · l.offset) h.source.1, congrArg (Text.lineAt · l'.offset) h.source.2⟩

theorem discarding_alike {e e' : ParseError} (h : base.FailAlike base' e e') {first first' : Option Kind} (hfirst : first' = first) :
    base.FailAlike base' (e.discarding first) (e'.discarding first') :=
  { h with discarded := by rw [ParseError.discarding, ParseError.discarding, h.discarded, hfirst] }

/-- States that are alike are a later world, if no node is gone and no token has come back. -/
theorem respacing_onward {w : Progress} {t t' : ParserState} {bonds : List Bond}
    (h : Alike base base' (Reached base base' t.significant.length) t t') (hnodes : w.nodes ≤ t.tree.size)
    (hleft : t.significant.length ≤ w.left)
    (hbonds : ∀ b ∈ bonds, (respacing base base').Holds ⟨t.tree.size, t.significant.length⟩ b) :
    (respacing base base').Onward w t t' bonds :=
  ⟨⟨t.tree.size, t.significant.length⟩, ⟨hnodes, hleft⟩, ⟨h, rfl, rfl⟩, hbonds⟩

/-- Where no node is made and no token is taken, the world is as before. -/
theorem respacing_still {w : Progress} {t t' : ParserState} (h : Alike base base' (Reached base base' w.left) t t')
    (hnodes : t.tree.size = w.nodes) (hleft : t.significant.length = w.left) : (respacing base base').Onward w t t' [] :=
  ⟨w, ⟨Nat.le_refl _, Nat.le_refl _⟩, ⟨h, hnodes, hleft⟩, fun _ hb => nomatch hb⟩

instance respacing_builds (base base' : Stream) : (respacing base base').Builds where
  refl w := ⟨Nat.le_refl _, Nat.le_refl _⟩
  trans h h' := ⟨Nat.le_trans h.1 h'.1, Nat.le_trans h'.2 h.2⟩
  place_later h hl := hl.mono h.2
  node_later h hi := ⟨hi.1, Nat.lt_of_lt_of_le hi.2 h.1⟩
  owner_later h hi := ⟨hi.1, Nat.lt_of_lt_of_le hi.2 h.1⟩
  folded := Token.folded_of_sign
  fault_refl _ := rfl
  fault_text h fault := congrArg fault (congrArg Prod.snd h)
  unmarked h := h.1.saved
  signs h := map_eq_of_forall₂ (fun _ _ ht => ht.1) (h.1.significant (fun _ _ => Matched.kind_eq))
  settle := by
    rintro ⟨nodes, left⟩ s s' ⟨h, rfl, rfl⟩
    have hleft := congrArg List.length (significant_settle s)
    refine respacing_onward ?_ (size_le_settle s) (Nat.le_of_eq hleft) (fun b hb => ?_)
    · rw [hleft]
      exact h.settle (comparable_matched (fun _ _ => .inl))
    · obtain rfl := List.mem_singleton.1 hb
      exact h.reached_here.mono (Nat.le_of_eq hleft)
  taken := by
    rintro ⟨nodes, left⟩ s s' t t' v v' ⟨h, rfl, rfl⟩ hs hs'
    have hless : s.taken.significant.length ≤ s.significant.length := by
      rw [significant_taken hs, hs]
      exact Nat.le_succ _
    have hmatched := h.significant (fun _ _ => Matched.kind_eq)
    rw [hs, hs'] at hmatched
    obtain ⟨hhead, -⟩ := List.forall₂_cons.1 hmatched
    refine respacing_onward ?_ ?_ hless (fun b hb => ?_)
    · exact Alike.mono (h.taken (comparable_matched (fun _ _ => .inl))) (fun _ _ hl => hl.mono hless)
    · rw [tree_taken]
      exact size_le_settle s
    · obtain rfl := List.mem_singleton.1 hb
      exact .inl hhead.2
  keepFlags h flags := respacing_still { h.1 with flags := rfl } h.2.1 h.2.2
  enter h construct := respacing_still { h.1 with constructs := congrArg (construct :: ·) h.1.constructs } h.2.1 h.2.2
  leave h _ ht := respacing_still (h.1.leave ht.1) ht.2.1 ht.2.2
  failed_here := by
    rintro w s s' fault _ ⟨h, -, -⟩ rfl
    exact ⟨h.errorAt h.reached_here.samePlace fault, h.tree.mono (fun _ _ hm => ⟨hm.1, trivial⟩)⟩
  failed_at := by
    rintro w s s' l l' fault _ ⟨h, -, -⟩ hl rfl
    exact ⟨h.errorAt hl.samePlace fault, h.tree.mono (fun _ _ hm => ⟨hm.1, trivial⟩)⟩
  abandon := by
    rintro w w' s s' t t' e e' ⟨h, -, -⟩ - ⟨he, ht⟩
    have hsize : s'.tree.size = s.tree.size := h.tree.size
    obtain ⟨hfirst, hleft⟩ := ht.discardFrom (Matter.kept_same _) s.tree.size
    unfold ParserState.abandon ParserState.checkpoint
    rw [hsize]
    exact ⟨w, ⟨Nat.le_refl _, Nat.le_refl _⟩, discarding_alike he hfirst, hleft⟩
  shared _ := trivial
  openNode := by
    rintro ⟨nodes, left⟩ s s' l l' p ⟨h, rfl, rfl⟩ hl - - -
    have hsame := congrArg List.length (significant_openNode s p l)
    refine respacing_onward ?_ ?_ (Nat.le_of_eq hsame) (fun b hb => ?_)
    · rw [hsame]
      exact h.openNode rfl ⟨rfl, hl⟩
    · rw [size_openNode]
      exact Nat.le_succ _
    · obtain rfl := List.mem_singleton.1 hb
      refine ⟨?_, ?_⟩
      · rw [fst_openNode, fst_openNode, h.tree.size]
      · rw [fst_openNode, size_openNode]
        exact Nat.lt_succ_self _
  attach := by
    rintro w s s' i i' j j' ⟨h, hnodes, hleft⟩ ⟨rfl, -⟩ ⟨rfl, -⟩
    exact respacing_still (h.attached i' j') ((Tree.size_attach _ _ _).trans hnodes) hleft
  nodeLocation := by
    rintro w s s' i i' ⟨h, hnodes, -⟩ ⟨rfl, hlt⟩
    obtain ⟨n, hn⟩ := Tree.exists_node? (hnodes ▸ hlt : i' < s.tree.size)
    obtain ⟨n', hn', hnode⟩ := h.tree.exists_node hn
    exact ⟨n, n', hn, hn', hnode.made.2⟩
  owner _ hi _ := hi

instance respacing_free (base base' : Stream) : (respacing base base').Free where
  text h := congrArg Prod.snd h
  shared_any _ := trivial
  owner_of_node hi := hi

/-! ## No node at the end -/

section

open Courier.Grammar

variable {Γ : List Bond} {α : Type} {inner : Inner}

/-- The states are alike, and every node of theirs is at a token. -/
abbrev Settled (base base' : Stream) : ParserState → ParserState → Prop :=
  Alike base base' (SameIndex base.tokens base'.tokens)

/-- Where a token is taken at the end, no run has been at the end of the text before. -/
theorem lands_expect {k : TokenKind} {what : String} :
    (respacing base base').Lands Γ (expect k what) (expect k what) (Settled base base') := by
  intro w s s' hs hΓ a b t t' ht ht'
  obtain ⟨v, hv, rfl⟩ := exists_of_expect ht
  obtain ⟨-, -, rfl⟩ := exists_of_expect ht'
  have hne : s.significant ≠ [] := by
    rw [hv]
    exact List.cons_ne_nil _ _
  obtain ⟨h, -, hleft⟩ := hs
  have hpos : 0 < w.left := hleft ▸ List.length_pos_iff.2 hne
  exact (h.mono (fun _ _ hl => hl.sameIndex hpos)).taken (comparable_matched (fun _ _ hl => hl))

/-- Leaving a production keeps the nodes. -/
theorem settled_leave (w : Progress) (s s' t t' : ParserState) (hs : (respacing base base').State w s s')
    (ht : Settled base base' t t') : Settled base base' (t.leave s.checkpoint) (t'.leave s'.checkpoint) :=
  hs.1.leave ht

theorem lands_codeFragment (h : inner.Coupled (respacing base base')) :
    (respacing base base').Lands Γ (codeFragment inner) (codeFragment inner) (Settled base base') := by
  have hblock : ∀ {Γ : List Bond} {start start' : Location}, .place start start' ∈ Γ →
      (respacing base base').Lands Γ (fragmentBlock inner start) (fragmentBlock inner start') (Settled base base') := by
    intro Γ start start' hstart
    unfold fragmentBlock
    refine (parallel_openOwner hstart ⟨by nofun, by nofun⟩ (by nofun) rfl).lands (fun fragment fragment' => ?_)
    refine parallel_expect.lands (fun _ _ => ?_)
    refine (parallel_blockBody h (by simp)).lands (fun _ _ => ?_)
    exact lands_expect.result
  rw [codeFragment_eq]
  refine parallel_location.lands (fun start start' => ?_)
  refine (parallel_atKind _).lands_eq (fun flagged => ?_)
  split
  · exact (h.rule .flags trivial).lands (fun _ _ => hblock (by simp))
  · exact hblock (by simp)

theorem lands_moduleBlock (h : inner.Coupled (respacing base base')) :
    (respacing base base').Lands Γ (moduleBlock inner) (moduleBlock inner) (Settled base base') := by
  unfold moduleBlock
  refine parallel_location.lands (fun start start' => ?_)
  refine parallel_expectKeyword.lands (fun _ _ => ?_)
  refine parallel_identifier.lands_eq (fun name => ?_)
  refine parallel_moduleVersion.lands_eq (fun version => ?_)
  refine (parallel_openOwner (by simp) ⟨by nofun, by nofun⟩ (by nofun) rfl).lands (fun node node' => ?_)
  refine parallel_expect.lands (fun _ _ => ?_)
  refine (h.rule .codeFragment trivial).lands (fun fragment fragment' => ?_)
  refine (parallel_attach (by simp) (by simp)).lands (fun _ _ => ?_)
  exact lands_expect.result

theorem lands_fail {fault : ParseFault} :
    (respacing base base').Lands Γ (fail fault : Parser α) (fail fault) (Settled base base') :=
  fun _ _ _ _ _ _ _ _ _ h => nomatch h

/-- What a unit is made of is closed by a brace. -/
theorem lands_blocks (room : Nat) :
    (respacing base base').Lands Γ (Rule.codeFragment.parse room) (Rule.codeFragment.parse room) (Settled base base') ∧
      (respacing base base').Lands Γ (Rule.moduleBlock.parse room) (Rule.moduleBlock.parse room) (Settled base base') := by
  cases room with
  | zero => exact ⟨lands_fail, lands_fail⟩
  | succ room =>
    have hinner := coupled_parse (respacing base base') room
    exact ⟨(lands_codeFragment hinner).guarded settled_leave, (lands_moduleBlock hinner).guarded settled_leave⟩

theorem lands_unit (room : Nat) :
    (respacing base base').Lands [] (Rule.unit.parse room) (Rule.unit.parse room) (Settled base base') := by
  have hblock : ∀ room, (respacing base base').Lands [] (unitBlock ⟨fun rule => Rule.parse room rule⟩)
      (unitBlock ⟨fun rule => Rule.parse room rule⟩) (Settled base base') := by
    intro room
    unfold unitBlock
    refine parallel_look.lands_eq (fun next => ?_)
    split
    · exact (lands_blocks room).1
    · exact (lands_blocks room).1
    · exact (lands_blocks room).2
    · exact lands_fail
    · exact lands_fail
    · exact lands_fail
    · exact fun _ _ _ _ _ _ _ _ _ h => nomatch h
  cases room with
  | zero => exact lands_fail
  | succ room =>
    refine Coupling.Lands.guarded ((hblock room).bind (fun root root' t t' i j u u' ht hu hu' => ?_)) settled_leave
    -- What is behind the block settles both states.
    have hend : ∀ {i j : NodeId} {t u : ParserState}, (current? >>= fun next =>
        if next.isSome = true then failFound .trailing else pure i : Parser NodeId) t = .ok j u → u = t.settle := by
      intro i j t u hu
      rw [bind_eq_of_ok (looks_current? t)] at hu
      split at hu
      · nomatch hu
      · exact (EStateM.Result.ok.inj hu).2.symm
    obtain rfl := hend hu
    obtain rfl := hend hu'
    exact ht.settle (comparable_matched (fun _ _ hl => hl))

end

/-! ## Whole parses -/

theorem alike_initial (h : base.tokens.map Token.sign = base'.tokens.map Token.sign) (trace : Bool) :
    Alike base base' R (.initial base trace) (.initial base' trace) := by
  refine abreast_initial ?_ trace
  have hlength : base.tokens.length = base'.tokens.length := by
    have hmap := congrArg List.length h
    rwa [List.length_map, List.length_map] at hmap
  refine List.forall₂_iff_get.2 ⟨hlength, fun k hk hk' => ⟨?_, k, _, _, List.getElem?_eq_getElem hk, List.getElem?_eq_getElem hk',
    rfl, rfl⟩⟩
  have hget := congrArg (fun ss => ss[k]?) h
  simpa [hk, hk'] using hget

/-- Within any room, two parses of streams whose tokens look alike end alike. -/
theorem parseWithin_alike (room : Nat) (h : base.tokens.map Token.sign = base'.tokens.map Token.sign) (trace : Bool) :
    base.ParsedAlike base' (base.parseWithin room trace).1 (base'.parseWithin room trace).1 := by
  have hinitial : (respacing base base').State ⟨0, (significant base.tokens).length⟩ (.initial base trace) (.initial base' trace) :=
    ⟨alike_initial h trace, rfl, rfl⟩
  have hunit : (respacing base base').Parallel false [] (Rule.unit.parse room) (Rule.unit.parse room) (fun i j => [.node i j]) :=
    (coupled_parse (respacing base base') room).rule .unit trivial
  unfold Stream.parseWithin
  rcases hunit _ _ _ hinitial (by simp) with ⟨root, root', t, t', ht, ht', hstep⟩ | ⟨e, e', t, t', he, he', hfail⟩
  · obtain ⟨w, -, -, hbonds⟩ := hstep.onward
    obtain ⟨rfl, -⟩ : root' = root ∧ root < w.nodes := hbonds (.node root root') List.mem_cons_self
    have hsettled := lands_unit room _ _ _ hinitial (by simp) _ _ _ _ ht ht'
    rw [ht, ht']
    exact (hsettled.finish root').alike
  · obtain ⟨-, -, halike, -⟩ := hfail
    rw [he, he']
    exact halike

end Parser

namespace Stream

open Courier.Parser

/-- Two streams whose tokens have the same kinds and texts, comments included, are parsed alike, whatever stands between the tokens:
the trees are the same node by node but for the places, which are those of the tokens with one index, or the failures are, located at
the token of one index or both at the end. -/
theorem parse_alike (s s' : Stream) (h : s.tokens.map Token.sign = s'.tokens.map Token.sign) (trace : Bool) :
    s.ParsedAlike s' (s.parse trace).1 (s'.parse trace).1 :=
  parseWithin_alike maxNesting h trace

theorem parse_alike_spaced : ∃ s s' tree tree',
    Stream.tokenize "one" "# first\n\x7b a.b + (1); \x7d" = .ok s ∧
      Stream.tokenize "two" "# first\n\n\x7ba . b+(1) ;\n\x7d\n" = .ok s' ∧
      s.tokens.map Token.sign = s'.tokens.map Token.sign ∧ (s.parse true).1 = .ok tree ∧ (s'.parse true).1 = .ok tree' ∧
      tree.Alike (SameIndex s.tokens s'.tokens) tree' := by
  obtain ⟨s, tree, hs, htree⟩ := exists_parse "one" "# first\n\x7b a.b + (1); \x7d" true (by decide +kernel)
  obtain ⟨s', tree', hs', htree'⟩ := exists_parse "two" "# first\n\n\x7ba . b+(1) ;\n\x7d\n" true (by decide +kernel)
  have hsigns : (Stream.tokenize "one" "# first\n\x7b a.b + (1); \x7d").toOption.map (fun s => s.tokens.map Token.sign) =
      (Stream.tokenize "two" "# first\n\n\x7ba . b+(1) ;\n\x7d\n").toOption.map (fun s => s.tokens.map Token.sign) := by
    decide +kernel
  rw [hs, hs'] at hsigns
  have hsame : s.tokens.map Token.sign = s'.tokens.map Token.sign := Option.some.inj hsigns
  have halike := parse_alike s s' hsame true
  rw [htree, htree'] at halike
  exact ⟨s, s', tree, tree', hs, hs', hsame, htree, htree', halike⟩

end Stream

end Courier
