import Courier.Grammar.Parse

/-!
# What the operations of a parser do

Each operation that looks at the next token leaves the state it would leave by settling first (`ParserState.settle`): the comments
before that token are taken. The equations here give the value and the state of every such operation by the tokens ahead that are
no comments (`ParserState.significant`); after them no proof opens an operation.
-/

namespace Courier

/-! ## The tokens that are no comments -/

/-- The tokens that are no comments, in order. -/
def significant (ts : List Token) : List Token :=
  ts.filter (fun t => !t.isComment)

@[simp] theorem significant_nil : significant [] = [] := rfl

theorem significant_cons_comment {t : Token} (h : t.isComment = true) (ts : List Token) :
    significant (t :: ts) = significant ts :=
  List.filter_cons_of_neg (by simp [h])

theorem significant_cons {t : Token} (h : t.isComment = false) (ts : List Token) :
    significant (t :: ts) = t :: significant ts :=
  List.filter_cons_of_pos (by simp [h])

theorem significant_append (ts us : List Token) : significant (ts ++ us) = significant ts ++ significant us :=
  List.filter_append ts us

theorem isComment_of_mem_significant {ts : List Token} {t : Token} (h : t ∈ significant ts) : t.isComment = false := by
  simpa using (List.mem_filter.1 h).2

@[simp] theorem significant_dropWhile (ts : List Token) : significant (ts.dropWhile Token.isComment) = significant ts := by
  induction ts with
  | nil => rfl
  | cons t rest ih =>
    cases hc : t.isComment with
    | false => rw [List.dropWhile_cons_of_neg (by simp [hc])]
    | true => rw [List.dropWhile_cons_of_pos hc, ih, significant_cons_comment hc]

/-- The first token that is no comment is the first one behind the comments in front. -/
theorem head?_dropWhile_isComment (ts : List Token) : (ts.dropWhile Token.isComment).head? = (significant ts).head? := by
  induction ts with
  | nil => rfl
  | cons t rest ih =>
    cases hc : t.isComment with
    | false => rw [List.dropWhile_cons_of_neg (by simp [hc]), significant_cons hc, List.head?_cons, List.head?_cons]
    | true => rw [List.dropWhile_cons_of_pos hc, ih, significant_cons_comment hc]

/-- Where a token is the first that is no comment, only comments stand before it. -/
theorem dropWhile_of_significant {ts v : List Token} {t : Token} (h : significant ts = t :: v) :
    ∃ rest, ts.dropWhile Token.isComment = t :: rest ∧ significant rest = v := by
  induction ts with
  | nil => simp at h
  | cons u rest ih =>
    cases hc : u.isComment with
    | false =>
      rw [significant_cons hc] at h
      obtain ⟨rfl, hv⟩ := List.cons.inj h
      exact ⟨rest, List.dropWhile_cons_of_neg (by simp [hc]), hv⟩
    | true =>
      rw [significant_cons_comment hc] at h
      obtain ⟨rest', hrest', hv⟩ := ih h
      exact ⟨rest', by rw [List.dropWhile_cons_of_pos hc, hrest'], hv⟩

theorem length_significant_le (ts : List Token) : (significant ts).length ≤ ts.length :=
  List.length_filter_le _ ts

/-- A stream with a token ahead moves over it. -/
theorem Stream.advance_eq_ok {s : Stream} {t : Token} {rest : List Token} (h : s.ahead = t :: rest) :
    s.advance = .ok (s.moveTo ⟨t :: s.cursor.behind, rest⟩) := by
  have hc : s.cursor.ahead = t :: rest := h
  unfold Stream.advance Cursor.advance?
  rw [hc]

@[simp] theorem Stream.moveTo_moveTo (s : Stream) (c d : Cursor) : (s.moveTo c).moveTo d = s.moveTo d := rfl

/-- The place of some tokens of a text: where the first of them starts, or the end of the text. -/
def placeIn (source : String) : List Token → Location
  | t :: _ => t.location
  | [] => Text.endOfText source

/-- The failure blames the tokens: it is located at the first of them or, if there is none, at the end of the text. Only an array that
is not closed is located elsewhere, at its bracket. -/
def ParseError.Blames (e : ParseError) (source : String) (v : List Token) : Prop :=
  e.fault = .unterminatedArray ∨ e.location = placeIn source v

/-- The tree with the flags of a node, if there are any for it. -/
def Tree.withFlags (t : Tree) (id : NodeId) : Option (List String) → Tree
  | some flags => t.setFlags id flags
  | none => t

@[simp] theorem Tree.size_withFlags (t : Tree) (id : NodeId) (flags : Option (List String)) : (t.withFlags id flags).size = t.size := by
  cases flags with
  | none => rfl
  | some flags => exact Tree.size_setFlags t id flags

namespace ParserState

/-- The tokens ahead that are no comments. -/
def significant (s : ParserState) : List Token :=
  Courier.significant s.stream.ahead

/-- The state once the comments before the next token are taken. -/
def settle (s : ParserState) : ParserState :=
  s.takeComments s.stream.ahead

/-- The state with the cursor behind the next token. -/
def passing (s : ParserState) (t : Token) (rest : List Token) : ParserState :=
  { s with stream := s.stream.moveTo ⟨t :: s.stream.cursor.behind, rest⟩ }

/-- The state once the next token is taken, with the comments before it. -/
def taken (s : ParserState) : ParserState :=
  match s.settle.stream.ahead with
  | t :: rest => s.settle.passing t rest
  | [] => s.settle

/-- The parser is at the first token that is no comment. -/
theorem here_eq (s : ParserState) : s.here = placeIn s.stream.source s.significant := by
  have hnext : s.stream.significant? = s.significant.head? := List.head?_filter.symm
  unfold here
  rw [hnext]
  cases s.significant <;> rfl

/-! ## Taking comments -/

@[simp] theorem stream_placeComment (s : ParserState) (t : Token) : (s.placeComment t).stream = s.stream := by
  unfold placeComment
  split
  split <;> rfl

/-- A comment is linked below the innermost open block. -/
theorem placeComment_of_cons {s : ParserState} {b : NodeId} {bs : List NodeId} (h : s.blocks = b :: bs) (t : Token) :
    s.placeComment t = { s with tree := (s.tree.alloc (.comment t.text) t.location).2.attachComment b s.tree.size } := by
  unfold placeComment
  rw [h]
  rfl

/-- Where no block is open, a comment waits. -/
theorem placeComment_of_nil {s : ParserState} (h : s.blocks = []) (t : Token) :
    s.placeComment t = { s with
      tree := (s.tree.alloc (.comment t.text) t.location).2
      pendingComments := s.pendingComments ++ [s.tree.size] } := by
  unfold placeComment
  rw [h]
  rfl

@[simp] theorem blocks_placeComment (s : ParserState) (t : Token) : (s.placeComment t).blocks = s.blocks := by
  unfold placeComment
  split
  split <;> rfl

@[simp] theorem constructs_placeComment (s : ParserState) (t : Token) : (s.placeComment t).constructs = s.constructs := by
  unfold placeComment
  split
  split <;> rfl

@[simp] theorem entered_placeComment (s : ParserState) (t : Token) : (s.placeComment t).entered = s.entered := by
  unfold placeComment
  split
  split <;> rfl

@[simp] theorem traces_placeComment (s : ParserState) (t : Token) : (s.placeComment t).traces = s.traces := by
  unfold placeComment
  split
  split <;> rfl

@[simp] theorem entered_passing (s : ParserState) (t : Token) (rest : List Token) : (s.passing t rest).entered = s.entered := rfl

@[simp] theorem constructs_passing (s : ParserState) (t : Token) (rest : List Token) :
    (s.passing t rest).constructs = s.constructs := rfl

@[simp] theorem traces_passing (s : ParserState) (t : Token) (rest : List Token) : (s.passing t rest).traces = s.traces := rfl

@[simp] theorem source_passing (s : ParserState) (t : Token) (rest : List Token) :
    (s.passing t rest).stream.source = s.stream.source := rfl

@[simp] theorem saved_passing (s : ParserState) (t : Token) (rest : List Token) :
    (s.passing t rest).stream.saved = s.stream.saved := rfl

@[simp] theorem ahead_passing (s : ParserState) (t : Token) (rest : List Token) : (s.passing t rest).stream.ahead = rest :=
  rfl

theorem takeComments_cons_comment {s : ParserState} {t : Token} {rest : List Token} (h : s.stream.ahead = t :: rest)
    (hc : t.isComment = true) :
    s.takeComments (t :: rest) = ((s.passing t rest).placeComment t).takeComments rest := by
  rw [takeComments, if_pos hc, Stream.advance_eq_ok h]
  rfl

theorem takeComments_of_head {s : ParserState} {ts : List Token} (h : ∀ t ∈ ts.head?, t.isComment = false) :
    s.takeComments ts = s := by
  cases ts with
  | nil => rfl
  | cons t rest => rw [takeComments, if_neg (by simp [h t (by simp)])]

/-- What holds at first and is kept when one comment is passed and placed, holds once the comments are taken. -/
theorem settle_induction {I : ParserState → Prop}
    (hstep : ∀ s t rest, s.stream.ahead = t :: rest → t.isComment = true → I s → I ((s.passing t rest).placeComment t))
    {s : ParserState} (h : I s) : I s.settle := by
  have hall : ∀ (ts : List Token) (s : ParserState), s.stream.ahead = ts → I s → I (s.takeComments ts) := by
    intro ts
    induction ts with
    | nil => exact fun _ _ h => h
    | cons t rest ih =>
      intro s hs h
      cases hc : t.isComment with
      | false =>
        rw [takeComments_of_head (by simp [hc])]
        exact h
      | true =>
        rw [takeComments_cons_comment hs hc]
        exact ih _ (by simp) (hstep s t rest hs hc h)
  exact hall _ s rfl h

theorem ahead_takeComments (ts : List Token) (s : ParserState) (h : s.stream.ahead = ts) :
    (s.takeComments ts).stream.ahead = ts.dropWhile Token.isComment := by
  induction ts generalizing s with
  | nil => exact h
  | cons t rest ih =>
    cases hc : t.isComment with
    | false => rw [takeComments_of_head (by simp [hc]), h, List.dropWhile_cons_of_neg (by simp [hc])]
    | true => rw [takeComments_cons_comment h hc, ih _ (by simp), List.dropWhile_cons_of_pos hc]

/-- A settled state has no comment in front of its next token. -/
theorem ahead_settle (s : ParserState) : s.settle.stream.ahead = s.stream.ahead.dropWhile Token.isComment :=
  ahead_takeComments _ s rfl

@[simp] theorem significant_settle (s : ParserState) : s.settle.significant = s.significant := by
  rw [significant, ahead_settle, significant_dropWhile, significant]

/-- The next token of a settled state is the next one that is no comment. -/
theorem head?_ahead_settle (s : ParserState) : s.settle.stream.ahead.head? = s.significant.head? := by
  rw [ahead_settle, head?_dropWhile_isComment, significant]

/-- The next token of a settled state is no comment. -/
theorem isComment_of_ahead_settle {s : ParserState} {t : Token} (h : t ∈ s.settle.stream.ahead.head?) : t.isComment = false := by
  rw [head?_ahead_settle] at h
  exact isComment_of_mem_significant (List.mem_of_mem_head? h)

theorem settle_settle (s : ParserState) : s.settle.settle = s.settle :=
  takeComments_of_head (fun _ ht => isComment_of_ahead_settle ht)

@[simp] theorem taken_settle (s : ParserState) : s.settle.taken = s.taken := by
  unfold taken
  rw [settle_settle]

/-- Where a token is next, the state without it is the settled one with the cursor behind that token. -/
theorem taken_eq {s : ParserState} {t : Token} {v : List Token} (h : s.significant = t :: v) :
    ∃ rest, s.settle.stream.ahead = t :: rest ∧ Courier.significant rest = v ∧ s.taken = s.settle.passing t rest := by
  obtain ⟨rest, hrest, hv⟩ := dropWhile_of_significant h
  rw [← ahead_settle] at hrest
  exact ⟨rest, hrest, hv, by rw [taken, hrest]⟩

theorem significant_taken {s : ParserState} {t : Token} {v : List Token} (h : s.significant = t :: v) :
    s.taken.significant = v := by
  obtain ⟨rest, -, hrest, htaken⟩ := taken_eq h
  rw [htaken]
  exact hrest

@[simp] theorem constructs_settle (s : ParserState) : s.settle.constructs = s.constructs :=
  settle_induction (I := fun u => u.constructs = s.constructs) (fun _ _ _ _ _ h => by simpa using h) rfl

@[simp] theorem entered_settle (s : ParserState) : s.settle.entered = s.entered :=
  settle_induction (I := fun u => u.entered = s.entered) (fun _ _ _ _ _ h => by simpa using h) rfl

@[simp] theorem traces_settle (s : ParserState) : s.settle.traces = s.traces :=
  settle_induction (I := fun u => u.traces = s.traces) (fun _ _ _ _ _ h => by simpa using h) rfl

@[simp] theorem blocks_settle (s : ParserState) : s.settle.blocks = s.blocks :=
  settle_induction (I := fun u => u.blocks = s.blocks) (fun _ _ _ _ _ h => by rw [blocks_placeComment]; exact h) rfl

@[simp] theorem saved_settle (s : ParserState) : s.settle.stream.saved = s.stream.saved :=
  settle_induction (I := fun u => u.stream.saved = s.stream.saved) (fun _ _ _ _ _ h => by simpa using h) rfl

@[simp] theorem source_settle (s : ParserState) : s.settle.stream.source = s.stream.source :=
  settle_induction (I := fun u => u.stream.source = s.stream.source) (fun _ _ _ _ _ h => by simpa using h) rfl

@[simp] theorem constructs_taken (s : ParserState) : s.taken.constructs = s.constructs := by
  unfold taken
  split
  · exact constructs_settle s
  · exact constructs_settle s

@[simp] theorem entered_taken (s : ParserState) : s.taken.entered = s.entered := by
  unfold taken
  split
  · exact entered_settle s
  · exact entered_settle s

@[simp] theorem traces_taken (s : ParserState) : s.taken.traces = s.traces := by
  unfold taken
  split
  · exact traces_settle s
  · exact traces_settle s

@[simp] theorem blocks_taken (s : ParserState) : s.taken.blocks = s.blocks := by
  unfold taken
  split
  · exact blocks_settle s
  · exact blocks_settle s

@[simp] theorem saved_taken (s : ParserState) : s.taken.stream.saved = s.stream.saved := by
  unfold taken
  split
  · exact saved_settle s
  · exact saved_settle s

@[simp] theorem source_taken (s : ParserState) : s.taken.stream.source = s.stream.source := by
  unfold taken
  split
  · exact source_settle s
  · exact source_settle s

/-! ## Making nodes -/

@[simp] theorem size_placeComment (s : ParserState) (t : Token) : (s.placeComment t).tree.size = s.tree.size + 1 := by
  have halloc := Tree.size_alloc s.tree (.comment t.text) t.location
  unfold placeComment
  dsimp only
  split
  · rw [Tree.size_attachComment, halloc]
  · exact halloc

/-- A tree grows while comments are taken. -/
theorem size_le_settle (s : ParserState) : s.tree.size ≤ s.settle.tree.size := by
  refine settle_induction (I := fun u => s.tree.size ≤ u.tree.size) (fun u t rest _ _ h => ?_) (Nat.le_refl _)
  rw [size_placeComment]
  exact Nat.le_succ_of_le h

@[simp] theorem tree_passing (s : ParserState) (t : Token) (rest : List Token) : (s.passing t rest).tree = s.tree := rfl

@[simp] theorem tree_taken (s : ParserState) : s.taken.tree = s.settle.tree := by
  unfold taken
  split <;> rfl

/-- A block that is made is open from now on, and takes the flags and the comments that are pending. -/
theorem openNode_of_container {p : Payload} (h : p.kind.isContainer = true) (s : ParserState) (l : Location) :
    s.openNode p l = (s.tree.size, { s with
      tree := s.pendingComments.foldl (fun t c => t.attachComment s.tree.size c)
        ((s.tree.alloc p l).2.withFlags s.tree.size s.pendingFlags)
      blocks := s.tree.size :: s.blocks
      pendingComments := []
      pendingFlags := none }) := by
  unfold openNode
  dsimp only
  rw [if_pos h]
  cases s.pendingFlags <;> rfl

/-- A node that is no block takes the flags that are pending. -/
theorem openNode_of_not_container {p : Payload} (h : p.kind.isContainer = false) (s : ParserState) (l : Location) :
    s.openNode p l = (s.tree.size, { s with
      tree := (s.tree.alloc p l).2.withFlags s.tree.size s.pendingFlags
      pendingFlags := none }) := by
  unfold openNode
  dsimp only
  rw [if_neg (by simp [h])]
  cases s.pendingFlags <;> rfl

@[simp] theorem stream_openNode (s : ParserState) (p : Payload) (l : Location) : (s.openNode p l).2.stream = s.stream := by
  cases h : p.kind.isContainer with
  | true => rw [openNode_of_container h]
  | false => rw [openNode_of_not_container h]

@[simp] theorem constructs_openNode (s : ParserState) (p : Payload) (l : Location) :
    (s.openNode p l).2.constructs = s.constructs := by
  cases h : p.kind.isContainer with
  | true => rw [openNode_of_container h]
  | false => rw [openNode_of_not_container h]

@[simp] theorem entered_openNode (s : ParserState) (p : Payload) (l : Location) : (s.openNode p l).2.entered = s.entered := by
  cases h : p.kind.isContainer with
  | true => rw [openNode_of_container h]
  | false => rw [openNode_of_not_container h]

@[simp] theorem traces_openNode (s : ParserState) (p : Payload) (l : Location) : (s.openNode p l).2.traces = s.traces := by
  cases h : p.kind.isContainer with
  | true => rw [openNode_of_container h]
  | false => rw [openNode_of_not_container h]

@[simp] theorem significant_openNode (s : ParserState) (p : Payload) (l : Location) :
    (s.openNode p l).2.significant = s.significant := by
  rw [significant, stream_openNode, significant]

/-- The id of a new node is the number of nodes before. -/
theorem fst_openNode (s : ParserState) (p : Payload) (l : Location) : (s.openNode p l).1 = s.tree.size := by
  cases h : p.kind.isContainer with
  | true => rw [openNode_of_container h]
  | false => rw [openNode_of_not_container h]

@[simp] theorem size_openNode (s : ParserState) (p : Payload) (l : Location) : (s.openNode p l).2.tree.size = s.tree.size + 1 := by
  have hmade : ((s.tree.alloc p l).2.withFlags s.tree.size s.pendingFlags).size = s.tree.size + 1 := by
    rw [Tree.size_withFlags, Tree.size_alloc]
  cases h : p.kind.isContainer with
  | true =>
    rw [openNode_of_container h]
    exact (Tree.size_attachComments _ _ _).trans hmade
  | false =>
    rw [openNode_of_not_container h]
    exact hmade

end ParserState

namespace Parser

open ParserState

/-! ## Looking at the next token -/

/-- The parser settles the state and answers by the next token that is no comment. -/
def Looks {α : Type} (m : Parser α) (p : Option Token → α) : Prop :=
  ∀ s : ParserState, m s = .ok (p s.significant.head?) s.settle

theorem looks_current? : Looks current? id := by
  intro s
  have h : current? s = .ok s.settle.stream.ahead.head? s.settle := rfl
  rw [h, head?_ahead_settle]
  rfl

/-- An answer that is made of a look is a look. -/
theorem Looks.bind {α β : Type} {m : Parser α} {p : Option Token → α} {f : α → Parser β} {q : Option Token → β}
    (hm : Looks m p) (hf : ∀ o, f (p o) = pure (q o)) : Looks (m >>= f) q := by
  intro s
  have h : (m >>= f) s = f (p s.significant.head?) s.settle := by
    simp only [Bind.bind, EStateM.bind, hm s]
  rw [h, hf]
  rfl

theorem Looks.map {α β : Type} {m : Parser α} {p : Option Token → α} (hm : Looks m p) (g : α → β) :
    Looks (g <$> m) (fun o => g (p o)) := by
  intro s
  simp only [Functor.map, EStateM.map, hm s]

theorem looks_look : Looks look (fun o => (o.map Token.kind, o.bind Token.keyword?)) :=
  looks_current?.bind (fun _ => rfl)

theorem looks_atKind (k : TokenKind) : Looks (atKind k) (fun o => o.map Token.kind == some k) :=
  looks_look.bind (fun _ => rfl)

theorem looks_atKeyword (k : Keyword) : Looks (atKeyword k) (fun o => o.bind Token.keyword? == some k) :=
  looks_look.bind (fun _ => rfl)

theorem looks_inBlock : Looks inBlock (fun o => o.map Token.kind != some .rightBrace && o.isSome) :=
  looks_look.bind (fun o => by cases o <;> rfl)

theorem looks_startsMessage :
    Looks Grammar.startsMessage (fun o => o.any (fun t => t.kind == .identifier || t.kind.isMessageOperator)) :=
  looks_look.bind (fun o => by cases o <;> rfl)

section

variable {next : Option Token} {k : TokenKind} {word : Keyword}

theorem kind_of_atKind (h : (next.map Token.kind == some k) = true) : ∀ t ∈ next, t.kind = k := by
  rintro t rfl
  simpa using h

theorem keyword_of_atKeyword (h : (next.bind Token.keyword? == some word) = true) : ∀ t ∈ next, t.keyword? = some word := by
  rintro t rfl
  simpa using h

theorem kind_of_look {o : Option Keyword} (h : (next.map Token.kind, next.bind Token.keyword?) = (some k, o)) :
    ∀ t ∈ next, t.kind = k :=
  kind_of_atKind (beq_iff_eq.2 (Prod.mk.inj h).1)

theorem keyword_of_look {o : Option TokenKind} (h : (next.map Token.kind, next.bind Token.keyword?) = (o, some word)) :
    ∀ t ∈ next, t.keyword? = some word :=
  keyword_of_atKeyword (beq_iff_eq.2 (Prod.mk.inj h).2)

end

/-- Asking for the place of the next token settles the state and answers where that token is. -/
theorem location_eq_here (s : ParserState) : location s = .ok s.here s.settle := by
  unfold location
  simp only [Bind.bind, EStateM.bind, looks_current? s, id]
  have hplace := here_eq s
  cases hs : s.significant with
  | nil =>
    have hend : s.settle.stream.endLocation = s.here := by
      rw [hplace, hs, Stream.endLocation, source_settle]
      rfl
    rw [← hend]
    rfl
  | cons t v =>
    rw [hs] at hplace
    rw [hplace]
    rfl

theorem location_eq (s : ParserState) : ∃ l, location s = .ok l s.settle :=
  ⟨s.here, location_eq_here s⟩

/-- Asking for the place of a node that is there does nothing else. -/
theorem nodeLocation_eq {s : ParserState} {i : NodeId} {n : Node} (hn : s.tree.node? i = some n) :
    nodeLocation i s = .ok n.location s := by
  have hget : ∀ f : ParserState → Parser Location, (get >>= f) s = f s s := fun _ => rfl
  unfold nodeLocation
  rw [hget, hn]
  rfl

/-! ## Taking the next token -/

theorem move_advance_eq {s : ParserState} {t : Token} {rest : List Token} (h : s.stream.ahead = t :: rest) :
    move Stream.advance s = .ok () (s.passing t rest) := by
  unfold move
  rw [Stream.advance_eq_ok h]
  rfl

/-- The next token is taken if there is one. -/
theorem take_eq {s : ParserState} {t : Token} {v : List Token} (h : s.significant = t :: v) : take s = .ok t s.taken := by
  obtain ⟨rest, hahead, -, htaken⟩ := taken_eq h
  unfold take
  simp only [Bind.bind, EStateM.bind, looks_current? s, h, List.head?_cons, id, move_advance_eq hahead, htaken]
  rfl

theorem take_bind {α : Type} {f : Token → Parser α} {s : ParserState} {t : Token} {v : List Token} (h : s.significant = t :: v) :
    (take >>= f) s = f t s.taken := by
  simp only [Bind.bind, EStateM.bind, take_eq h]

/-- A failure at the next token is located there. -/
theorem location_errorAt_settle (s : ParserState) (fault : ParseFault) :
    (s.settle.errorAt s.settle.here fault).location = placeIn s.stream.source s.significant := by
  rw [here_eq, significant_settle, source_settle]
  rfl

/-- Where no token is left, none is taken. -/
theorem take_eq_fail {s : ParserState} (h : s.significant = []) :
    take s = .error (s.settle.errorAt s.settle.here .endOfInput) s.settle := by
  unfold take
  simp only [Bind.bind, EStateM.bind, looks_current? s, h, List.head?_nil, id]
  rfl

theorem take_eq_error {s : ParserState} (h : s.significant = []) :
    ∃ e, take s = .error e s.settle ∧ e.fault = .endOfInput ∧ e.location = placeIn s.stream.source s.significant :=
  ⟨_, take_eq_fail h, rfl, location_errorAt_settle s .endOfInput⟩

theorem expect_eq {s : ParserState} {t : Token} {v : List Token} (h : s.significant = t :: v) (what : String) :
    expect t.kind what s = .ok t s.taken := by
  unfold expect
  simp only [Bind.bind, EStateM.bind, looks_atKind t.kind s, h, List.head?_cons, Option.map_some, BEq.rfl, if_true]
  rw [take_eq (v := v) (by rw [significant_settle, h]), taken_settle]

/-- Where another token or none is next, the parser names what it expected. -/
theorem expect_eq_error {s : ParserState} {k : TokenKind} (h : ∀ t ∈ s.significant.head?, t.kind ≠ k) (what : String) :
    ∃ e found, expect k what s = .error e s.settle ∧ e.fault = .expected what found ∧
      e.location = placeIn s.stream.source s.significant := by
  have hk : (s.significant.head?.map Token.kind == some k) = false := by
    cases hs : s.significant.head? with
    | none => rfl
    | some t => simpa using h t (by simp [hs])
  unfold expect
  simp only [Bind.bind, EStateM.bind, looks_atKind k s, hk]
  exact ⟨_, _, rfl, rfl, location_errorAt_settle s _⟩

/-- Where a token of a kind is taken, it was the next one. -/
theorem exists_of_expect {s u : ParserState} {k : TokenKind} {what : String} {t : Token} (h : expect k what s = .ok t u) :
    ∃ v, s.significant = t :: v ∧ u = s.taken := by
  by_cases hk : ∀ c ∈ s.significant.head?, c.kind ≠ k
  · obtain ⟨e, found, he, -⟩ := expect_eq_error hk what
    rw [h] at he
    nomatch he
  · obtain ⟨c, hc, rfl⟩ : ∃ c ∈ s.significant.head?, c.kind = k := by simpa using hk
    obtain ⟨v, hv⟩ := List.head?_eq_some_iff.1 hc
    rw [expect_eq hv] at h
    obtain ⟨rfl, rfl⟩ := EStateM.Result.ok.inj h
    exact ⟨v, hv, rfl⟩

/-- What is taken has the kind that was expected. -/
theorem kind_of_expect {s u : ParserState} {k : TokenKind} {what : String} {t : Token} (h : expect k what s = .ok t u) :
    t.kind = k := by
  obtain ⟨v, hv, -⟩ := exists_of_expect h
  by_cases hk : t.kind = k
  · exact hk
  · obtain ⟨e, found, he, -⟩ := expect_eq_error (s := s) (k := k) (by simpa [hv] using hk) what
    rw [h] at he
    nomatch he

theorem expectKeyword_eq {s : ParserState} {t : Token} {k : Keyword} {v : List Token} (h : s.significant = t :: v)
    (hk : t.keyword? = some k) : expectKeyword k s = .ok t s.taken := by
  unfold expectKeyword
  simp only [Bind.bind, EStateM.bind, looks_atKeyword k s, h, List.head?_cons, Option.bind_some, hk, BEq.rfl, if_true]
  rw [take_eq (v := v) (by rw [significant_settle, h]), taken_settle]

theorem expectKeyword_eq_error {s : ParserState} {k : Keyword} (h : ∀ t ∈ s.significant.head?, t.keyword? ≠ some k) :
    ∃ e found, expectKeyword k s = .error e s.settle ∧ e.fault = .expected s!"'{k.text}'" found ∧
      e.location = placeIn s.stream.source s.significant := by
  have hk : (s.significant.head?.bind Token.keyword? == some k) = false := by
    cases hs : s.significant.head? with
    | none => rfl
    | some t => simpa using h t (by simp [hs])
  unfold expectKeyword
  simp only [Bind.bind, EStateM.bind, looks_atKeyword k s, hk]
  exact ⟨_, _, rfl, rfl, location_errorAt_settle s _⟩

end Parser

end Courier
