import Courier.Proofs.Parser.Flags
import Courier.Proofs.Tree.Building
import Courier.Proofs.Tree.Stock

/-!
# What tokens and nodes count for

A ledger says what tokens count for, and what payloads and flags do: a comment or a literal counts for what its node does, an at sign for
the flags behind it, and nothing else counts (`Ledger`). While a parser runs, nothing is lost or counted twice: what the nodes count for,
with the flags that are due and the tokens ahead, stays the same, flags are due only until the next node is made, and they stay in place
(`Ledger.Kept`). Here is what each operation of a parser does to that; `Builds` is the form of the statements.
-/

namespace Courier

open Courier.Grammar

/-- The payload is no comment and no literal, and every text in it is a name. -/
def Payload.Named (Name : String → Prop) : Payload → Prop
  | .comment _ | .literal _ _ => False
  | .variable name typeName | .inst name typeName => Name name ∧ ∀ t ∈ typeName, Name t
  | .tuple types => ∀ t ∈ types, Name t
  | .namedTuple fields => ∀ f ∈ fields, Name f.1 ∧ Name f.2
  | .message name _ | .namespaceBlock name => Name name
  | .param name typeName => Name name ∧ Name typeName
  | .messageDeclaration name => ∀ n ∈ name, Name n
  | .classBlock name superclass | .recordBlock name superclass => Name name ∧ ∀ t ∈ superclass, Name t
  | .moduleBlock name version => Name name ∧ ∀ v ∈ version, Name v
  | _ => True

/-- The token is a string or a comment, or its text is a name. -/
def Token.Clean (Name : String → Prop) (t : Token) : Prop :=
  t.kind ≠ .stringLiteral → t.isComment = false → Name t.text

/-- What tokens and nodes count for. What a token counts for may depend on the tokens behind it. `Name` is what is known of the texts of
all tokens but strings and comments. -/
structure Ledger (β : Type) where
  Name : String → Prop
  token : Token → List Token → List β
  payload : Payload → List β
  flags : List String → List β
  dotted {a b : String} (ha : Name a) (hb : Name b) : Name (a ++ "." ++ b)
  assigns : Name ":="
  named {p : Payload} (hp : p.Named Name) : payload p = []
  /-- Comments do not stand in the way of flags. -/
  swap {text : String} {fs : List String} (hfs : ∀ f ∈ fs, Name f) :
    payload (.comment text) ++ flags fs = flags fs ++ payload (.comment text)
  comment {t : Token} (h : t.isComment = true) (rest : List Token) : token t rest = payload (.comment t.text)
  literal {t : Token} {p : Payload} (ht : t.Clean Name) (hp : literalPayload? t = some p) (rest : List Token) : token t rest = payload p
  atSign {t : Token} (h : t.kind = .atSign) {rest : List Token} (hclean : ∀ u ∈ t :: rest, u.Clean Name) :
    token t rest = flags (flagsBehind (significant rest))
  other {t : Token} (ht : t.Clean Name) (hat : t.kind ≠ .atSign) (hstring : t.kind ≠ .stringLiteral) (hcomment : t.isComment = false)
    (rest : List Token) : token t rest = []

namespace Ledger

variable {β : Type}

/-- What some tokens count for. -/
def tokens (L : Ledger β) : List Token → List β
  | [] => []
  | t :: rest => L.token t rest ++ L.tokens rest

/-- What flags count for, if there are any. -/
def due (L : Ledger β) : Option (List String) → List β
  | some fs => L.flags fs
  | none => []

/-- What the nodes of a tree count for. -/
def nodes (L : Ledger β) (t : Tree) : List β :=
  t.stock.flatMap (fun (p, flags) => L.payload p ++ L.due flags)

/-- The nodes, the flags that are due and the tokens ahead count for `total`. The flags that are due were read behind an at sign; those
that are pending are theirs, once all of them are read. -/
structure Kept (L : Ledger β) (total : List β) (owed pending : Option (List String)) (loose classes : List NodeId) (s : ParserState) :
    Prop where
  unmarked : s.stream.saved = none
  pending : s.pendingFlags = pending
  balance : L.nodes s.tree ++ (L.due owed ++ L.tokens s.stream.ahead) = total
  clean : ∀ t ∈ s.stream.ahead, t.Clean L.Name
  named : ∀ fs ∈ owed, ∀ f ∈ fs, L.Name f
  placed : s.tree.Placed loose
  classes : ∀ c ∈ classes, s.tree.IsClass [] c

/-- No flags are due. -/
abbrev Even (L : Ledger β) (total : List β) (loose classes : List NodeId) : ParserState → Prop :=
  L.Kept total none none loose classes

/-- Flags wait for the next node. -/
abbrev Owing (L : Ledger β) (total : List β) (fs : List String) (loose classes : List NodeId) : ParserState → Prop :=
  L.Kept total (some fs) (some fs) loose classes

variable {L : Ledger β} {total : List β} {owed pending flags : Option (List String)} {fs : List String} {loose classes : List NodeId}
  {s : ParserState} {t : Token} {rest v : List Token} {p : Payload} {l : Location}

/-! ## States -/

theorem swap_due (hnamed : ∀ fs ∈ owed, ∀ f ∈ fs, L.Name f) (text : String) :
    L.payload (.comment text) ++ L.due owed = L.due owed ++ L.payload (.comment text) := by
  cases owed with
  | none => exact List.append_nil _
  | some fs => exact L.swap (hnamed fs rfl)

theorem nodes_of_stock {t t' : Tree} (h : t'.stock = t.stock ++ [(p, flags)]) : L.nodes t' = L.nodes t ++ (L.payload p ++ L.due flags) := by
  rw [nodes, nodes, h, List.flatMap_append, List.flatMap_singleton]

theorem nodes_eq {t t' : Tree} (h : t'.stock = t.stock) : L.nodes t' = L.nodes t := by
  rw [nodes, nodes, h]

/-- A comment that is passed counts for its node. -/
theorem Kept.placeComment (h : L.Kept total owed pending loose classes s) (hs : s.stream.ahead = t :: rest) (ht : t.isComment = true) :
    L.Kept total owed pending loose classes ((s.passing t rest).placeComment t) := by
  have hstock := (s.passing t rest).stock_placeComment t
  have hext := ((s.passing t rest).keeps_placeComment t).extends
  have hahead : ((s.passing t rest).placeComment t).stream.ahead = rest := by rw [ParserState.stream_placeComment]; rfl
  refine ⟨by rw [ParserState.stream_placeComment]; exact h.unmarked, by rw [ParserState.pendingFlags_placeComment]; exact h.pending,
    ?_, ?_, h.named, h.placed.grow hext hstock (.inl rfl), fun c hc => (h.classes c hc).later hext⟩
  · have hbalance := h.balance
    rw [hs, tokens, L.comment ht] at hbalance
    rw [nodes_of_stock hstock, hahead, ← hbalance, due, List.append_nil, List.append_assoc, ← List.append_assoc (L.payload _),
      swap_due h.named, List.append_assoc]
    rfl
  · intro u hu
    rw [hahead] at hu
    exact h.clean u (hs ▸ List.mem_cons_of_mem t hu)

theorem Kept.settle (h : L.Kept total owed pending loose classes s) : L.Kept total owed pending loose classes s.settle :=
  ParserState.settle_induction (fun _ _ _ hs ht h => h.placeComment hs ht) h

/-- A token that counts for nothing is taken. -/
theorem Kept.taken (h : L.Kept total owed pending loose classes s) (hs : s.significant = t :: v) (hat : t.kind ≠ .atSign)
    (hstring : t.kind ≠ .stringLiteral) : L.Name t.text ∧ L.Kept total owed pending loose classes s.taken := by
  obtain ⟨rest, hahead, hrest, htaken⟩ := ParserState.taken_eq hs
  have hmem : t ∈ s.significant := by rw [hs]; exact List.mem_cons_self
  have hcomment : t.isComment = false := isComment_of_mem_significant hmem
  have hsettle := h.settle
  have hclean : t.Clean L.Name := hsettle.clean t (hahead ▸ List.mem_cons_self)
  have hbalance := hsettle.balance
  rw [hahead, tokens, L.other hclean hat hstring hcomment, List.nil_append] at hbalance
  rw [htaken]
  exact ⟨hclean hstring hcomment, hsettle.unmarked, hsettle.pending, hbalance,
    fun u hu => hsettle.clean u (hahead ▸ List.mem_cons_of_mem t hu), hsettle.named, hsettle.placed, hsettle.classes⟩

/-- Once an at sign is taken, the flags behind it are due. -/
theorem Kept.taken_atSign (h : L.Even total loose classes s) (hs : s.significant = t :: v) (hat : t.kind = .atSign) :
    L.Kept total (some (flagsBehind s.taken.significant)) none loose classes s.taken := by
  obtain ⟨rest, hahead, hrest, htaken⟩ := ParserState.taken_eq hs
  have hsettle := h.settle
  have hclean : ∀ u ∈ t :: rest, u.Clean L.Name := hahead ▸ hsettle.clean
  have hbalance := hsettle.balance
  rw [hahead, tokens, L.atSign hat hclean, hrest] at hbalance
  rw [ParserState.significant_taken hs, htaken]
  refine ⟨hsettle.unmarked, hsettle.pending, hbalance, fun u hu => hclean u (List.mem_cons_of_mem t hu), ?_, hsettle.placed,
    hsettle.classes⟩
  intro fs hfs f hf
  obtain rfl := Option.some.inj hfs
  obtain ⟨u, hu, hkind, rfl⟩ := exists_of_mem_flagsBehind hf
  obtain ⟨hmem, hcomment⟩ := List.mem_filter.1 (hrest ▸ hu)
  exact hclean u (List.mem_cons_of_mem t hmem) (by rcases hkind with h | h <;> simp [h]) (by simpa using hcomment)

/-- A node that is made has the flags that are due. -/
theorem Kept.openNode (h : L.Kept total flags flags loose classes s) (hp : p.Named L.Name)
    (hplace : flags = none ∨ p = .codeFragmentBlock ∨ p = .messageBlock ∧ s.tree.size ∈ loose) (l : Location) :
    L.Even total loose classes (s.openNode p l).2 := by
  have hstock := s.stock_openNode p l
  rw [h.pending] at hstock
  have hext := (s.keeps_openNode p l).extends
  refine ⟨by rw [ParserState.stream_openNode]; exact h.unmarked, ParserState.pendingFlags_openNode s p l, ?_,
    by rw [ParserState.stream_openNode]; exact h.clean, fun _ hfs => (nomatch hfs), h.placed.grow hext hstock hplace,
    fun c hc => (h.classes c hc).later hext⟩
  rw [nodes_of_stock hstock, L.named hp, ParserState.stream_openNode, ← h.balance, List.nil_append, List.append_assoc]
  rfl

/-- A literal counts for its node. -/
theorem Kept.literal (h : L.Even total loose classes s) (hs : s.significant = t :: v) (hp : literalPayload? t = some p) (l : Location) :
    L.Even total loose classes (s.taken.openNode p l).2 := by
  obtain ⟨rest, hahead, -, htaken⟩ := ParserState.taken_eq hs
  have hsettle := h.settle
  have hclean : ∀ u ∈ t :: rest, u.Clean L.Name := hahead ▸ hsettle.clean
  have hstock := s.taken.stock_openNode p l
  have hpending : s.taken.pendingFlags = none := by rw [htaken]; exact hsettle.pending
  rw [hpending, ParserState.tree_taken] at hstock
  have hext := (s.taken.keeps_openNode p l).extends
  rw [ParserState.tree_taken] at hext
  have hrest : (s.taken.openNode p l).2.stream.ahead = rest := by rw [ParserState.stream_openNode, htaken]; rfl
  refine ⟨by rw [ParserState.stream_openNode, htaken]; exact hsettle.unmarked, ParserState.pendingFlags_openNode _ p l, ?_,
    fun u hu => hclean u (List.mem_cons_of_mem t (hrest ▸ hu)), fun _ hfs => (nomatch hfs), hsettle.placed.grow hext hstock (.inl rfl),
    fun c hc => (hsettle.classes c hc).later hext⟩
  have hbalance := hsettle.balance
  rw [hahead, tokens, L.literal (hclean t List.mem_cons_self) hp] at hbalance
  rw [nodes_of_stock hstock, hrest, ← hbalance, due, List.append_nil, List.append_assoc]
  rfl

/-- A class is known once it is made. -/
theorem Kept.openClass (h : L.Even total loose classes (s.openNode p l).2) (hp : p.kind = .classBlock) :
    L.Even total loose ((s.openNode p l).1 :: classes) (s.openNode p l).2 :=
  ⟨h.unmarked, h.pending, h.balance, h.clean, h.named, h.placed,
    List.forall_mem_cons.2 ⟨⟨p, l, s.bears_openNode p l, hp⟩, h.classes⟩⟩

theorem Kept.forget_class {c : NodeId} (h : L.Kept total owed pending loose (c :: classes) s) : L.Kept total owed pending loose classes s :=
  ⟨h.unmarked, h.pending, h.balance, h.clean, h.named, h.placed, fun d hd => h.classes d (List.mem_cons_of_mem c hd)⟩

theorem Kept.loosen {loose' : List NodeId} (h : L.Kept total owed pending loose classes s) (hsub : loose ⊆ loose') :
    L.Kept total owed pending loose' classes s :=
  ⟨h.unmarked, h.pending, h.balance, h.clean, h.named, h.placed.mono hsub, h.classes⟩

theorem Kept.attach (h : L.Kept total owed pending loose classes s) (parent child : NodeId) (reattached : Bool) :
    L.Kept total owed pending loose classes { s with tree := s.tree.attach parent child, reattached := reattached } := by
  have hstock := s.tree.stock_attach parent child
  have hext := s.tree.extends_attach parent child
  refine ⟨h.unmarked, h.pending, ?_, h.clean, h.named, h.placed.later hext hstock, fun c hc => (h.classes c hc).later hext⟩
  rw [nodes_eq hstock]
  exact h.balance

/-- A member of a class is loose no more. -/
theorem Kept.attach_class {c i : NodeId} (h : L.Kept total owed pending (i :: loose) (c :: classes) s) (reattached : Bool) :
    L.Kept total owed pending loose (c :: classes) { s with tree := s.tree.attach c i, reattached := reattached } :=
  let h' := h.attach c i reattached
  ⟨h'.unmarked, h'.pending, h'.balance, h'.clean, h'.named, h.placed.attach (h.classes c List.mem_cons_self), h'.classes⟩

end Ledger

namespace Parser

variable {α β γ : Type} {L : Ledger γ} {total : List γ} {owed pending : Option (List String)} {fs : List String}
  {loose classes : List NodeId} {m : Parser α} {f : α → Parser β} {Q : β → ParserState → Prop}

/-! ## Operations -/

theorem kept_looks {p : Option Token → α} (hm : Looks m p) :
    Builds (L.Kept total owed pending loose classes) m (fun _ => L.Kept total owed pending loose classes) :=
  hm.builds (fun _ hs => hs.settle)

theorem kept_look_bind {p : Option Token → α} (hm : Looks m p)
    (hf : ∀ next, Builds (fun s => s.significant.head? = next ∧ L.Kept total owed pending loose classes s) (f (p next)) Q) :
    Builds (L.Kept total owed pending loose classes) (m >>= f) Q :=
  hm.builds_bind (fun _ hs => hs.settle) hf

theorem kept_probe {p : List Token → α} (hm : Probes m p) :
    Builds (L.Kept total owed pending loose classes) m (fun _ => L.Kept total owed pending loose classes) :=
  hm.builds (fun _ hs => hs.unmarked)

theorem kept_location : Builds (L.Kept total owed pending loose classes) location (fun _ => L.Kept total owed pending loose classes) :=
  location_builds (fun _ hs => hs.settle)

/-- The token that is next is taken, where it is known to be no at sign and no string. -/
theorem kept_take {next : Option Token} (hnext : ∀ t ∈ next, t.kind ≠ .atSign ∧ t.kind ≠ .stringLiteral) :
    Builds (fun s => s.significant.head? = next ∧ L.Kept total owed pending loose classes s) take
      (fun t u => L.Name t.text ∧ L.Kept total owed pending loose classes u) := by
  rintro s ⟨hhead, hs⟩
  cases hsig : s.significant with
  | nil =>
    obtain ⟨e, he, -⟩ := take_eq_error hsig
    exact (yields_of_eq_error he).2 trivial
  | cons t v =>
    obtain ⟨hat, hstring⟩ := hnext t (by rw [← hhead, hsig]; rfl)
    exact (yields_of_eq_ok (take_eq hsig)).2 (hs.taken hsig hat hstring)

theorem kept_expect {k : TokenKind} {what : String} (hk : k ≠ .atSign ∧ k ≠ .stringLiteral) :
    Builds (L.Kept total owed pending loose classes) (expect k what)
      (fun t u => L.Name t.text ∧ L.Kept total owed pending loose classes u) := by
  unfold expect
  refine kept_look_bind (looks_atKind k) (fun next => ?_)
  split
  · rename_i hnext
    exact kept_take (fun t ht => by rwa [kind_of_atKind hnext t ht])
  · exact builds_failFound

theorem kept_expectKeyword {word : Keyword} :
    Builds (L.Kept total owed pending loose classes) (expectKeyword word) (fun _ => L.Kept total owed pending loose classes) := by
  unfold expectKeyword
  refine kept_look_bind (looks_atKeyword word) (fun next => ?_)
  split
  · rename_i hnext
    exact (kept_take (fun t ht => by simp [Token.kind_of_keyword? (keyword_of_atKeyword hnext t ht)])).mono (fun _ _ hu => hu.2)
  · exact builds_failFound

theorem kept_identifier {what : String} : Builds (L.Kept total owed pending loose classes) (identifier what)
    (fun name u => L.Name name ∧ L.Kept total owed pending loose classes u) := by
  unfold identifier
  exact (kept_expect (by decide)).bind (fun t => builds_pure (fun _ hs => hs))

theorem kept_attach (parent child : NodeId) : Builds (L.Kept total owed pending loose classes) (attach parent child)
    (fun _ => L.Kept total owed pending loose classes) :=
  fun _ hs => hs.attach parent child _

theorem kept_nodeLocation (id : NodeId) : Builds (L.Kept total owed pending loose classes) (nodeLocation id)
    (fun _ => L.Kept total owed pending loose classes) :=
  nodeLocation_builds (fun _ hs => hs.settle) id

/-- Where no flags are due, a node has none. -/
theorem kept_openNode {p : Payload} (hp : p.Named L.Name) (l : Location) :
    Builds (L.Even total loose classes) (openNode p l) (fun _ => L.Even total loose classes) :=
  fun _ hs => hs.openNode hp (.inl rfl) l

/-- A message block that is made where flags wait takes them, and is loose. -/
theorem kept_openMessageBlock (l : Location) :
    Builds (L.Owing total fs loose classes) (openNode .messageBlock l) (fun block => L.Even total (block :: loose) classes) := by
  intro s hs
  have hloose := hs.loosen (List.subset_cons_self s.tree.size loose)
  have hmade := hloose.openNode (p := .messageBlock) trivial (.inr (.inr ⟨rfl, List.mem_cons_self⟩)) l
  have hid := s.fst_openNode .messageBlock l
  exact (yields_of_eq_ok (a := s.tree.size) (by rw [← hid]; rfl)).2 hmade

/-- A class is known once it is made. -/
theorem kept_openClass {p : Payload} (hp : p.Named L.Name) (hkind : p.kind = .classBlock) (l : Location) :
    Builds (L.Even total loose classes) (openNode p l) (fun node => L.Even total loose (node :: classes)) :=
  fun _ hs => (hs.openNode hp (.inl rfl) l).openClass hkind

/-- A loop whose rounds keep a property of what it carries. -/
theorem kept_while {G : α → Prop} {more : Parser Bool} {p : Option Token → Bool} {step : α → Parser α} (hm : Looks more p)
    (hstep : ∀ a next, p next = true → G a →
      Builds (fun s => s.significant.head? = next ∧ L.Kept total owed pending loose classes s) (step a)
        (fun a' t => G a' ∧ L.Kept total owed pending loose classes t)) {a : α} (ha : G a) :
    Builds (L.Kept total owed pending loose classes) (repeatWhile more step a)
      (fun a' t => G a' ∧ L.Kept total owed pending loose classes t) := by
  have hloop := builds_while (I := fun a t => G a ∧ L.Kept total owed pending loose classes t) hm (fun _ _ hs => ⟨hs.1, hs.2.settle⟩)
    (fun a next hp s ⟨hnext, hG, hs⟩ => hstep a next hp hG s ⟨hnext, hs⟩) a
  exact hloop.weaken (fun s hs => ⟨ha, hs⟩)

/-- A loop that carries nothing. -/
theorem kept_repeat {more : Parser Bool} {p : Option Token → Bool} {step : Unit → Parser Unit} (hm : Looks more p)
    (hstep : ∀ next, p next = true →
      Builds (fun s => s.significant.head? = next ∧ L.Kept total owed pending loose classes s) (step ())
      (fun _ => L.Kept total owed pending loose classes)) :
    Builds (L.Kept total owed pending loose classes) (repeatWhile more step ()) (fun _ => L.Kept total owed pending loose classes) :=
  builds_while (I := fun _ => L.Kept total owed pending loose classes) hm (fun _ _ hs => hs.settle) (fun _ next hp => hstep next hp) ()

end Parser

end Courier
