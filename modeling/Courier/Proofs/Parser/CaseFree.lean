import Courier.Proofs.Lexical.Recased
import Courier.Proofs.Parser.Abreast
import Courier.Proofs.Parser.Flags
import Courier.Proofs.Parser.Parallel
import Courier.Proofs.Parser.Targets
import Mathlib.Data.List.Nodup

/-!
# The case of reserved words

Two texts that differ only in the case of reserved words outside lists of flags are parsed alike (`Stream.parse_of_recased`): where one parse
fails, the other does, at the same place, in the same constructs and with the same kind discarded, and where they succeed, their trees
are the same, but that an instance keeps its first token as it is written. So they are the same exactly if no `self` or `super` that an
instance begins with is respelled. The runs of both parses are coupled (`recasing`). What they see alike of a token is its kind and its
text, told in lower case if it is reserved (`Token.foldedSign`); the two productions that keep a text as it is written have proofs of
their own, `parallel_flags_recasing` and `parallel_inst_recasing`.
-/

namespace Courier

/-- The token stands in a list of flags: behind an at sign and a bracket, in front of the next bracket that closes. -/
def Token.IsFlag (ts : List Token) (t : Token) : Prop :=
  ∃ before sign opening items closing after, significant ts = before ++ sign :: opening :: (items ++ closing :: after) ∧
    sign.kind = .atSign ∧ opening.kind = .leftBracket ∧ closing.kind = .rightBracket ∧ (∀ u ∈ items, u.kind ≠ .rightBracket) ∧ t ∈ items

/-- The token is a keyword or a boolean literal, and no flag. -/
def Token.IsCaseless (ts : List Token) (t : Token) : Prop :=
  t.kind.isReserved = true ∧ ¬t.IsFlag ts

/-- The byte belongs to a keyword or a boolean literal that is no flag. -/
def Stream.CaselessAt (s : Stream) (i : Nat) : Prop :=
  ∃ t ∈ s.tokens, t.IsCaseless s.tokens ∧ t.Holds i

/-- What the nodes of two texts are made of: the same, at the same place, but that the name of an instance begins with the text of the
first token of the instance in either text. -/
inductive Renamed (ts ts' : List Token) : Matter
  | same {p : Payload} {l : Location} (hp : p.kind ≠ .inst) : Renamed ts ts' (p, l) (p, l)
  | inst {t t' : Token} {rest : String} (ht : t ∈ ts) (ht' : t' ∈ ts') (hl : t'.location = t.location) (hreceiver : t.IsReceiver) :
      Renamed ts ts' (.inst (t.text ++ rest) none, t.location) (.inst (t'.text ++ rest) none, t.location)

/-- In both texts the instances of the tree begin with the same. -/
def Tree.SameReceivers (ts ts' : List Token) (tree : Tree) : Prop :=
  ∀ i n t t', tree.node? i = some n → n.kind = .inst → t ∈ ts → t' ∈ ts' → t.location = n.location → t'.location = n.location →
    t'.text = t.text

/-- Two parses end alike but for the names of instances: the trees have the same nodes if and only if all instances begin with the same in
both texts, and failures are at the same place, in the same constructs and with the same kind discarded. -/
def Stream.ParsedRecased (s s' : Stream) : Except ParseError Tree → Except ParseError Tree → Prop
  | .ok tree, .ok tree' => tree.Related (Renamed s.tokens s'.tokens) tree' ∧
      (tree'.nodes = tree.nodes ↔ tree.SameReceivers s.tokens s'.tokens)
  | .error e, .error e' => e'.location = e.location ∧ e'.constructs = e.constructs ∧ e'.discarded = e.discarded
  | _, _ => False

/-- The kind and the text of a token, in lower case if the token is a reserved word. -/
def Token.foldedSign (t : Token) : TokenKind × String :=
  (t.kind, String.ofList t.folded.2)

theorem Renamed.location_eq {ts ts' : List Token} {m m' : Payload × Location} (h : Renamed ts ts' m m') : m'.2 = m.2 := by
  cases h <;> rfl

theorem kept_renamed (ts ts' : List Token) : Matter.Kept (Renamed ts ts') := by
  constructor
  · intro m m' h
    cases h <;> rfl
  · intro m m' h keep
    cases h with
    | @same p l hp =>
      refine .same ?_
      cases p with
      | message name value => exact nofun
      | inst name typeName => exact absurd rfl hp
      | _ => exact hp
    | inst ht ht' hl hreceiver => exact .inst ht ht' hl hreceiver

/-- What is renamed is the same if and only if it is no instance, or begins with the same in both texts. -/
theorem Renamed.eq_iff {ts ts' : List Token} {m m' : Payload × Location} (h : Renamed ts ts' m m')
    (huniq : ∀ t ∈ ts, ∀ u ∈ ts, t.location = u.location → t = u) (huniq' : ∀ t ∈ ts', ∀ u ∈ ts', t.location = u.location → t = u) :
    m' = m ↔ (m.1.kind = .inst → ∀ t t', t ∈ ts → t' ∈ ts' → t.location = m.2 → t'.location = m.2 → t'.text = t.text) := by
  cases h with
  | same hp => exact iff_of_true rfl (fun hkind => absurd hkind hp)
  | @inst t t' rest ht ht' hl hreceiver =>
    constructor
    · intro hsame _ u u' hu hu' hplace hplace'
      obtain rfl := huniq u hu t ht hplace
      obtain rfl := huniq' u' hu' t' ht' (hplace'.trans hl.symm)
      exact (String.append_left_inj rest).1 (Payload.inst.inj (Prod.mk.inj hsame).1).1
    · intro hsame
      rw [hsame rfl t t' ht ht' rfl hl]

/-- The nodes are equal if and only if the instances begin with the same in both texts. -/
theorem Tree.Related.nodes_eq_iff_sameReceivers {ts ts' : List Token} {tree tree' : Tree} (h : tree.Related (Renamed ts ts') tree')
    (huniq : ∀ t ∈ ts, ∀ u ∈ ts, t.location = u.location → t = u) (huniq' : ∀ t ∈ ts', ∀ u ∈ ts', t.location = u.location → t = u) :
    tree'.nodes = tree.nodes ↔ tree.SameReceivers ts ts' := by
  rw [h.nodes_eq_iff]
  constructor
  · intro hsame i n t t' hn hkind
    obtain ⟨n', hn', hnode⟩ := h.exists_node hn
    exact (hnode.made.eq_iff huniq huniq').1 (hsame i n n' hn hn') hkind t t'
  · intro hsame i n n' hn hn'
    exact ((h.node hn hn').made.eq_iff huniq huniq').2 (fun hkind t t' => hsame i n t t' hn hkind)

namespace Parser

open Courier.Grammar Courier.Syntax ParserState

variable {base base' : Stream} {s s' t t' : ParserState} {Γ : List Bond} {moves : Bool} {ts ts' : List Token}

/-! ## Tokens and nodes that correspond -/

/-- Tokens of the two streams that are the same but for the case of reserved words. -/
def Recased (base base' : Stream) (t t' : Token) : Prop :=
  t.Respelled (Token.IsCaseless base.tokens) t' ∧ t ∈ base.tokens ∧ t' ∈ base'.tokens

theorem Recased.kind_eq {t t' : Token} (h : Recased base base' t t') : t'.kind = t.kind :=
  h.1.kind

theorem Recased.foldedSign_eq {t t' : Token} (h : Recased base base' t t') : t.foldedSign = t'.foldedSign := by
  obtain ⟨h, -, -⟩ := h
  unfold Token.foldedSign Token.folded
  rw [h.kind]
  cases hreserved : t.kind.isReserved with
  | true => rw [if_pos rfl, if_pos rfl, h.lower]
  | false =>
    have hnot : ¬t.IsCaseless base.tokens := fun hcaseless => by rw [hcaseless.1] at hreserved; nomatch hreserved
    rw [if_neg (by decide), if_neg (by decide), h.text hnot]

theorem comparable_recased : Comparable (Recased base base') (Renamed base.tokens base'.tokens) := by
  refine ⟨Recased.kind_eq, fun {t t'} h hc => ?_⟩
  have hnot : ¬t.IsCaseless base.tokens := by
    rintro ⟨hreserved, -⟩
    cases hk : t.kind <;> simp [Token.isComment, TokenKind.isComment, TokenKind.isReserved, hk] at hc hreserved
  rw [h.1.text hnot, h.1.location]
  exact .same Kind.noConfusion

/-! ## The coupling -/

/-- The runs of the parses of two streams whose tokens are the same but for the case of reserved words. The world tells how many nodes
there are. -/
def recasing (base base' : Stream) : Coupling where
  World := Nat
  Later w w' := w ≤ w'
  State w s s' := Abreast base base' (Recased base base') (Renamed base.tokens base'.tokens) s s' ∧ s.tree.size = w ∧
    s.significant <:+ significant base.tokens
  Place _ l l' := l' = l
  Node w i i' := i' = i ∧ i < w
  Failed _ e t e' t' := (e'.location = e.location ∧ e'.constructs = e.constructs ∧ e'.discarded = e.discarded) ∧
    t.tree.Related (Renamed base.tokens base'.tokens) t'.tree
  sign := Token.foldedSign
  Fault _ _ := True
  Shared p := p.kind ≠ .inst

theorem recasing_onward {w : Nat} {bonds : List Bond} (h : Abreast base base' (Recased base base') (Renamed base.tokens base'.tokens) t t')
    (hnodes : w ≤ t.tree.size) (hahead : t.significant <:+ significant base.tokens)
    (hbonds : ∀ b ∈ bonds, (recasing base base').Holds t.tree.size b) : (recasing base base').Onward w t t' bonds :=
  ⟨t.tree.size, hnodes, ⟨h, rfl, hahead⟩, hbonds⟩

/-- Both parsers are at the same place, as both texts end at the same. -/
theorem here_recased (hend : base'.endLocation = base.endLocation)
    (h : Abreast base base' (Recased base base') (Renamed base.tokens base'.tokens) s s') : s'.here = s.here := by
  rcases h.here (fun _ _ => Recased.kind_eq) with ⟨t, t', ht, hl, hl'⟩ | ⟨-, hl, hl'⟩
  · rw [hl, hl', ht.1.location]
  · rw [hl, hl', hend]

/-- A node that is made of related payloads at one place. -/
theorem recasing_openNode {w : Nat} {p p' : Payload} {l : Location} (h : (recasing base base').State w s s')
    (hp : Renamed base.tokens base'.tokens (p, l) (p', l)) :
    (recasing base base').Onward w (s.openNode p l).2 (s'.openNode p' l).2 [.node (s.openNode p l).1 (s'.openNode p' l).1] := by
  obtain ⟨h, rfl, hahead⟩ := h
  have hkind : p'.kind = p.kind := (kept_renamed _ _).kind hp
  refine recasing_onward (h.openNode hkind hp) ?_ (by rwa [significant_openNode]) (fun b hb => ?_)
  · rw [size_openNode]
    exact Nat.le_succ _
  · obtain rfl := List.mem_singleton.1 hb
    refine ⟨?_, ?_⟩
    · rw [fst_openNode, fst_openNode, h.tree.size]
    · rw [fst_openNode, size_openNode]
      exact Nat.lt_succ_self _

theorem recasing_loose (hend : base'.endLocation = base.endLocation) : (recasing base base').Loose where
  refl w := Nat.le_refl w
  trans h h' := Nat.le_trans h h'
  place_later _ hl := hl
  node_later h hi := ⟨hi.1, Nat.lt_of_lt_of_le hi.2 h⟩
  owner_later h hi := ⟨hi.1, Nat.lt_of_lt_of_le hi.2 h⟩
  folded := by
    intro t t' h
    obtain ⟨hkind, htext⟩ := Prod.mk.inj h
    exact Prod.ext hkind (String.ofList_inj.1 htext)
  fault_refl _ := trivial
  fault_text _ _ := trivial
  unmarked h := h.1.saved
  signs h := map_eq_of_forall₂ (f := Token.foldedSign) (fun _ _ => Recased.foldedSign_eq) (h.1.significant (fun _ _ => Recased.kind_eq))
  settle := by
    rintro w s s' ⟨h, rfl, hahead⟩
    refine recasing_onward (h.settle comparable_recased) (size_le_settle s) (by rwa [significant_settle]) (fun b hb => ?_)
    obtain rfl := List.mem_singleton.1 hb
    exact here_recased hend h
  taken := by
    rintro w s s' t t' v v' ⟨h, rfl, hahead⟩ hs hs'
    have hrecased := h.significant (fun _ _ => Recased.kind_eq)
    rw [hs, hs'] at hrecased
    obtain ⟨hhead, -⟩ := List.forall₂_cons.1 hrecased
    refine recasing_onward (h.taken comparable_recased) ?_ ?_ (fun b hb => ?_)
    · rw [tree_taken]
      exact size_le_settle s
    · rw [hs] at hahead
      rw [significant_taken hs]
      exact (List.suffix_cons t v).trans hahead
    · obtain rfl := List.mem_singleton.1 hb
      exact hhead.1.location
  keepFlags h flags := ⟨_, Nat.le_refl _, ⟨{ h.1 with flags := rfl }, h.2.1, h.2.2⟩, fun _ hb => nomatch hb⟩
  enter h construct :=
    ⟨_, Nat.le_refl _, ⟨{ h.1 with constructs := congrArg (construct :: ·) h.1.constructs }, h.2.1, h.2.2⟩, fun _ hb => nomatch hb⟩
  leave h _ ht := ⟨_, Nat.le_refl _, ⟨h.1.leave ht.1, ht.2.1, ht.2.2⟩, fun _ hb => nomatch hb⟩
  failed_here h _ := ⟨⟨here_recased hend h.1, h.1.chain, rfl⟩, h.1.tree⟩
  failed_at h hl _ := ⟨⟨hl, h.1.chain, rfl⟩, h.1.tree⟩
  abandon := by
    rintro w w' s s' t t' e e' ⟨h, -, -⟩ - ⟨⟨hl, hconstructs, hdiscarded⟩, ht⟩
    have hsize : s'.tree.size = s.tree.size := h.tree.size
    obtain ⟨hfirst, hleft⟩ := ht.discardFrom (kept_renamed _ _) s.tree.size
    unfold ParserState.abandon ParserState.checkpoint
    rw [hsize]
    refine ⟨w, Nat.le_refl w, ⟨hl, hconstructs, ?_⟩, hleft⟩
    rw [ParseError.discarding, ParseError.discarding, hdiscarded, hfirst]
  shared h := h
  openNode := by
    rintro w s s' l l' p h rfl hp - -
    exact recasing_openNode h (.same hp)
  attach := by
    rintro w s s' i i' j j' ⟨h, hnodes, hahead⟩ ⟨rfl, -⟩ ⟨rfl, -⟩
    exact ⟨w, Nat.le_refl w, ⟨h.attached i' j', (Tree.size_attach _ _ _).trans hnodes, hahead⟩, fun _ hb => nomatch hb⟩
  owner _ hi _ := hi
  nodeLocation := by
    rintro w s s' i i' ⟨h, hnodes, -⟩ ⟨rfl, hlt⟩
    obtain ⟨n, hn⟩ := Tree.exists_node? (hnodes ▸ hlt : i' < s.tree.size)
    obtain ⟨n', hn', hnode⟩ := h.tree.exists_node hn
    exact ⟨n, n', hn, hn', hnode.made.location_eq⟩
  owner_of_node hi := hi

/-! ## Instances -/

/-- The texts of the tokens at the place. -/
def Heads (base base' : Stream) (l : Location) (a b : String) : Prop :=
  ∃ t t', (t ∈ base.tokens ∧ t' ∈ base'.tokens) ∧ (t.location = l ∧ t'.location = l) ∧ t.IsReceiver ∧ a = t.text ∧ b = t'.text

theorem parallel_openRenamed {p p' : Payload} {l l' : Location} (h : .place l l' ∈ Γ)
    (hp : Renamed base.tokens base'.tokens (p, l) (p', l)) :
    (recasing base base').Parallel false Γ (openNode p l) (openNode p' l') (fun i i' => [.node i i']) := by
  intro w s s' hs hΓ
  obtain rfl : l' = l := hΓ _ h
  exact .inl ⟨_, _, _, _, rfl, rfl, step_still (recasing_openNode hs hp) (constructs_openNode s p l') (constructs_openNode s' p' l')
    (significant_openNode s p l')⟩

section

variable (hend : base'.endLocation = base.endLocation)

include hend

theorem parallelFrom_instanceHead {l : Location} : (recasing base base').ParallelFrom (fun s => s.here = l) moves Γ instanceHead
    instanceHead (fun a b => [.plain (Heads base base' l a b)]) := by
  have hC := recasing_loose hend
  have htake : (recasing base base').Parallel moves Γ (do return (← take).text) (do return (← take).text) (fun _ _ => []) :=
    parallel_take.bind (fun _ _ => parallel_pure (by simp))
  have hhead : (recasing base base').Parallel moves Γ instanceHead instanceHead (fun _ _ => []) := by
    unfold instanceHead
    refine parallel_look.after_eq (fun next => ?_)
    split
    · exact htake
    · exact htake
    · exact htake
    · exact parallel_failFound
  exact hhead.from.also (by
    rintro w s s' ⟨h, -, -⟩ rfl a a' u u' ha ha'
    obtain ⟨-, -, t, ht, rfl, hreceiver⟩ := (makes_instanceHead s (.refl _) h.saved.1 rfl).ok ha
    obtain ⟨-, -, t', ht', rfl, -⟩ := (makes_instanceHead s' (.refl _) h.saved.2 rfl).ok ha'
    have hrecased := h.significant (fun _ _ => Recased.kind_eq)
    rw [ht, ht'] at hrecased
    obtain ⟨⟨hsame, hmem, hmem'⟩, -⟩ := List.forall₂_cons.1 hrecased
    have hhere : s.here = t.location := by rw [here_eq, ht]; rfl
    exact ⟨t, t', ⟨hmem, hmem'⟩, ⟨hhere.symm, hsame.location.trans hhere.symm⟩, hreceiver, rfl, rfl⟩)

theorem parallel_inst_recasing : (recasing base base').Parallel moves Γ Grammar.inst Grammar.inst (fun i j => [.node i j]) := by
  have hC := recasing_loose hend
  unfold Grammar.inst
  refine parallel_location_bind (fun l l' => ?_)
  refine (parallelFrom_instanceHead hend).bind (fun first first' => parallel_plain (fun hheads => ?_))
  refine (parallel_dottedRest_append _ first first').bind (fun name name' => parallel_plain (fun ⟨rest, hname, hname'⟩ => ?_))
  obtain ⟨t, t', ⟨ht, ht'⟩, ⟨rfl, hl'⟩, hreceiver, rfl, rfl⟩ := hheads
  subst hname hname'
  exact parallel_openRenamed (by simp) (.inst ht ht' hl' hreceiver)

end

/-! ## Flags -/

/-- Lists that are closed by the first bracket are made of tokens that correspond. -/
theorem forall₂_items {P : Token → Token → Prop} (hP : ∀ t t', P t t' → t'.kind = t.kind) {items items' u u' : List Token} {c c' : Token}
    (h : List.Forall₂ P (items ++ c :: u) (items' ++ c' :: u')) (hc : c.kind = .rightBracket) (hc' : c'.kind = .rightBracket)
    (hitems : ∀ t ∈ items, t.kind ≠ .rightBracket) (hitems' : ∀ t ∈ items', t.kind ≠ .rightBracket) : List.Forall₂ P items items' := by
  induction items generalizing items' with
  | nil =>
    cases items' with
    | nil => exact .nil
    | cons t' items' =>
      obtain ⟨hhead, -⟩ := List.forall₂_cons.1 h
      exact absurd ((hP _ _ hhead).trans hc) (hitems' t' List.mem_cons_self)
  | cons t items ih =>
    cases items' with
    | nil =>
      obtain ⟨hhead, -⟩ := List.forall₂_cons.1 h
      exact absurd ((hP _ _ hhead).symm.trans hc') (hitems t List.mem_cons_self)
    | cons t' items' =>
      obtain ⟨hhead, hrest⟩ := List.forall₂_cons.1 h
      exact .cons hhead (ih hrest (fun x hx => hitems x (List.mem_cons_of_mem t hx)) (fun x hx => hitems' x (List.mem_cons_of_mem t' hx)))

/-- Flags are not respelled. -/
theorem flagNames_eq {items items' : List Token} (h : List.Forall₂ (Recased base base') items items')
    (hflags : ∀ t ∈ items, t.IsFlag base.tokens) : flagNames items = flagNames items' := by
  induction h with
  | nil => rfl
  | @cons t t' items items' ht _ ih =>
    have htext : t'.text = t.text := ht.1.text (fun hcaseless => hcaseless.2 (hflags t List.mem_cons_self))
    have hrest := ih (fun u hu => hflags u (List.mem_cons_of_mem t hu))
    unfold flagNames at hrest ⊢
    rw [List.filter_cons, List.filter_cons, Token.isFlagName, Token.isFlagName, ht.kind_eq]
    split
    · rw [List.map_cons, List.map_cons, htext, hrest]
    · exact hrest

/-- Behind an at sign, both texts have the same flags. -/
theorem flags_eq_of_recased {v v' u u' : List Token} {fs fs' : List String} {before : List Token} {sign : Token}
    (hv : significant base.tokens = before ++ sign :: v) (hsign : sign.kind = .atSign) (h : List.Forall₂ (Recased base base') v v')
    (hfs : fs = [] ∧ v.head?.map Token.kind ≠ some .leftBracket ∨ ListsFlags v u fs)
    (hfs' : fs' = [] ∧ v'.head?.map Token.kind ≠ some .leftBracket ∨ ListsFlags v' u' fs') : fs = fs' := by
  have hhead : v.head?.map Token.kind = v'.head?.map Token.kind := by
    cases h with
    | nil => rfl
    | cons ht _ => exact congrArg some ht.kind_eq.symm
  rcases hfs with ⟨rfl, hnone⟩ | ⟨opening, items, closing, rfl, hopening, hclosing, hitems, rfl⟩
  · rcases hfs' with ⟨rfl, -⟩ | ⟨opening', items', closing', rfl, hopening', -⟩
    · rfl
    · exact absurd (hhead.trans (congrArg some hopening')) hnone
  · rcases hfs' with ⟨-, hnone⟩ | ⟨opening', items', closing', rfl, -, hclosing', hitems', rfl⟩
    · exact absurd (hhead.symm.trans (congrArg some hopening)) hnone
    · obtain ⟨-, hrest⟩ := List.forall₂_cons.1 h
      exact flagNames_eq (forall₂_items (fun _ _ => Recased.kind_eq) hrest hclosing hclosing' hitems hitems')
        (fun t ht => ⟨before, sign, opening, items, closing, u, hv, hsign, hopening, hclosing, hitems, ht⟩)

theorem parallel_flags_recasing (hend : base'.endLocation = base.endLocation) :
    (recasing base base').Parallel moves Γ flags flags (fun _ _ => []) := by
  have hC := recasing_loose hend
  have hlist : (recasing base base').Parallel moves Γ (expect .atSign "'@'" >>= fun _ => flagList)
      (expect .atSign "'@'" >>= fun _ => flagList) (fun _ _ => [.plain True]) :=
    parallel_expect.bind (fun _ _ => parallel_flagList trivial (fun _ _ _ _ _ _ => trivial))
  have hmakes : ∀ {T : Tree} {v : List Token}, Makes T v (expect .atSign "'@'" >>= fun _ => flagList) (fun fs v' _ =>
      ∃ sign w, v = sign :: w ∧ sign.kind = .atSign ∧ (fs = [] ∧ w.head?.map Token.kind ≠ some .leftBracket ∨ ListsFlags w v' fs)) := by
    intro T v
    refine makes_expect.bind (fun sign w T' _ ⟨hv, hsign⟩ => makes_flagList.mono (fun fs v' T'' _ hfs => ?_))
    exact ⟨sign, w, hv, hsign, hfs⟩
  have hsame := hlist.also (R := Eq) (by
    rintro w s s' ⟨h, -, before, hbefore⟩ fs fs' t t' ht ht'
    obtain ⟨-, -, sign, v, hv, hsign, hfs⟩ := (hmakes s (.refl _) h.saved.1 rfl).ok ht
    obtain ⟨-, -, sign', v', hv', -, hfs'⟩ := (hmakes s' (.refl _) h.saved.2 rfl).ok ht'
    have hrecased := h.significant (fun _ _ => Recased.kind_eq)
    rw [hv, hv'] at hrecased
    exact flags_eq_of_recased (by rw [← hbefore, hv]) hsign (List.forall₂_cons.1 hrecased).2 hfs hfs')
  have hwhole : flags = (expect .atSign "'@'" >>= fun _ => flagList) >>= keepFlags := (bind_assoc _ _ _).symm
  rw [hwhole]
  refine (hsame.weaken (fun w a b h c hc => ?_)).bind_eq (fun fs => parallel_keepFlags fs)
  obtain rfl := List.mem_singleton.1 hc
  exact h (.plain (a = b)) List.mem_cons_self

/-! ## Whole parses -/

theorem coupled_recasing (hend : base'.endLocation = base.endLocation) (room : Nat) :
    Inner.Coupled (recasing base base') ⟨fun rule => Rule.parse room rule⟩ := by
  have hC := recasing_loose hend
  exact coupled_parse_of (recasing base base') (fun _ _ => parallel_flags_recasing hend) (fun _ _ => parallel_inst_recasing hend)
    (fun _ _ ih => parallel_statements ih) room

/-- Within any room, two parses of streams whose tokens are the same but for the case of reserved words end alike. -/
theorem parseWithin_recased (hend : base'.endLocation = base.endLocation)
    (h : List.Forall₂ (Token.Respelled (Token.IsCaseless base.tokens)) base.tokens base'.tokens)
    (huniq : ∀ t ∈ base.tokens, ∀ u ∈ base.tokens, t.location = u.location → t = u)
    (huniq' : ∀ t ∈ base'.tokens, ∀ u ∈ base'.tokens, t.location = u.location → t = u) (room : Nat) (trace : Bool) :
    base.ParsedRecased base' (base.parseWithin room trace).1 (base'.parseWithin room trace).1 := by
  have hrecased : List.Forall₂ (Recased base base') base.tokens base'.tokens := by
    refine List.forall₂_iff_get.2 ⟨h.length_eq, fun k hk hk' => ⟨(List.forall₂_iff_get.1 h).2 k hk hk', ?_, ?_⟩⟩
    · exact List.get_mem _ _
    · exact List.get_mem _ _
  have hinitial : (recasing base base').State (0 : Nat) (.initial base trace) (.initial base' trace) :=
    ⟨abreast_initial hrecased trace, rfl, List.suffix_rfl⟩
  have hunit : (recasing base base').Parallel false [] (Rule.unit.parse room) (Rule.unit.parse room) (fun i j => [.node i j]) :=
    (coupled_recasing hend room).rule .unit trivial
  unfold Stream.parseWithin
  rcases hunit _ _ _ hinitial (by simp) with ⟨root, root', t, t', ht, ht', hstep⟩ | ⟨e, e', t, t', he, he', hfail⟩
  · obtain ⟨w, -, ⟨habreast, -, -⟩, hbonds⟩ := hstep.onward
    obtain ⟨rfl, -⟩ : root' = root ∧ root < w := hbonds (.node root root') List.mem_cons_self
    have hrelated := habreast.finish root'
    rw [ht, ht']
    exact ⟨hrelated, hrelated.nodes_eq_iff_sameReceivers huniq huniq'⟩
  · obtain ⟨-, -, halike, -⟩ := hfail
    rw [he, he']
    exact halike

end Parser

namespace Stream

open Courier.Parser

/-- The tokens of a text are told apart by their places. -/
theorem location_injective_of_tokenize {file text : String} {s : Stream} (hs : Stream.tokenize file text = .ok s) :
    ∀ t ∈ s.tokens, ∀ u ∈ s.tokens, t.location = u.location → t = u := by
  obtain ⟨-, -, -, hlaid⟩ := Stream.laid_of_tokenize hs
  have hnodup : (s.tokens.map Token.location).Nodup := List.pairwise_map.2 hlaid.pairwise_location_ne
  exact fun t ht u hu hlocation => List.inj_on_of_nodup_map hnodup ht hu hlocation

/-- Where there is no at sign, a reserved word may be put in another case. -/
theorem recased_of_word {s : Stream} {t : Token} (hsigns : s.tokens.all (fun u => u.kind != .atSign) = true)
    (ht : t ∈ s.tokens) (hreserved : t.kind.isReserved = true) (cs : List Char) {cs' : List Char}
    (hcs : cs'.map Char.toLower = t.text.toList.map Char.toLower) :
    Text.Recased s.CaselessAt t.spanStart (t.text.toList ++ cs) (cs' ++ cs) := by
  have hflag : ¬t.IsFlag s.tokens := by
    rintro ⟨before, sign, opening, items, closing, after, htokens, hsign, -⟩
    have hmem : sign ∈ significant s.tokens := by
      rw [htokens]
      exact List.mem_append_right before List.mem_cons_self
    have hnot := List.all_eq_true.1 hsigns sign (List.mem_filter.1 hmem).1
    rw [hsign] at hnot
    nomatch hnot
  exact .of_lower hcs (fun i hle hlt => ⟨t, ht, ⟨hreserved, hflag⟩, hle, hlt⟩) (.refl _ _ cs)

/-- A text that is recased in keywords and boolean literals outside of lists of flags is cut into tokens of the same kinds and spans, and is
parsed alike: if one text parses, the other does, and their trees are the same but for the instances that begin with a `self` or a
`super` that is respelled, so that the nodes are equal exactly if there is none; and failures are at the same place, in the same
constructs and with the same kind discarded. -/
theorem parse_of_recased {file text text' : String} {s : Stream} (hs : Stream.tokenize file text = .ok s)
    (htext : Text.Recased s.CaselessAt 0 text.toList text'.toList) (trace : Bool) :
    ∃ s', Stream.tokenize file text' = .ok s' ∧ s'.tokens.map Token.span = s.tokens.map Token.span ∧
      s.ParsedRecased s' (s.parse trace).1 (s'.parse trace).1 := by
  have hreserved : ∀ t : Token, t.IsCaseless s.tokens → t.kind = .keyword ∨ t.kind = .booleanLiteral := by
    rintro t ⟨hreserved, -⟩
    exact (Bool.or_eq_true_iff.1 hreserved).imp eq_of_beq eq_of_beq
  obtain ⟨s', hs', hall, hend⟩ := tokenize_recased hreserved hs (fun i hi => hi) htext
  have hspans := map_eq_of_forall₂ (f := Token.span) (fun _ _ ht => ht.span_eq.symm) hall
  refine ⟨s', hs', hspans.symm, ?_⟩
  exact parseWithin_recased hend hall (location_injective_of_tokenize hs) (location_injective_of_tokenize hs') maxNesting trace

theorem parse_of_recased_true : ∃ s s', Stream.tokenize "unit" "\x7b SELF.x + TRUE; \x7d" = .ok s ∧
    Text.Recased s.CaselessAt 0 "\x7b SELF.x + TRUE; \x7d".toList "\x7b SELF.x + true; \x7d".toList ∧
    Stream.tokenize "unit" "\x7b SELF.x + true; \x7d" = .ok s' ∧ s'.tokens.map Token.span = s.tokens.map Token.span ∧
    s.ParsedRecased s' (s.parse true).1 (s'.parse true).1 := by
  obtain ⟨s, hs⟩ := Stream.exists_tokenize "unit" "\x7b SELF.x + TRUE; \x7d" (by decide +kernel)
  have htokens : (Stream.tokenize "unit" "\x7b SELF.x + TRUE; \x7d").toOption.any (fun s =>
      s.tokens.contains ⟨.booleanLiteral, "TRUE", ⟨1, 12, 11⟩⟩ && s.tokens.all (fun u => u.kind != .atSign)) = true := by
    decide +kernel
  rw [hs] at htokens
  obtain ⟨htrue, hsigns⟩ := Bool.and_eq_true_iff.1 htokens
  have hlower : "true".toList.map Char.toLower = "TRUE".toList.map Char.toLower := rfl
  have hword := recased_of_word hsigns (List.contains_iff_mem.1 htrue) rfl "; \x7d".toList hlower
  have hrecased : Text.Recased s.CaselessAt 0 "\x7b SELF.x + TRUE; \x7d".toList "\x7b SELF.x + true; \x7d".toList :=
    .same (.same (.same (.same (.same (.same (.same (.same (.same (.same (.same hword))))))))))
  obtain ⟨s', hs', hspans, hparsed⟩ := parse_of_recased hs hrecased true
  exact ⟨s, s', hs, hrecased, hs', hspans, hparsed⟩

/-- A `self` in another case is an instance of another name. -/
theorem nodes_ne_of_recased_self : ∃ s s' tree tree', Stream.tokenize "unit" "\x7b self x; \x7d" = .ok s ∧
    Stream.tokenize "unit" "\x7b SELF x; \x7d" = .ok s' ∧
    Text.Recased s.CaselessAt 0 "\x7b self x; \x7d".toList "\x7b SELF x; \x7d".toList ∧
    (s.parse true).1 = .ok tree ∧ (s'.parse true).1 = .ok tree' ∧ tree'.nodes ≠ tree.nodes := by
  obtain ⟨s, tree, hs, htree, hname⟩ := exists_parse_eq "unit" "\x7b self x; \x7d" true (fun tree => tree.payload? 2)
    (a := some (.inst "self" none)) (by decide +kernel)
  obtain ⟨s', tree', hs', htree', hname'⟩ := exists_parse_eq "unit" "\x7b SELF x; \x7d" true (fun tree => tree.payload? 2)
    (a := some (.inst "SELF" none)) (by decide +kernel)
  have htokens : (Stream.tokenize "unit" "\x7b self x; \x7d").toOption.any (fun s =>
      s.tokens.contains ⟨.keyword, "self", ⟨1, 3, 2⟩⟩ && s.tokens.all (fun u => u.kind != .atSign)) = true := by
    decide +kernel
  rw [hs] at htokens
  obtain ⟨hself, hsigns⟩ := Bool.and_eq_true_iff.1 htokens
  have hlower : "SELF".toList.map Char.toLower = "self".toList.map Char.toLower := rfl
  have hword := recased_of_word hsigns (List.contains_iff_mem.1 hself) rfl " x; \x7d".toList hlower
  refine ⟨s, s', tree, tree', hs, hs', .same (.same hword), htree, htree', fun hnodes => ?_⟩
  have hpayload : tree'.payload? 2 = tree.payload? 2 := by rw [Tree.payload?, Tree.payload?, Tree.node?, Tree.node?, hnodes]
  rw [hname, hname'] at hpayload
  exact absurd hpayload (by decide)

end Stream

end Courier
