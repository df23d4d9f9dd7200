import Courier.Proofs.Syntax.Chain
import Courier.Proofs.Syntax.Takes

/-!
# Parsers that accept the runs of their forms

A production takes a run of its form if the tokens behind the run are none that it would go on with (`Rule.Precedes`) and there is
room enough. The room that a run needs is at most `Rule.need`: a production inside another one either takes a shorter run or has a
smaller rank. `Accepts` says this of the productions inside one, with the arguments told apart: an argument that is itself a
parameter takes a share of the chain behind it only.
-/

namespace Courier

namespace Syntax

/-! ## The next token -/

/-- The next token is of the kind. -/
def Next (k : TokenKind) (v : List Token) : Prop :=
  ∃ t ∈ v.head?, t.kind = k

/-- The next token, if there is one, is not of the kind. -/
def Unlike (k : TokenKind) (v : List Token) : Prop :=
  ∀ t ∈ v.head?, t.kind ≠ k

/-- An expression ends here: a semicolon or a closing parenthesis is next. -/
def Stops (v : List Token) : Prop :=
  Next .endOfStatement v ∨ Next .rightParen v

end Syntax

/-! ## What a run needs -/

/-- What may stand behind the form of a rule, as far as the parser looks at it. -/
def Rule.Precedes {α : Type} : Rule α → List Token → Prop
  | unit, v => v = []
  | flags, v => Syntax.Unlike .leftBracket v
  | statements, v => Syntax.Next .rightBrace v
  | messageDeclaration, v => Syntax.Next .leftBrace v
  | param, v | typeDeclaration, v | variableDefinition, v | inst, v => Syntax.Unlike .dot v
  | assignment, v | sendMessage _, v | message, v | argument, v => Syntax.Stops v
  | _, _ => True

/-- The rank of a rule is above that of every rule that its production may enter before it took a token. -/
def Rule.rank {α : Type} : Rule α → Nat
  | messageBlock | sendMessage _ | assignment | codeFragment => 1
  | expression | unit => 2
  | argument | statement => 3
  | statements => 4
  | _ => 0

/-- The number of nested productions that a run of some length needs at most, besides the rule's own. -/
def Rule.need {α : Type} (r : Rule α) (length : Nat) : Nat :=
  5 * length + r.rank

theorem Rule.rank_le {α : Type} (r : Rule α) : r.rank ≤ 4 := by
  cases r <;> simp [Rule.rank]

theorem Rule.need_mono {α : Type} (r : Rule α) {l l' : Nat} (h : l' ≤ l) : r.need l' ≤ r.need l := by
  unfold Rule.need
  omega

/-- There is room for a run of some length, whatever rule takes it. -/
def Fits (l n : Nat) : Prop :=
  5 * l + 4 < n

theorem Fits.mono {l l' n : Nat} (h : Fits l n) (hl : l' ≤ l) : Fits l' n := by
  unfold Fits at h ⊢
  omega

theorem Fits.need {α : Type} {r : Rule α} {l n : Nat} (h : Fits l n) : r.need l < n := by
  have hrank := r.rank_le
  unfold Fits at h
  unfold Rule.need
  omega

/-- A shorter run inside a production fits. -/
theorem Rule.fits {α : Type} {r : Rule α} {l l' n : Nat} (hn : r.need l ≤ n) (h : l' < l) : Fits l' n := by
  unfold Rule.need at hn
  unfold Fits
  omega

/-- A rule inside another one needs less if its rank is smaller. -/
theorem Rule.need_of_rank {α β : Type} {r : Rule α} {r' : Rule β} {l l' n : Nat} (hn : r.need l ≤ n)
    (hrank : r'.rank < r.rank) (h : l' ≤ l) : r'.need l' < n := by
  unfold Rule.need at hn ⊢
  omega

namespace Syntax

open Courier.Parser Courier.Grammar

section

variable {t : Token} {v : List Token} {k j : TokenKind} {c : Keyword}

@[simp] theorem next_cons : Next k (t :: v) ↔ t.kind = k := by
  simp [Next]

@[simp] theorem unlike_cons : Unlike k (t :: v) ↔ t.kind ≠ k := by
  simp [Unlike]

theorem Next.unlike (h : Next k v) (hk : k ≠ j) : Unlike j v := by
  obtain ⟨t, ht, rfl⟩ := h
  intro u hu
  rw [Option.mem_unique hu ht]
  exact hk

theorem Next.atKind (h : Next k v) : (v.head?.map Token.kind == some k) = true := by
  obtain ⟨t, ht, rfl⟩ := h
  rw [ht]
  simp

theorem Unlike.atKind (h : Unlike k v) : (v.head?.map Token.kind == some k) = false := by
  cases v with
  | nil => rfl
  | cons t v => simpa using h

theorem Next.exists_cons (h : Next k v) : ∃ t v', v = t :: v' ∧ t.kind = k := by
  obtain ⟨t, ht, hk⟩ := h
  cases v with
  | nil => nomatch ht
  | cons u v => exact ⟨u, v, rfl, by rw [Option.some.inj ht]; exact hk⟩

/-- A block ends before a closing brace. -/
theorem Next.inBlock (h : Next .rightBrace v) : (v.head?.map Token.kind != some .rightBrace && v.head?.isSome) = false := by
  obtain ⟨t, v, rfl, ht⟩ := h.exists_cons
  simp [ht]

theorem atKeyword_cons (h : t.keyword? = some c) : ((t :: v).head?.bind Token.keyword? == some c) = true := by
  simp [h]

theorem atKeyword_cons_of_kind (h : t.kind ≠ .keyword) : ((t :: v).head?.bind Token.keyword? == some c) = false := by
  simp [Token.keyword?_eq_none h]

/-- A look at a token that is no keyword. -/
theorem look_kind (h : t.kind = k) (hk : k ≠ .keyword) :
    ((t :: v).head?.map Token.kind, (t :: v).head?.bind Token.keyword?) = (some k, none) := by
  subst h
  simp [Token.keyword?_eq_none hk]

/-- A look at a keyword. -/
theorem look_word (h : t.keyword? = some c) :
    ((t :: v).head?.map Token.kind, (t :: v).head?.bind Token.keyword?) = (some .keyword, some c) := by
  simp [h, Token.kind_of_keyword? h]

end

/-! ## Names ahead -/

section

variable {w rest : List Token}

theorem spells_typeName : Spells (.symbol .typeName) w ↔ ∃ (t : Token) (d : List Token), t.kind = .identifier ∧
    Spells dottedRest d ∧ w = t :: d := by
  rw [spells_symbol]
  constructor
  · intro h
    obtain ⟨x, d, hx, hd, rfl⟩ := derives_seq.1 h
    obtain ⟨t, ht, rfl⟩ := derives_kind.1 hx
    exact ⟨t, d, ht, hd, rfl⟩
  · rintro ⟨t, d, ht, hd, rfl⟩
    exact Derives.seq (v := [t]) (.token ht) hd

theorem spells_typedName : Spells typedName w ↔ ∃ (t c : Token) (y : List Token), t.kind = .identifier ∧ c.kind = .colon ∧
    Spells (.symbol .typeName) y ∧ w = t :: c :: y := by
  constructor
  · intro h
    obtain ⟨x, z, hx, hz, rfl⟩ := derives_seq.1 h
    obtain ⟨u, y, hu, hy, rfl⟩ := derives_seq.1 hz
    obtain ⟨t, ht, rfl⟩ := derives_kind.1 hx
    obtain ⟨c, hc, rfl⟩ := derives_kind.1 hu
    exact ⟨t, c, y, ht, hc, hy, rfl⟩
  · rintro ⟨t, c, y, ht, hc, hy, rfl⟩
    exact Derives.seq (v := [t]) (.token ht) (Derives.seq (v := [c]) (.token hc) hy)

/-- A name without a colon behind it is no name with a type. -/
theorem behindKinds_name_colon {t : Token} {v : List Token} (ht : t.kind = .identifier) (hv : Unlike .colon v) :
    (Scan.behindKinds [.identifier, .colon] (t :: v)).isSome = false := by
  rw [Scan.behindKinds, if_pos ht]
  cases v with
  | nil => rfl
  | cons c v => rw [Scan.behindKinds, if_neg (unlike_cons.1 hv)]; rfl

theorem behindDots_append (hw : Spells dottedRest w) (hrest : Unlike .dot rest) :
    Scan.behindDots (w ++ rest) = some rest := by
  obtain ⟨ws, hws, rfl⟩ := derives_star.1 hw
  clear hw
  induction ws with
  | nil =>
    rw [List.flatten_nil, List.nil_append, Scan.behindDots_eq, if_neg]
    simpa using hrest.atKind
  | cons u ws ih =>
    obtain ⟨x, y, hx, hy, rfl⟩ := derives_seq.1 (hws u (by simp))
    obtain ⟨d, hd, rfl⟩ := derives_kind.1 hx
    obtain ⟨t, ht, rfl⟩ := derives_kind.1 hy
    have hcons : (([d] ++ [t]) :: ws).flatten ++ rest = d :: t :: (ws.flatten ++ rest) := by simp
    rw [hcons, Scan.behindDots, if_pos hd, if_pos ht]
    exact ih (fun v hv => hws v (by simp [hv]))

/-- A scan passes a dotted name whole. -/
theorem behindName_append (hw : Spells (.symbol .typeName) w) (hrest : Unlike .dot rest) :
    Scan.behindName (w ++ rest) = some rest := by
  obtain ⟨t, d, ht, hd, rfl⟩ := spells_typeName.1 hw
  rw [Scan.behindName, List.cons_append, Scan.behindKinds, if_pos ht]
  exact behindDots_append hd hrest

end

/-! ## Parsers inside a production -/

/-- What is left of a chain once an argument took its share: the parameters of a message further out, or nothing if there is none. -/
def Remains (inside : Bool) (u rest v : List Token) : Prop :=
  ∃ u', Params u' ∧ u'.length ≤ u.length ∧ (inside = false → u' = []) ∧ v = u' ++ rest

theorem remains_nil {inside : Bool} {u rest : List Token} : Remains inside u rest rest :=
  ⟨[], params_nil, Nat.zero_le _, fun _ => rfl, rfl⟩

theorem Remains.mono {inside : Bool} {u u' rest v : List Token} (h : Remains inside u rest v) (hl : u.length ≤ u'.length) :
    Remains inside u' rest v := by
  obtain ⟨x, hx, hlength, hinside, hv⟩ := h
  exact ⟨x, hx, Nat.le_trans hlength hl, hinside, hv⟩

theorem Remains.eq {u rest v : List Token} (h : Remains false u rest v) : v = rest := by
  obtain ⟨x, -, -, hinside, hv⟩ := h
  rw [hv, hinside rfl, List.nil_append]

/-- A return with a value, or a bare one with a semicolon behind it. -/
def ReturnBefore (w rest : List Token) : Prop :=
  Spells (.seq (.word .returnWord) (.symbol .argument)) w ∨ (Spells (.word .returnWord) w ∧ Next .endOfStatement rest)

/-- The parsers inside a production take the runs of their forms that need less than `n`, and fail only as `E` grants. -/
structure Accepts (E : Blame) (n : Nat) (inner : Inner) : Prop where
  form {α : Type} {r : Rule α} {f : Form Symbol} {w v : List Token} (hf : r.form? = some f) (hw : Spells f w)
    (hv : r.Precedes v) (hn : r.need w.length < n) : Takes E (inner.parse r) w v
  /-- An argument that begins with a value takes its share of the chain behind it. -/
  value {r : Rule NodeId} (hr : r = .argument ∨ r = .expression) {inside : Bool} {p u rest : List Token}
    (hp : Spells (.symbol .primary) p) (hu : Chain inside u) (hrest : Stops rest) (hn : r.need (p ++ u).length < n) :
    Leaves E (inner.parse r) (p ++ (u ++ rest)) (Remains inside u rest)
  /-- A message takes its share of the chain that it begins. -/
  sent {r : Rule NodeId} (hr : r = .message ∨ ∃ id, r = .sendMessage id) {inside : Bool} {t : Token} {u rest : List Token}
    (ht : t.kind ≠ .colon) (hu : Chain inside (t :: u)) (hrest : Stops rest) (hn : r.need (t :: u).length < n) :
    Leaves E (inner.parse r) (t :: (u ++ rest)) (Remains inside u rest)
  returned {r : Rule NodeId} (hr : r = .expression ∨ r = .returnExpression) {w rest : List Token} (hw : ReturnBefore w rest)
    (hrest : Stops rest) (hn : r.need w.length < n) : Takes E (inner.parse r) w rest

/-- An expression in front of what ends it is taken whole. -/
theorem Accepts.expression {E : Blame} {n : Nat} {inner : Inner} (h : Accepts E n inner) {w rest : List Token}
    (hw : ExpressionBefore w rest) (hrest : Stops rest) (hn : Rule.expression.need w.length < n) :
    Takes E (inner.parse .expression) w rest := by
  rcases hw with hw | hw
  · rcases derives_alt.1 (spells_symbol.1 hw) with hw | hw
    · exact h.returned (.inl rfl) (.inl hw) hrest hn
    · obtain ⟨p, u, rfl, hp, hu⟩ := exists_chain_of_argument hw
      unfold Takes
      rw [List.append_assoc]
      exact Leaves.mono (h.value (.inr rfl) hp hu hrest hn) (fun _ _ he => he) (fun _ hv => hv.eq)
  · exact h.returned (.inl rfl) (.inr hw) hrest hn

end Syntax

end Courier
