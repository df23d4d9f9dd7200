import Courier.Proofs.Syntax.Grammar

/-!
# Arguments as chains

The grammar nests arguments: a parameter of a message is an argument with a message of its own, and a run of colons may be shared
out among the messages that are open in more than one way. A parser gives every colon to the innermost message. What stands behind
the first value of an argument is a chain all the same (`Chain`): values with operators or colons before them, up to a name with its
parameters. Every argument is a value and a chain (`exists_chain_of_argument`), and a chain says what is next whichever
derivation it came from.
-/

namespace Courier.Syntax

/-- What may stand behind the first value of an argument. Only where the argument is a parameter of a message itself, or where a
name went before, may a colon follow a value. -/
inductive Chain : Bool → List Token → Prop where
  | nil {inside : Bool} : Chain inside []
  | operator {inside : Bool} {t : Token} {p u : List Token} (ht : t.kind.isMessageOperator = true)
      (hp : Spells (.symbol .primary) p) (hu : Chain inside u) : Chain inside (t :: (p ++ u))
  | name {inside : Bool} {t : Token} {u : List Token} (ht : t.kind = .identifier) (hu : Chain true u)
      (hcolon : ∀ c ∈ u.head?, c.kind = .colon) : Chain inside (t :: u)
  | colon {c : Token} {p u : List Token} (hc : c.kind = .colon) (hp : Spells (.symbol .primary) p) (hu : Chain true u) :
      Chain true (c :: (p ++ u))

/-- The parameters of a message: nothing, or a colon, a value and a chain. -/
def Params (u : List Token) : Prop :=
  Chain true u ∧ ∀ c ∈ u.head?, c.kind = .colon

theorem params_nil : Params [] :=
  ⟨.nil, by simp⟩

/-- Parameters that are not all taken go on with a colon and a value. -/
theorem Params.eq_cons {c : Token} {v : List Token} (h : Params (c :: v)) :
    c.kind = .colon ∧ ∃ p u, v = p ++ u ∧ Spells (.symbol .primary) p ∧ Chain true u := by
  obtain ⟨h, hhead⟩ := h
  have hc : c.kind = .colon := hhead c (by simp)
  refine ⟨hc, ?_⟩
  cases h with
  | operator ht _ _ =>
    -- No operator is a colon.
    rw [hc] at ht
    nomatch ht
  | name ht _ _ =>
    rw [hc] at ht
    nomatch ht
  | colon _ hp hu => exact ⟨_, _, rfl, hp, hu⟩

/-- Further parameters may stand behind a chain. -/
theorem Chain.append_params {inside : Bool} {u v : List Token} (h : Chain inside u) (hv : Params v) : Chain true (u ++ v) := by
  induction h with
  | nil => exact hv.1
  | operator ht hp _ ih =>
    rw [List.cons_append, List.append_assoc]
    exact .operator ht hp ih
  | @name _ _ u ht _ hcolon ih =>
    refine .name ht ih ?_
    cases u with
    | nil => exact hv.2
    | cons c u => exact hcolon
  | colon hc hp _ ih =>
    rw [List.cons_append, List.append_assoc]
    exact .colon hc hp ih

theorem spells_operator {w : List Token} :
    Spells (.symbol .operator) w ↔ ∃ t : Token, t.kind.isMessageOperator = true ∧ w = [t] := by
  rw [spells_symbol]
  constructor
  · intro h
    simp only [production, Form.choice, derives_alt, derives_kind] at h
    rcases h with ⟨t, ht, rfl⟩ | ⟨t, ht, rfl⟩ | ⟨t, ht, rfl⟩ | ⟨t, ht, rfl⟩ | ⟨t, ht, rfl⟩ | ⟨t, ht, rfl⟩ <;>
      exact ⟨t, by rw [ht]; rfl, rfl⟩
  · rintro ⟨t, ht, rfl⟩
    simp only [production, Form.choice, derives_alt, derives_kind, List.cons.injEq, and_true, exists_eq_right']
    revert ht
    cases t.kind <;> decide

/-- Parameters are put together from the last to the first. -/
theorem params_flatten {ws : List (List Token)} (h : ∀ w ∈ ws, ∃ c p u, w = c :: (p ++ u) ∧ c.kind = .colon ∧
    Spells (.symbol .primary) p ∧ Chain false u) : Params ws.flatten := by
  induction ws with
  | nil => exact params_nil
  | cons w ws ih =>
    obtain ⟨c, p, u, rfl, hc, hp, hu⟩ := h w (by simp)
    have hrest : Params ws.flatten := ih (fun v hv => h v (by simp [hv]))
    rw [List.flatten_cons, List.cons_append, List.append_assoc]
    exact ⟨.colon hc hp (hu.append_params hrest), by simp [hc]⟩

/-- An argument is a value and a chain behind it, if the messages in it are chains. -/
theorem exists_chain_of_primary {w : List Token} (h : Spells (.symbol .argument) w)
    (hmessage : ∀ m, m.length < w.length → Spells (.symbol .message) m → Chain false m) :
    ∃ p u, w = p ++ u ∧ Spells (.symbol .primary) p ∧ Chain false u := by
  obtain ⟨p, m, hp, hm, rfl⟩ := derives_seq.1 (spells_symbol.1 h)
  have hpos := List.length_pos_iff.2 (begins_primary.ne_nil p hp)
  refine ⟨p, m, rfl, hp, ?_⟩
  rcases derives_opt.1 hm with hm | rfl
  · exact hmessage m (by rw [List.length_append]; omega) hm
  · exact .nil

/-- A message is a chain: one operator with what its argument is, or a name with its parameters. -/
theorem chain_of_message {m : List Token} (h : Spells (.symbol .message) m) : Chain false m := by
  induction hl : m.length using Nat.strongRecOn generalizing m with
  | _ l ih =>
    subst hl
    rcases derives_alt.1 (spells_symbol.1 h) with h | h
    · obtain ⟨x, y, hx, hy, rfl⟩ := derives_seq.1 h
      obtain ⟨t, ht, rfl⟩ := derives_kind.1 hx
      obtain ⟨ws, hws, rfl⟩ := derives_star.1 hy
      have hparams : Params ws.flatten := by
        refine params_flatten (fun v hv => ?_)
        have hlength : v.length ≤ ws.flatten.length := (List.sublist_flatten_of_mem hv).length_le
        obtain ⟨z, a, hz, ha, rfl⟩ := derives_seq.1 (hws v hv)
        obtain ⟨c, hc, rfl⟩ := derives_kind.1 hz
        rw [List.length_append, List.length_singleton] at ih hlength
        obtain ⟨q, u, rfl, hq, hu⟩ := exists_chain_of_primary ha (fun m hlt hm => ih m.length (by omega) hm rfl)
        exact ⟨c, q, u, rfl, hc, hq, hu⟩
      exact .name ht hparams.1 hparams.2
    · obtain ⟨o, a, ho, ha, rfl⟩ := derives_seq.1 h
      obtain ⟨t, ht, rfl⟩ := spells_operator.1 ho
      rw [List.length_append, List.length_singleton] at ih
      obtain ⟨q, u, rfl, hq, hu⟩ := exists_chain_of_primary ha (fun m hlt hm => ih m.length (by omega) hm rfl)
      exact Chain.operator (p := q) ht hq hu

/-- An argument is a value and a chain behind it. -/
theorem exists_chain_of_argument {w : List Token} (h : Spells (.symbol .argument) w) :
    ∃ p u, w = p ++ u ∧ Spells (.symbol .primary) p ∧ Chain false u :=
  exists_chain_of_primary h (fun _ _ hm => chain_of_message hm)

/-- A message does not begin with a colon. -/
theorem begins_message : Begins (fun t => t.kind ≠ .colon) (.symbol .message) := by
  have hname : Begins (fun t => t.kind ≠ .colon) (.kind .identifier) :=
    begins_kind.mono (fun t ht => by rw [ht]; decide)
  have hoperator : Begins (fun t => t.kind ≠ .colon) (.symbol .operator) := by
    intro w hw
    obtain ⟨t, ht, rfl⟩ := spells_operator.1 hw
    refine ⟨t, [], rfl, fun hcolon => ?_⟩
    rw [hcolon] at ht
    nomatch ht
  exact Begins.symbol (hname.seq.alt hoperator.seq)

end Courier.Syntax
