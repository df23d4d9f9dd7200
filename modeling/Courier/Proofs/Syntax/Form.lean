import Courier.Token.Basic
import Mathlib.Data.List.Basic

/-!
# Forms and derivations

A form is one side of a rule of a grammar over tokens: a class of tokens, a nonterminal, or forms in sequence, in choice or
repeated. `Derives` says which runs of tokens a form derives, given the rules of the nonterminals. One equivalence for each kind
of form takes a derivation apart and puts it together (`derives_seq`, `derives_alt`, `derives_star` and the others), so that no
later proof opens `Derives`.
-/

namespace Courier.Syntax

/-- A class of tokens that a grammar names: all tokens of a kind, or the tokens that are one keyword. -/
inductive Terminal where
  | kind (k : TokenKind)
  | word (k : Keyword)
  deriving DecidableEq, Repr

/-- The tokens of a class. -/
def Terminal.Matches : Terminal → Token → Prop
  | kind k, t => t.kind = k
  | word k, t => t.keyword? = some k

instance (c : Terminal) (t : Token) : Decidable (c.Matches t) :=
  match c with
  | .kind k => inferInstanceAs (Decidable (t.kind = k))
  | .word k => inferInstanceAs (Decidable (t.keyword? = some k))

/-- A form over the nonterminals `N`. -/
inductive Form (N : Type) where
  | empty
  | token (c : Terminal)
  | symbol (n : N)
  | seq (f g : Form N)
  | alt (f g : Form N)
  | star (f : Form N)

namespace Form

variable {N : Type}

/-- A token of a kind. -/
def kind (k : TokenKind) : Form N :=
  .token (.kind k)

/-- A keyword. -/
def word (k : Keyword) : Form N :=
  .token (.word k)

/-- The form, or nothing. -/
def opt (f : Form N) : Form N :=
  .alt f .empty

/-- One form behind the other. -/
def sequence : List (Form N) → Form N
  | [] => .empty
  | [f] => f
  | f :: g :: fs => .seq f (sequence (g :: fs))

/-- One of some forms. -/
def choice : List (Form N) → Form N
  | [] => .empty
  | [f] => f
  | f :: g :: fs => .alt f (choice (g :: fs))

/-- The form at least once. -/
def plus (f : Form N) : Form N :=
  .seq f (.star f)

/-- The form at least once, with commas between. -/
def commaList (f : Form N) : Form N :=
  .seq f (.star (.seq (kind .comma) f))

end Form

/-- The runs of tokens that a form derives under the rules of a grammar. -/
inductive Derives {N : Type} (rules : N → Form N) : Form N → List Token → Prop where
  | empty : Derives rules .empty []
  | token {c : Terminal} {t : Token} (h : c.Matches t) : Derives rules (.token c) [t]
  | symbol {n : N} {w : List Token} (h : Derives rules (rules n) w) : Derives rules (.symbol n) w
  | seq {f g : Form N} {v w : List Token} (hv : Derives rules f v) (hw : Derives rules g w) :
      Derives rules (.seq f g) (v ++ w)
  | left {f g : Form N} {w : List Token} (h : Derives rules f w) : Derives rules (.alt f g) w
  | right {f g : Form N} {w : List Token} (h : Derives rules g w) : Derives rules (.alt f g) w
  | starNil {f : Form N} : Derives rules (.star f) []
  | starCons {f : Form N} {v w : List Token} (hv : Derives rules f v) (hw : Derives rules (.star f) w) :
      Derives rules (.star f) (v ++ w)

section

variable {N : Type} {rules : N → Form N} {f g : Form N} {w : List Token}

@[simp] theorem derives_empty : Derives rules .empty w ↔ w = [] := by
  constructor
  · intro h
    cases h
    rfl
  · rintro rfl
    exact .empty

@[simp] theorem derives_token {c : Terminal} : Derives rules (.token c) w ↔ ∃ t, c.Matches t ∧ w = [t] := by
  constructor
  · intro h
    cases h with
    | token ht => exact ⟨_, ht, rfl⟩
  · rintro ⟨t, ht, rfl⟩
    exact .token ht

@[simp] theorem derives_kind {k : TokenKind} : Derives rules (.kind k) w ↔ ∃ t : Token, t.kind = k ∧ w = [t] :=
  derives_token

@[simp] theorem derives_word {k : Keyword} : Derives rules (.word k) w ↔ ∃ t : Token, t.keyword? = some k ∧ w = [t] :=
  derives_token

theorem derives_symbol {n : N} : Derives rules (.symbol n) w ↔ Derives rules (rules n) w := by
  constructor
  · intro h
    cases h with
    | symbol h => exact h
  · exact .symbol

@[simp] theorem derives_seq :
    Derives rules (.seq f g) w ↔ ∃ u v, Derives rules f u ∧ Derives rules g v ∧ w = u ++ v := by
  constructor
  · intro h
    cases h with
    | seq hu hv => exact ⟨_, _, hu, hv, rfl⟩
  · rintro ⟨u, v, hu, hv, rfl⟩
    exact .seq hu hv

@[simp] theorem derives_alt : Derives rules (.alt f g) w ↔ Derives rules f w ∨ Derives rules g w := by
  constructor
  · intro h
    cases h with
    | left h => exact .inl h
    | right h => exact .inr h
  · rintro (h | h)
    · exact .left h
    · exact .right h

@[simp] theorem derives_opt : Derives rules f.opt w ↔ Derives rules f w ∨ w = [] := by
  rw [Form.opt, derives_alt, derives_empty]

/-- A repeated form derives the runs that are made of runs of the form. -/
@[simp] theorem derives_star :
    Derives rules (.star f) w ↔ ∃ ws : List (List Token), (∀ u ∈ ws, Derives rules f u) ∧ w = ws.flatten := by
  constructor
  · intro h
    generalize hg : Form.star f = g at h
    induction h with
    | starNil => exact ⟨[], by simp, rfl⟩
    | starCons hv _ _ ih =>
      obtain ⟨ws, hws, rfl⟩ := ih hg
      cases hg
      exact ⟨_ :: ws, by simpa using ⟨hv, hws⟩, rfl⟩
    | _ => cases hg
  · rintro ⟨ws, hws, rfl⟩
    induction ws with
    | nil => exact .starNil
    | cons u ws ih =>
      rw [List.flatten_cons]
      exact .starCons (hws u (by simp)) (ih (fun v hv => hws v (by simp [hv])))

/-- One more run of the form goes on with a repetition. -/
theorem derives_star_append {v : List Token} (hv : Derives rules (.star f) v) (hw : Derives rules f w) :
    Derives rules (.star f) (v ++ w) := by
  obtain ⟨ws, hws, rfl⟩ := derives_star.1 hv
  refine derives_star.2 ⟨ws ++ [w], fun u hu => ?_, by rw [List.flatten_append, List.flatten_singleton]⟩
  rcases List.mem_append.1 hu with hu | hu
  · exact hws u hu
  · exact List.mem_singleton.1 hu ▸ hw

/-- Items that a separator follows, the last one perhaps not, are items with separators between them and perhaps one behind. -/
theorem derives_trailing {c : Form N} :
    Derives rules (.opt (.sequence [f, .star (.seq c f), .opt c])) w ↔ Derives rules (.seq (.star (.seq f c)) (.opt f)) w := by
  constructor
  · have hitems : ∀ (ws : List (List Token)) (a b : List Token), Derives rules f a → (∀ u ∈ ws, Derives rules (.seq c f) u) →
        Derives rules (.opt c) b → Derives rules (.seq (.star (.seq f c)) (.opt f)) (a ++ (ws.flatten ++ b)) := by
      intro ws
      induction ws with
      | nil =>
        intro a b ha _ hb
        rcases derives_opt.1 hb with hb | rfl
        · exact derives_seq.2 ⟨a ++ b, [], derives_star.2 ⟨[a ++ b], by simpa using ⟨a, ha, b, hb, rfl⟩, by simp⟩,
            .right .empty, by simp⟩
        · exact derives_seq.2 ⟨[], a, .starNil, .left ha, by simp⟩
      | cons u ws ih =>
        intro a b ha hws hb
        obtain ⟨x, a', hx, ha', rfl⟩ := derives_seq.1 (hws u (by simp))
        obtain ⟨y, z, hy, hz, hyz⟩ := derives_seq.1 (ih a' b ha' (fun t ht => hws t (by simp [ht])) hb)
        refine derives_seq.2 ⟨a ++ x ++ y, z, .starCons (.seq ha hx) hy, hz, ?_⟩
        simp only [List.flatten_cons, List.append_assoc, ← hyz]
    intro h
    rcases derives_opt.1 h with h | rfl
    · obtain ⟨a, r, ha, hr, rfl⟩ := derives_seq.1 h
      obtain ⟨m, b, hm, hb, rfl⟩ := derives_seq.1 hr
      obtain ⟨ws, hws, rfl⟩ := derives_star.1 hm
      exact hitems ws a b ha hws hb
    · exact derives_seq.2 ⟨[], [], .starNil, .right .empty, rfl⟩
  · intro h
    obtain ⟨a, b, ha, hb, rfl⟩ := derives_seq.1 h
    obtain ⟨ws, hws, rfl⟩ := derives_star.1 ha
    clear ha h
    induction ws with
    | nil =>
      rcases derives_opt.1 hb with hb | rfl
      · exact .left (derives_seq.2 ⟨b, [], hb, .seq .starNil (.right .empty), by simp⟩)
      · exact .right .empty
    | cons u ws ih =>
      obtain ⟨x, y, hx, hy, rfl⟩ := derives_seq.1 (hws u (by simp))
      rw [List.flatten_cons, List.append_assoc, List.append_assoc]
      rcases derives_opt.1 (ih (fun t ht => hws t (by simp [ht]))) with h | h
      · obtain ⟨a', r, ha', hr, hrest⟩ := derives_seq.1 h
        obtain ⟨m, z, hm, hz, rfl⟩ := derives_seq.1 hr
        refine .left (.seq hx (derives_seq.2 ⟨y ++ a' ++ m, z, .starCons (.seq hy ha') hm, hz, ?_⟩))
        rw [hrest]
        simp only [List.append_assoc]
      · rw [h, List.append_nil]
        exact .left (.seq hx (derives_seq.2 ⟨[], y, .starNil, .left hy, rfl⟩))

end

end Courier.Syntax
