import Courier.Proofs.Syntax.Accepts
import Courier.Proofs.Syntax.Reads

/-!
# The grammar of flags

The production of flags is written down as `'@' ('[' flag (',' flag)* ']')?`. What it does is told by the tokens behind the at sign:
it takes as many as its own grammar goes on with, which also has the empty list and a comma behind the last flag. So it is held to the
written grammar exactly where no bracket closes behind nothing or behind a comma (`obeys_flags`).
-/

namespace Courier.Syntax

open Courier.Parser Courier.Grammar

/-! ## How far a form goes -/

/-- In front of the tokens `rest`, the run starts the form, and with the next token it does not. -/
def Furthest (f : Form Symbol) (w rest : List Token) : Prop :=
  Starts f w ∧ ∀ x ∈ rest.head?, ¬Starts f (w ++ [x])

/-- The parser goes as far as the form does: if that is a run of the form, the parser takes it, and otherwise it fails at the next
token. -/
def Obeys {α : Type} (f : Form Symbol) (m : Parser α) (s : ParserState) : Prop :=
  Yields m s
    (fun _ t => ∃ w, s.significant = w ++ t.significant ∧ Furthest f w t.significant ∧ Spells f w)
    (fun e _ => ∃ w rest, s.significant = w ++ rest ∧ Furthest f w rest ∧ ¬Spells f w ∧
      e.location = placeIn s.stream.source rest)

section

variable {f : Form Symbol} {w w' rest rest' : List Token}

theorem Starts.of_append {u : List Token} (h : Starts f (w ++ u)) : Starts f w := by
  obtain ⟨x, hx⟩ := h
  exact ⟨u ++ x, by rwa [← List.append_assoc]⟩

/-- No longer run of the same tokens starts the form. -/
theorem Furthest.length_le (h : Furthest f w rest) (h' : Furthest f w' rest') (hsame : w ++ rest = w' ++ rest') :
    w'.length ≤ w.length := by
  rcases List.append_eq_append_iff.1 hsame with ⟨y, rfl, rfl⟩ | ⟨y, rfl, -⟩
  · cases y with
    | nil => simp
    | cons x y =>
      have hstarts : Starts f ((w ++ [x]) ++ y) := by simpa using h'.1
      exact absurd hstarts.of_append (h.2 x rfl)
  · simp

theorem Furthest.unique (h : Furthest f w rest) (h' : Furthest f w' rest') (hsame : w ++ rest = w' ++ rest') : w = w' :=
  List.append_inj_left hsame (Nat.le_antisymm (h'.length_le h hsame.symm) (h.length_le h' hsame))

end

/-! ## What the production takes -/

/-- The token may name a flag. -/
def NamesFlag (t : Token) : Prop :=
  t.kind = .identifier ∨ t.kind = .keyword

/-- Flags with a comma behind each of them. -/
abbrev flagsBeforeCommas : Form Symbol :=
  .star (.seq (.symbol .flag) (.kind .comma))

/-- Tokens that begin with flags as the production takes them, and what it leaves of them. -/
inductive Flagged : List Token → List Token → Prop
  | bare {a : Token} {rest : List Token} (ha : a.kind = .atSign) (hrest : Unlike .leftBracket rest) : Flagged (a :: rest) rest
  | closed {a l r : Token} {p rest : List Token} (ha : a.kind = .atSign) (hl : l.kind = .leftBracket)
    (hp : Spells flagsBeforeCommas p) (hr : r.kind = .rightBracket) : Flagged (a :: l :: (p ++ r :: rest)) rest
  | named {a l t r : Token} {p rest : List Token} (ha : a.kind = .atSign) (hl : l.kind = .leftBracket)
    (hp : Spells flagsBeforeCommas p) (ht : NamesFlag t) (hr : r.kind = .rightBracket) :
    Flagged (a :: l :: (p ++ t :: r :: rest)) rest

/-- Tokens that the production fails on, and those from the place of its failure on. -/
inductive Broken : List Token → List Token → Prop
  | absent {v : List Token} (hv : Unlike .atSign v) : Broken v v
  | flag {a l : Token} {p rest : List Token} (ha : a.kind = .atSign) (hl : l.kind = .leftBracket)
    (hp : Spells flagsBeforeCommas p) (hrest : ∀ x ∈ rest.head?, ¬NamesFlag x ∧ x.kind ≠ .rightBracket) :
    Broken (a :: l :: (p ++ rest)) rest
  | separator {a l t : Token} {p rest : List Token} (ha : a.kind = .atSign) (hl : l.kind = .leftBracket)
    (hp : Spells flagsBeforeCommas p) (ht : NamesFlag t)
    (hrest : ∀ x ∈ rest.head?, x.kind ≠ .comma ∧ x.kind ≠ .rightBracket) : Broken (a :: l :: (p ++ t :: rest)) rest

/-! ## The run of the production -/

section

variable {v : List Token}

/-- What is granted to a failure that is located at the next token. -/
abbrev Located (P : List Token → Prop) : Blame :=
  fun fault v' => fault ≠ .unterminatedArray ∧ P v'

/-- A token that was seen is there. -/
theorem exists_cons_of_look {k : TokenKind} {o : Option Keyword}
    (h : (v.head?.map Token.kind, v.head?.bind Token.keyword?) = (some k, o)) : ∃ t v', v = t :: v' ∧ t.kind = k := by
  cases v with
  | nil => nomatch h
  | cons t v => exact ⟨t, v, rfl, Option.some.inj (Prod.mk.inj h).1⟩

/-- A kind that was not seen is not the next token's. -/
theorem unlike_of_look {k : TokenKind}
    (h : ∀ o, (v.head?.map Token.kind, v.head?.bind Token.keyword?) = (some k, o) → False) : Unlike k v := by
  cases v with
  | nil => exact fun t ht => nomatch ht
  | cons t v => exact unlike_cons.2 (fun ht => h t.keyword? (by rw [List.head?_cons, Option.map_some, ht]; rfl))

theorem leaves_flagName : Leaves (Located (fun v' => v' = v ∧ ∀ x ∈ v.head?, ¬NamesFlag x)) flagName v
    (fun v' => ∃ t, NamesFlag t ∧ v = t :: v') := by
  unfold flagName
  refine looks_look.leaves_bind ?_
  split
  · rename_i hlook
    obtain ⟨t, v', rfl, ht⟩ := exists_cons_of_look hlook
    exact leaves_take ⟨t, .inl ht, rfl⟩
  · rename_i hlook
    obtain ⟨t, v', rfl, ht⟩ := exists_cons_of_look hlook
    exact leaves_take ⟨t, .inr ht, rfl⟩
  · rename_i hidentifier hkeyword
    refine leaves_failFound (fun found => ⟨by simp, rfl, fun x hx hname => ?_⟩)
    exact hname.elim (unlike_of_look hidentifier x hx) (unlike_of_look hkeyword x hx)

theorem leaves_flagEnd (fs : List String) (name : Token) :
    Leaves (Located (fun v' => v' = v ∧ ∀ x ∈ v.head?, x.kind ≠ .comma ∧ x.kind ≠ .rightBracket)) (flagEnd fs name) v
      (fun v' => (∃ c, c.kind = .comma ∧ v = c :: v') ∨ v' = v ∧ Next .rightBracket v) := by
  unfold flagEnd
  refine looks_look.leaves_bind ?_
  split
  · rename_i hlook
    obtain ⟨c, v', rfl, hc⟩ := exists_cons_of_look hlook
    exact leaves_take_bind (leaves_pure (.inl ⟨c, hc, rfl⟩))
  · rename_i hlook
    obtain ⟨r, v', rfl, hr⟩ := exists_cons_of_look hlook
    exact leaves_pure (.inr ⟨rfl, next_cons.2 hr⟩)
  · rename_i hcomma hbracket
    exact leaves_failFound (fun found => ⟨by simp, rfl, fun x hx => ⟨unlike_of_look hcomma x hx, unlike_of_look hbracket x hx⟩⟩)

/-- The tokens end a list that was begun by some flags with commas, with one more flag in front of its bracket or without. -/
def Ends (v v' : List Token) : Prop :=
  ∃ p, Spells flagsBeforeCommas p ∧ (v = p ++ v' ∨ ∃ t, NamesFlag t ∧ Next .rightBracket v' ∧ v = p ++ t :: v')

/-- The tokens break a list, from the second ones on: no flag is next and no bracket, or a flag with neither a comma nor a bracket
behind it. -/
def Breaks (v v' : List Token) : Prop :=
  ∃ p, Spells flagsBeforeCommas p ∧
    (v = p ++ v' ∧ (∀ x ∈ v'.head?, ¬NamesFlag x ∧ x.kind ≠ .rightBracket) ∨
      ∃ t, NamesFlag t ∧ v = p ++ t :: v' ∧ ∀ x ∈ v'.head?, x.kind ≠ .comma ∧ x.kind ≠ .rightBracket)

theorem spells_flag {t : Token} (ht : NamesFlag t) : Spells (.symbol .flag) [t] :=
  .symbol (ht.elim (fun h => .left (.token h)) (fun h => .right (.token h)))

/-- A round of the loop over the flags, at a token that is no closing bracket. -/
theorem leaves_flagRound {v₁ : List Token} (hI : Ends v v₁) (hmore : Unlike .rightBracket v₁) (fs : List String) :
    Leaves (Located (Breaks v)) (flag fs) v₁ (fun v' => Ends v v' ∧ v'.length < v₁.length) := by
  obtain ⟨p, hp, hv⟩ := hI
  have hv : v = p ++ v₁ := hv.resolve_right (fun ⟨t, _, ⟨r, hr, hclosed⟩, _⟩ => hmore r hr hclosed)
  unfold flag
  refine Leaves.bind (Leaves.mono leaves_flagName (fun fault v' ⟨hfault, hhere, hnone⟩ => ?_) (fun _ h => h)) ?_
  · subst hhere
    exact ⟨hfault, p, hp, .inl ⟨hv, fun x hx => ⟨hnone x hx, hmore x hx⟩⟩⟩
  · rintro name v₂ ⟨t, ht, rfl⟩
    refine Leaves.mono (leaves_flagEnd fs name) (fun fault v' ⟨hfault, hhere, hnone⟩ => ?_) (fun v' hend => ?_)
    · subst hhere
      exact ⟨hfault, p, hp, .inr ⟨t, ht, hv, hnone⟩⟩
    · rcases hend with ⟨c, hc, rfl⟩ | ⟨rfl, hnext⟩
      · have hpair : Spells (.seq (.symbol .flag) (.kind .comma)) ([t] ++ [c]) := .seq (spells_flag ht) (.token hc)
        refine ⟨⟨p ++ [t, c], derives_star_append hp hpair, .inl (by simp [hv])⟩, ?_⟩
        simp only [List.length_cons]
        omega
      · exact ⟨⟨p, hp, .inr ⟨t, ht, hnext, hv⟩⟩, by simp⟩

theorem leaves_flagRounds : Leaves (Located (Breaks v)) (repeatWhile (not <$> atKind .rightBracket) flag []) v
    (fun v' => Ends v v' ∧ Next .rightBracket v') := by
  refine Leaves.mono (leaves_repeatWhile (Ends v) ((looks_atKind .rightBracket).map not) (fun fs v₁ hI hmore => ?_) []
    ⟨[], .starNil, .inl rfl⟩) (fun _ _ he => he) (fun v' ⟨hI, hclosed⟩ => ⟨hI, ?_⟩)
  · refine leaves_flagRound hI (fun x hx hclosed => ?_) fs
    rw [hx, Option.map_some, hclosed] at hmore
    nomatch hmore
  · cases v' with
    | nil => nomatch hclosed
    | cons r v' => exact next_cons.2 (by simpa using hclosed)

theorem leaves_flagPrefix : Leaves (Located (Broken v)) Grammar.flags v (Flagged v) := by
  unfold Grammar.flags
  by_cases hat : Next .atSign v
  · obtain ⟨a, v, rfl, ha⟩ := hat.exists_cons
    refine Leaves.bind (leaves_expect ha (S := (· = v)) rfl) (fun _ v₁ hv₁ => ?_)
    subst hv₁
    refine Leaves.bind (S := Flagged (a :: v₁)) ?_ (fun fs v' hv' => leaves_silent (silent_keepFlags fs) hv')
    unfold flagList
    refine (looks_atKind _).leaves_bind ?_
    split
    · rename_i hopened
      obtain ⟨l, v, rfl, hl⟩ : ∃ l v, v₁ = l :: v ∧ l.kind = .leftBracket := by
        cases v₁ with
        | nil => nomatch hopened
        | cons l v => exact ⟨l, v, rfl, by simpa using hopened⟩
      refine leaves_take_bind (Leaves.bind (Leaves.mono leaves_flagRounds (fun fault v' ⟨hfault, hbreaks⟩ => ⟨hfault, ?_⟩)
        (fun _ h => h)) ?_)
      · obtain ⟨p, hp, ⟨rfl, hnone⟩ | ⟨t, ht, rfl, hnone⟩⟩ := hbreaks
        · exact .flag ha hl hp hnone
        · exact .separator ha hl hp ht hnone
      · rintro fs v₂ ⟨⟨p, hp, hends⟩, hclosed⟩
        obtain ⟨r, v₃, rfl, hr⟩ := hclosed.exists_cons
        refine leaves_take_bind (leaves_pure ?_)
        rcases hends with rfl | ⟨t, ht, -, rfl⟩
        · exact .closed ha hl hp hr
        · exact .named ha hl hp ht hr
    · rename_i hother
      refine leaves_pure (.bare ha (fun x hx hopened => hother ?_))
      rw [hx, Option.map_some, hopened]
      rfl
  · have hunlike : Unlike .atSign v := fun x hx hkind => hat ⟨x, hx, hkind⟩
    refine Leaves.bind (S := fun _ => False) ?_ (fun _ _ h => h.elim)
    intro s _ hs
    obtain ⟨e, found, he, hfault, hplace⟩ := expect_eq_error (k := .atSign) (s := s) (hs ▸ hunlike) "'@'"
    exact (yields_of_eq_error he).2 ⟨v, .inr (hs ▸ hplace), by rw [hfault]; simp, .absent hunlike⟩

end

/-! ## The two grammars -/

/-- An at sign, and perhaps a bracket with the rest of a list behind it. -/
def flagPrefix (tail : Form Symbol) : Form Symbol :=
  .seq (.kind .atSign) (.opt (.seq (.kind .leftBracket) tail))

open Form in
/-- Flags as they are written down: `'@' ('[' flag (',' flag)* ']')?`. -/
def writtenFlags : Form Symbol :=
  .seq (kind .atSign) (opt (sequence [kind .leftBracket, commaList (.symbol .flag), kind .rightBracket]))

open Form in
/-- The tokens begin with flags whose bracket closes behind no flag: behind the opening bracket, or behind a comma. -/
def ClosesEarly (v : List Token) : Prop :=
  ∃ w rest, Spells (sequence [kind .atSign, kind .leftBracket, flagsBeforeCommas, kind .rightBracket]) w ∧ v = w ++ rest

/-- The form is the rest of a list of flags behind its opening bracket. If it is `early`, the list may close behind no flag. -/
def ListTail (early : Prop) (f : Form Symbol) : Prop :=
  ∀ v, Spells f v ↔ (early ∧ Spells (.kind .rightBracket) v) ∨ ∃ t v', NamesFlag t ∧ v = t :: v' ∧
    (Spells (.kind .rightBracket) v' ∨ ∃ c v'', c.kind = .comma ∧ v' = c :: v'' ∧ Spells f v'')

theorem listTail_written : ListTail False (.seq (.commaList (.symbol .flag)) (.kind .rightBracket)) := by
  intro v
  constructor
  · intro h
    obtain ⟨x, y, hx, hy, rfl⟩ := derives_seq.1 h
    obtain ⟨a, m, ha, hm, rfl⟩ := derives_seq.1 hx
    obtain ⟨t, ht, rfl⟩ := exists_of_flag ha
    obtain ⟨ws, hws, rfl⟩ := derives_star.1 hm
    refine .inr ⟨t, _, ht, rfl, ?_⟩
    cases ws with
    | nil => exact .inl hy
    | cons u ws =>
      obtain ⟨b, z, hb, hz, rfl⟩ := derives_seq.1 (hws u (by simp))
      obtain ⟨c, hc, rfl⟩ := derives_kind.1 hb
      refine .inr ⟨c, z ++ (ws.flatten ++ y), hc, by simp, ?_⟩
      rw [← List.append_assoc]
      exact .seq (.seq hz (derives_star.2 ⟨ws, fun u hu => hws u (by simp [hu]), rfl⟩)) hy
  · rintro (⟨hfalse, -⟩ | ⟨t, v', ht, rfl, hv' | ⟨c, v'', hc, rfl, hv''⟩⟩)
    · exact hfalse.elim
    · exact Derives.seq (v := [t]) (derives_seq.2 ⟨[t], [], spells_flag ht, .starNil, rfl⟩) hv'
    · obtain ⟨x, y, hx, hy, rfl⟩ := derives_seq.1 hv''
      obtain ⟨a, m, ha, hm, rfl⟩ := derives_seq.1 hx
      have hitem : Spells (.seq (.kind .comma) (.symbol .flag)) ([c] ++ a) := .seq (.token hc) ha
      have happend : t :: c :: (a ++ m ++ y) = ([t] ++ ([c] ++ a ++ m)) ++ y := by simp
      rw [happend]
      exact .seq (.seq (spells_flag ht) (.starCons hitem hm)) hy

theorem listTail_production : ListTail True (.seq (.opt (.sequence [.symbol .flag, .star (.seq (.kind .comma) (.symbol .flag)),
    .opt (.kind .comma)])) (.kind .rightBracket)) := by
  intro v
  constructor
  · intro h
    obtain ⟨x, y, hx, hy, rfl⟩ := derives_seq.1 h
    obtain ⟨p, q, hp, hq, rfl⟩ := derives_seq.1 (derives_trailing.1 hx)
    obtain ⟨ws, hws, rfl⟩ := derives_star.1 hp
    cases ws with
    | nil =>
      rcases derives_opt.1 hq with hq | rfl
      · obtain ⟨t, ht, rfl⟩ := exists_of_flag hq
        exact .inr ⟨t, y, ht, rfl, .inl hy⟩
      · exact .inl ⟨trivial, hy⟩
    | cons u ws =>
      obtain ⟨a, b, ha, hb, rfl⟩ := derives_seq.1 (hws u (by simp))
      obtain ⟨t, ht, rfl⟩ := exists_of_flag ha
      obtain ⟨c, hc, rfl⟩ := derives_kind.1 hb
      refine .inr ⟨t, c :: (ws.flatten ++ (q ++ y)), ht, by simp, .inr ⟨c, _, hc, rfl, ?_⟩⟩
      rw [← List.append_assoc]
      exact .seq (derives_trailing.2 (.seq (derives_star.2 ⟨ws, fun u hu => hws u (by simp [hu]), rfl⟩) hq)) hy
  · rintro (⟨-, hv⟩ | ⟨t, v', ht, rfl, hv' | ⟨c, v'', hc, rfl, hv''⟩⟩)
    · exact derives_seq.2 ⟨[], v, .right .empty, hv, rfl⟩
    · exact Derives.seq (v := [t]) (derives_trailing.2 (derives_seq.2 ⟨[], [t], .starNil, .left (spells_flag ht), rfl⟩)) hv'
    · obtain ⟨x, y, hx, hy, rfl⟩ := derives_seq.1 hv''
      obtain ⟨p, q, hp, hq, rfl⟩ := derives_seq.1 (derives_trailing.1 hx)
      have hpair : Spells (.seq (.symbol .flag) (.kind .comma)) ([t] ++ [c]) := .seq (spells_flag ht) (.token hc)
      have happend : t :: c :: (p ++ q ++ y) = (([t] ++ [c]) ++ p ++ q) ++ y := by simp
      rw [happend]
      exact .seq (derives_trailing.2 (.seq (.starCons hpair hp) hq)) hy

section

variable {early : Prop} {f : Form Symbol} {a l t r : Token} {p u rest : List Token}

theorem NamesFlag.ne {k : TokenKind} (ht : NamesFlag t) (hi : k ≠ .identifier) (hk : k ≠ .keyword) : t.kind ≠ k := by
  rcases ht with ht | ht
  · rw [ht]
    exact hi.symm
  · rw [ht]
    exact hk.symm

theorem spells_flagPrefix {w : List Token} : Spells (flagPrefix f) w ↔
    ∃ a : Token, a.kind = .atSign ∧ (w = [a] ∨ ∃ l u, l.kind = .leftBracket ∧ Spells f u ∧ w = a :: l :: u) := by
  constructor
  · intro h
    obtain ⟨x, y, hx, hy, rfl⟩ := derives_seq.1 h
    obtain ⟨a, ha, rfl⟩ := derives_kind.1 hx
    refine ⟨a, ha, ?_⟩
    rcases derives_opt.1 hy with hy | rfl
    · obtain ⟨z, u, hz, hu, rfl⟩ := derives_seq.1 hy
      obtain ⟨l, hl, rfl⟩ := derives_kind.1 hz
      exact .inr ⟨l, u, hl, hu, rfl⟩
    · exact .inl rfl
  · rintro ⟨a, ha, rfl | ⟨l, u, hl, hu, rfl⟩⟩
    · exact derives_seq.2 ⟨[a], [], .token ha, .right .empty, rfl⟩
    · exact Derives.seq (v := [a]) (.token ha) (.left (Derives.seq (v := [l]) (.token hl) hu))

/-- What may stand behind flags with commas is what may stand behind the opening bracket. -/
theorem ListTail.spells_append (hf : ListTail early f) (hp : Spells flagsBeforeCommas p) : Spells f (p ++ u) ↔ Spells f u := by
  obtain ⟨ws, hws, rfl⟩ := derives_star.1 hp
  clear hp
  induction ws with
  | nil => rfl
  | cons w ws ih =>
    obtain ⟨x, y, hx, hy, rfl⟩ := derives_seq.1 (hws w (by simp))
    obtain ⟨t, ht, rfl⟩ := exists_of_flag hx
    obtain ⟨c, hc, rfl⟩ := derives_kind.1 hy
    rw [← ih (fun w hw => hws w (by simp [hw])), hf]
    constructor
    · rintro (⟨-, hclosed⟩ | ⟨t', v', -, hv, hclosed | ⟨c', v'', -, hv', hv''⟩⟩)
      · obtain ⟨r, -, hr⟩ := derives_kind.1 hclosed
        simp at hr
      · obtain ⟨r, hr, rfl⟩ := derives_kind.1 hclosed
        obtain ⟨rfl, -⟩ : c = r ∧ _ := by simpa using (List.cons.inj hv).2
        rw [hc] at hr
        nomatch hr
      · obtain ⟨-, rfl⟩ : c = c' ∧ ws.flatten ++ u = v'' := by simpa [hv'] using (List.cons.inj hv).2
        exact hv''
    · intro h
      exact .inr ⟨t, c :: (ws.flatten ++ u), ht, by simp, .inr ⟨c, _, hc, rfl, h⟩⟩

theorem ListTail.spells_list (hf : ListTail early f) (ha : a.kind = .atSign) (hl : l.kind = .leftBracket)
    (hp : Spells flagsBeforeCommas p) : Spells (flagPrefix f) (a :: l :: (p ++ u)) ↔ Spells f u := by
  rw [spells_flagPrefix]
  constructor
  · rintro ⟨a', -, h | ⟨l', u', -, hu', h⟩⟩
    · nomatch h
    · obtain ⟨-, rfl⟩ := List.cons.inj (List.cons.inj h).2
      exact (hf.spells_append hp).1 hu'
  · exact fun hu => ⟨a, ha, .inr ⟨l, _, hl, (hf.spells_append hp).2 hu, rfl⟩⟩

theorem ListTail.starts_list (hf : ListTail early f) (ha : a.kind = .atSign) (hl : l.kind = .leftBracket)
    (hp : Spells flagsBeforeCommas p) : Starts (flagPrefix f) (a :: l :: (p ++ u)) ↔ Starts f u := by
  unfold Starts
  simp only [List.cons_append, List.append_assoc, hf.spells_list ha hl hp]

/-- A list goes on with a flag, and behind it with a bracket or with a comma and the rest of a list. -/
theorem ListTail.starts_cons (hf : ListTail early f) :
    Starts f (t :: u) ↔ (early ∧ t.kind = .rightBracket ∧ u = []) ∨ NamesFlag t ∧
      (u = [] ∨ ∃ c v, u = c :: v ∧ (c.kind = .rightBracket ∧ v = [] ∨ c.kind = .comma ∧ Starts f v)) := by
  constructor
  · rintro ⟨x, hx⟩
    rcases (hf _).1 hx with ⟨hearly, hclosed⟩ | ⟨t', v', ht, hv, hrest⟩
    · obtain ⟨r, hr, htr⟩ := derives_kind.1 hclosed
      obtain ⟨rfl, hnil⟩ := List.cons.inj htr
      exact .inl ⟨hearly, hr, (List.append_eq_nil_iff.1 hnil).1⟩
    · obtain ⟨rfl, rfl⟩ := List.cons.inj hv
      refine .inr ⟨ht, ?_⟩
      cases u with
      | nil => exact .inl rfl
      | cons c u =>
        refine .inr ⟨c, u, rfl, ?_⟩
        rcases hrest with hclosed | ⟨c', v, hc, hcv, hv⟩
        · obtain ⟨r, hr, hcr⟩ := derives_kind.1 hclosed
          obtain ⟨rfl, hnil⟩ := List.cons.inj hcr
          exact .inl ⟨hr, (List.append_eq_nil_iff.1 hnil).1⟩
        · obtain ⟨rfl, rfl⟩ := List.cons.inj hcv
          exact .inr ⟨hc, x, hv⟩
  · have hclose : ∀ r : Token, r.kind = .rightBracket → NamesFlag t → Spells f [t, r] := fun r hr ht =>
      (hf _).2 (.inr ⟨t, [r], ht, rfl, .inl (.token hr)⟩)
    rintro (⟨hearly, ht, rfl⟩ | ⟨ht, rfl | ⟨c, v, rfl, ⟨hc, rfl⟩ | ⟨hc, x, hx⟩⟩⟩)
    · exact starts_of_spells ((hf _).2 (.inl ⟨hearly, .token ht⟩))
    · exact ⟨[(Terminal.kind .rightBracket).sample], hclose _ rfl ht⟩
    · exact starts_of_spells (hclose c hc ht)
    · exact ⟨x, (hf _).2 (.inr ⟨t, c :: (v ++ x), ht, rfl, .inr ⟨c, v ++ x, hc, rfl, hx⟩⟩)⟩

theorem ListTail.not_spells_nil (hf : ListTail early f) : ¬Spells f [] := by
  intro h
  rcases (hf _).1 h with ⟨-, hclosed⟩ | ⟨t, v', -, hv, -⟩
  · obtain ⟨r, -, hr⟩ := derives_kind.1 hclosed
    nomatch hr
  · nomatch hv

/-- Behind flags with commas, the run goes on with a flag only, or with a bracket if the list may close early. -/
theorem ListTail.furthest_flag (hf : ListTail early f) (ha : a.kind = .atSign) (hl : l.kind = .leftBracket)
    (hp : Spells flagsBeforeCommas p) (hrest : ∀ x ∈ rest.head?, ¬NamesFlag x ∧ (early → x.kind ≠ .rightBracket)) :
    Furthest (flagPrefix f) (a :: l :: p) rest ∧ ¬Spells (flagPrefix f) (a :: l :: p) := by
  rw [← List.append_nil p]
  refine ⟨⟨(hf.starts_list ha hl hp).2 starts_nil, fun x hx hstarts => ?_⟩, fun hspells => ?_⟩
  · rw [List.cons_append, List.cons_append, List.append_assoc, hf.starts_list ha hl hp, List.nil_append, hf.starts_cons] at hstarts
    rcases hstarts with ⟨hearly, hclosed, -⟩ | ⟨hname, -⟩
    · exact (hrest x hx).2 hearly hclosed
    · exact (hrest x hx).1 hname
  · exact hf.not_spells_nil ((hf.spells_list ha hl hp).1 hspells)

/-- Behind a flag, the run goes on with a comma or a bracket only. -/
theorem ListTail.furthest_separator (hf : ListTail early f) (ha : a.kind = .atSign) (hl : l.kind = .leftBracket)
    (hp : Spells flagsBeforeCommas p) (ht : NamesFlag t) (hrest : ∀ x ∈ rest.head?, x.kind ≠ .comma ∧ x.kind ≠ .rightBracket) :
    Furthest (flagPrefix f) (a :: l :: (p ++ [t])) rest ∧ ¬Spells (flagPrefix f) (a :: l :: (p ++ [t])) := by
  refine ⟨⟨(hf.starts_list ha hl hp).2 (hf.starts_cons.2 (.inr ⟨ht, .inl rfl⟩)), fun x hx hstarts => ?_⟩, fun hspells => ?_⟩
  · rw [List.cons_append, List.cons_append, List.append_assoc, hf.starts_list ha hl hp, List.singleton_append,
      hf.starts_cons] at hstarts
    rcases hstarts with ⟨-, -, hnil⟩ | ⟨-, hnil | ⟨c, v, hcv, ⟨hc, -⟩ | ⟨hc, -⟩⟩⟩
    · nomatch hnil
    · nomatch hnil
    · exact (hrest x hx).2 ((List.cons.inj hcv).1 ▸ hc)
    · exact (hrest x hx).1 ((List.cons.inj hcv).1 ▸ hc)
  · rcases (hf _).1 ((hf.spells_list ha hl hp).1 hspells) with ⟨-, hclosed⟩ | ⟨t', v', -, hv, hclosed | ⟨c, v, -, hcv, -⟩⟩
    · obtain ⟨r, hr, htr⟩ := derives_kind.1 hclosed
      exact ht.ne (by decide) (by decide) ((List.cons.inj htr).1 ▸ hr)
    · obtain ⟨r, -, hr⟩ := derives_kind.1 hclosed
      rw [hr] at hv
      nomatch hv
    · rw [hcv] at hv
      nomatch hv

/-- Nothing goes on with a list behind its bracket. -/
theorem ListTail.furthest_closed (hf : ListTail early f) (ha : a.kind = .atSign) (hl : l.kind = .leftBracket)
    (hp : Spells flagsBeforeCommas p) (hu : Spells f u) (hend : ∀ x, ¬Starts f (u ++ [x])) :
    Furthest (flagPrefix f) (a :: l :: (p ++ u)) rest ∧ Spells (flagPrefix f) (a :: l :: (p ++ u)) := by
  have hspells := (hf.spells_list ha hl hp).2 hu
  refine ⟨⟨starts_of_spells hspells, fun x _ hstarts => hend x ?_⟩, hspells⟩
  rwa [List.cons_append, List.cons_append, List.append_assoc, hf.starts_list ha hl hp] at hstarts

theorem ListTail.furthest_early (hf : ListTail early f) (hearly : early) (ha : a.kind = .atSign) (hl : l.kind = .leftBracket)
    (hp : Spells flagsBeforeCommas p) (hr : r.kind = .rightBracket) :
    Furthest (flagPrefix f) (a :: l :: (p ++ [r])) rest ∧ Spells (flagPrefix f) (a :: l :: (p ++ [r])) := by
  refine hf.furthest_closed ha hl hp ((hf _).2 (.inl ⟨hearly, .token hr⟩)) (fun x hstarts => ?_)
  rcases hf.starts_cons.1 hstarts with ⟨-, -, hnil⟩ | ⟨hname, -⟩
  · nomatch hnil
  · exact hname.ne (by decide) (by decide) hr

theorem ListTail.furthest_named (hf : ListTail early f) (ha : a.kind = .atSign) (hl : l.kind = .leftBracket)
    (hp : Spells flagsBeforeCommas p) (ht : NamesFlag t) (hr : r.kind = .rightBracket) :
    Furthest (flagPrefix f) (a :: l :: (p ++ [t, r])) rest ∧ Spells (flagPrefix f) (a :: l :: (p ++ [t, r])) := by
  refine hf.furthest_closed ha hl hp ((hf _).2 (.inr ⟨t, [r], ht, rfl, .inl (.token hr)⟩)) (fun x hstarts => ?_)
  rcases hf.starts_cons.1 hstarts with ⟨-, -, hnil⟩ | ⟨-, hnil | ⟨c, v, hcv, ⟨-, rfl⟩ | ⟨hc, -⟩⟩⟩
  · nomatch hnil
  · nomatch hnil
  · nomatch hcv
  · rw [← (List.cons.inj hcv).1, hr] at hc
    nomatch hc

theorem furthest_bare (ha : a.kind = .atSign) (hrest : Unlike .leftBracket rest) :
    Furthest (flagPrefix f) [a] rest ∧ Spells (flagPrefix f) [a] := by
  have hspells : Spells (flagPrefix f) [a] := spells_flagPrefix.2 ⟨a, ha, .inl rfl⟩
  refine ⟨⟨starts_of_spells hspells, fun x hx ⟨u, hu⟩ => ?_⟩, hspells⟩
  obtain ⟨a', -, h | ⟨l, v, hl, -, h⟩⟩ := spells_flagPrefix.1 hu
  · nomatch h
  · exact hrest x hx ((List.cons.inj (List.cons.inj h).2).1 ▸ hl)

theorem furthest_absent (hv : Unlike .atSign rest) : Furthest (flagPrefix f) [] rest ∧ ¬Spells (flagPrefix f) [] := by
  refine ⟨⟨starts_nil, fun x hx ⟨u, hu⟩ => ?_⟩, fun hspells => ?_⟩
  · obtain ⟨a, ha, h | ⟨l, v, -, -, h⟩⟩ := spells_flagPrefix.1 hu
    · exact hv x hx ((List.cons.inj h).1 ▸ ha)
    · exact hv x hx ((List.cons.inj h).1 ▸ ha)
  · obtain ⟨a, -, h | ⟨l, v, -, -, h⟩⟩ := spells_flagPrefix.1 hspells
    · nomatch h
    · nomatch h

end

/-! ## The production and the grammars -/

section

variable {early : Prop} {f : Form Symbol} {v rest : List Token} {s : ParserState}

theorem closesEarly_iff : ClosesEarly v ↔ ∃ (a l r : Token) (p rest : List Token), a.kind = .atSign ∧ l.kind = .leftBracket ∧
    Spells flagsBeforeCommas p ∧ r.kind = .rightBracket ∧ v = a :: l :: (p ++ r :: rest) := by
  constructor
  · rintro ⟨w, rest, hw, rfl⟩
    obtain ⟨x, y, hx, hy, rfl⟩ := derives_seq.1 hw
    obtain ⟨z, q, hz, hq, rfl⟩ := derives_seq.1 hy
    obtain ⟨p, b, hp, hb, rfl⟩ := derives_seq.1 hq
    obtain ⟨a, ha, rfl⟩ := derives_kind.1 hx
    obtain ⟨l, hl, rfl⟩ := derives_kind.1 hz
    obtain ⟨r, hr, rfl⟩ := derives_kind.1 hb
    exact ⟨a, l, r, p, rest, ha, hl, hp, hr, by simp⟩
  · rintro ⟨a, l, r, p, rest, ha, hl, hp, hr, rfl⟩
    exact ⟨[a] ++ ([l] ++ (p ++ [r])), rest, .seq (.token ha) (.seq (.token hl) (.seq hp (.token hr))), by simp⟩

/-- The flags that the production takes are flags by either grammar, unless they close early and the grammar does not have it. -/
theorem ListTail.furthest_of_flagged (hf : ListTail early f) (h : Flagged v rest) (hearly : early ∨ ¬ClosesEarly v) :
    ∃ w, v = w ++ rest ∧ Furthest (flagPrefix f) w rest ∧ Spells (flagPrefix f) w := by
  cases h with
  | @bare a _ ha hrest => exact ⟨[a], rfl, furthest_bare ha hrest⟩
  | @closed a l r p _ ha hl hp hr =>
    have hearly : early := hearly.resolve_right (fun hnot => hnot (closesEarly_iff.2 ⟨a, l, r, p, rest, ha, hl, hp, hr, rfl⟩))
    exact ⟨a :: l :: (p ++ [r]), by simp, hf.furthest_early hearly ha hl hp hr⟩
  | @named a l t r p _ ha hl hp ht hr => exact ⟨a :: l :: (p ++ [t, r]), by simp, hf.furthest_named ha hl hp ht hr⟩

theorem ListTail.furthest_of_broken (hf : ListTail early f) (h : Broken v rest) :
    ∃ w, v = w ++ rest ∧ Furthest (flagPrefix f) w rest ∧ ¬Spells (flagPrefix f) w := by
  cases h with
  | absent hv => exact ⟨[], rfl, furthest_absent hv⟩
  | @flag a l p _ ha hl hp hrest =>
    exact ⟨a :: l :: p, rfl, hf.furthest_flag ha hl hp (fun x hx => ⟨(hrest x hx).1, fun _ => (hrest x hx).2⟩)⟩
  | @separator a l t p _ ha hl hp ht hrest => exact ⟨a :: l :: (p ++ [t]), by simp, hf.furthest_separator ha hl hp ht hrest⟩

theorem ListTail.obeys (hf : ListTail early f) (room : Nat) (hsaved : s.stream.saved = none)
    (hearly : early ∨ ¬ClosesEarly s.significant) : Obeys (flagPrefix f) (Rule.flags.parse (room + 1)) s := by
  have hrun : Leaves (Located (Broken s.significant)) (Rule.flags.parse (room + 1)) s.significant (Flagged s.significant) :=
    leaves_flagPrefix.guarded
  refine (hrun s hsaved rfl).mono (fun _ t ht => hf.furthest_of_flagged ht.2.2 hearly) (fun e _ he => ?_)
  obtain ⟨rest, hplace, hfault, hbroken⟩ := he
  obtain ⟨w, hsplit, hw, hnot⟩ := hf.furthest_of_broken hbroken
  exact ⟨w, rest, hsplit, hw, hnot, hplace.resolve_left hfault⟩

/-- Where the flags ahead close early, the written grammar ends in front of the bracket and the production behind it. -/
theorem not_obeys_of_closesEarly (room : Nat) (hsaved : s.stream.saved = none) (hcloses : ClosesEarly s.significant) :
    ¬Obeys writtenFlags (Rule.flags.parse (room + 1)) s := by
  intro hwritten
  have hown : Obeys (production .flags) (Rule.flags.parse (room + 1)) s := listTail_production.obeys room hsaved (.inl trivial)
  obtain ⟨a, l, r, p, rest, ha, hl, hp, hr, hv⟩ := closesEarly_iff.1 hcloses
  have hopen : Furthest writtenFlags (a :: l :: p) (r :: rest) ∧ ¬Spells writtenFlags (a :: l :: p) := by
    refine listTail_written.furthest_flag ha hl hp (fun x hx => ?_)
    obtain rfl : r = x := by simpa using hx
    exact ⟨fun hname => hname.ne (by decide) (by decide) hr, fun hfalse => hfalse.elim⟩
  have hclosed : Furthest (production .flags) (a :: l :: (p ++ [r])) rest ∧ Spells (production .flags) (a :: l :: (p ++ [r])) :=
    listTail_production.furthest_early trivial ha hl hp hr
  unfold Obeys Yields at hown hwritten
  split at hwritten
  · obtain ⟨w, hw, hfar, hspells⟩ := hwritten
    exact hopen.2 (hopen.1.unique hfar (by rw [← hw, hv]; rfl) ▸ hspells)
  · rename_i e t hrun
    rw [hrun] at hown
    obtain ⟨w, rest', hw, hfar, hspells, -⟩ := hown
    exact hspells (hclosed.1.unique hfar (by rw [← hw, hv]; simp) ▸ hclosed.2)

/-- The production of flags obeys its own grammar, with the empty list and a comma behind the last flag. The written grammar it obeys
unless the flags ahead close early. -/
theorem obeys_flags (room : Nat) (hsaved : s.stream.saved = none) :
    Obeys (production .flags) (Rule.flags.parse (room + 1)) s ∧
      (Obeys writtenFlags (Rule.flags.parse (room + 1)) s ↔ ¬ClosesEarly s.significant) :=
  ⟨listTail_production.obeys room hsaved (.inl trivial),
    fun hwritten hcloses => not_obeys_of_closesEarly room hsaved hcloses hwritten,
    fun hnot => listTail_written.obeys room hsaved (.inr hnot)⟩

end

/-- A name in front of a comma, and a name in front of the bracket: the flags do not close early. -/
theorem obeys_flags_pair : ∃ s : Stream, Stream.tokenize "unit" "@[inline, # both\n pure] \x7b \x7d" = .ok s ∧
    (ParserState.initial s true).stream.saved = none ∧ Obeys writtenFlags (Rule.flags.parse maxNesting) (.initial s true) := by
  obtain ⟨s, hs, hahead⟩ : ∃ s, Stream.tokenize "unit" "@[inline, # both\n pure] \x7b \x7d" = .ok s ∧
      (ParserState.initial s true).significant.map Token.kind = [.atSign, .leftBracket, .identifier, .comma, .identifier, .rightBracket,
        .leftBrace, .rightBrace] :=
    ⟨_, rfl, by decide +kernel⟩
  refine ⟨s, hs, rfl, (obeys_flags 255 rfl).2.2 (fun hcloses => ?_)⟩
  obtain ⟨a, l, r, p, rest, -, -, hp, hr, hv⟩ := closesEarly_iff.1 hcloses
  rw [hv] at hahead
  obtain ⟨ws, hws, rfl⟩ := derives_star.1 hp
  have hpair : ∀ w ∈ ws, ∃ t c : Token, w = [t, c] ∧ c.kind = .comma := fun w hw => by
    obtain ⟨x, y, hx, hy, rfl⟩ := derives_seq.1 (hws w hw)
    obtain ⟨t, -, rfl⟩ := exists_of_flag hx
    obtain ⟨c, hc, rfl⟩ := derives_kind.1 hy
    exact ⟨t, c, rfl, hc⟩
  rcases ws with _ | ⟨w, _ | ⟨w', ws⟩⟩
  · simp [hr] at hahead
  · obtain ⟨t, c, rfl, -⟩ := hpair w (by simp)
    simp [hr] at hahead
  · obtain ⟨t, c, rfl, -⟩ := hpair w (by simp)
    obtain ⟨t', c', rfl, hc'⟩ := hpair w' (by simp)
    simp [hc'] at hahead

/-- A comma in front of the bracket: the text parses, though the written grammar has no such flags. -/
theorem not_obeys_flags_comma : ∃ s tree, Stream.tokenize "unit" "@[a,] \x7b \x7d" = .ok s ∧ (s.parse true).1 = .ok tree ∧
    ¬Obeys writtenFlags (Rule.flags.parse maxNesting) (.initial s true) := by
  obtain ⟨s, hs, hahead, htree⟩ : ∃ s, Stream.tokenize "unit" "@[a,] \x7b \x7d" = .ok s ∧
      (ParserState.initial s true).significant = [⟨.atSign, "@", ⟨1, 1, 0⟩⟩, ⟨.leftBracket, "[", ⟨1, 2, 1⟩⟩, ⟨.identifier, "a", ⟨1, 3, 2⟩⟩,
        ⟨.comma, ",", ⟨1, 4, 3⟩⟩, ⟨.rightBracket, "]", ⟨1, 5, 4⟩⟩, ⟨.leftBrace, "\x7b", ⟨1, 7, 6⟩⟩, ⟨.rightBrace, "\x7d", ⟨1, 9, 8⟩⟩] ∧
      (s.parse true).1.toOption.isSome = true :=
    ⟨_, rfl, by decide +kernel, by decide +kernel⟩
  have hflags : Spells flagsBeforeCommas [⟨.identifier, "a", ⟨1, 3, 2⟩⟩, ⟨.comma, ",", ⟨1, 4, 3⟩⟩] :=
    derives_star_append .starNil (Derives.seq (v := [_]) (spells_flag (.inl rfl)) (.token (by decide)))
  have hcloses : ClosesEarly (ParserState.initial s true).significant :=
    closesEarly_iff.2 ⟨_, _, _, _, _, rfl, rfl, hflags, rfl, hahead⟩
  cases hparse : (s.parse true).1 with
  | error e =>
    rw [hparse] at htree
    nomatch htree
  | ok tree => exact ⟨s, tree, hs, hparse, not_obeys_of_closesEarly 255 rfl hcloses⟩

end Courier.Syntax
