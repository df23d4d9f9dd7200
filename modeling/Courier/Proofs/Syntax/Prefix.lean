import Courier.Proofs.Syntax.Grammar

/-!
# Prefixes of sentences

A run of tokens starts a form if some tokens behind it make it a run that the form derives (`Starts`). Every form of the grammar of
units derives some run (`exists_spells`), so whatever starts the first of two forms in sequence starts the sequence. No run that a
symbol derives holds a comment (`isComment_of_spells`).
-/

namespace Courier.Syntax

/-! ## Every form derives a run -/

/-- A token of the class, at no particular place. -/
def Terminal.sample : Terminal → Token
  | kind k => ⟨k, "", default⟩
  | word k => ⟨.keyword, k.text, default⟩

theorem Terminal.matches_sample (c : Terminal) : c.Matches c.sample := by
  cases c with
  | kind k => exact rfl
  | word k => cases k <;> decide

/-- The form derives some run of tokens. -/
def Productive (f : Form Symbol) : Prop :=
  ∃ w, Spells f w

section

variable {f g : Form Symbol}

theorem productive_token {c : Terminal} : Productive (.token c) :=
  ⟨[c.sample], .token c.matches_sample⟩

theorem productive_star : Productive (.star f) :=
  ⟨[], .starNil⟩

theorem productive_opt : Productive f.opt :=
  ⟨[], .right .empty⟩

theorem Productive.seq (hf : Productive f) (hg : Productive g) : Productive (.seq f g) := by
  obtain ⟨w, hw⟩ := hf
  obtain ⟨u, hu⟩ := hg
  exact ⟨w ++ u, .seq hw hu⟩

theorem Productive.left (hf : Productive f) : Productive (.alt f g) := by
  obtain ⟨w, hw⟩ := hf
  exact ⟨w, .left hw⟩

theorem Productive.right (hg : Productive g) : Productive (.alt f g) := by
  obtain ⟨w, hw⟩ := hg
  exact ⟨w, .right hw⟩

theorem Productive.symbol {n : Symbol} (h : Productive (production n)) : Productive (.symbol n) := by
  obtain ⟨w, hw⟩ := h
  exact ⟨w, .symbol hw⟩

/-- No symbol is useless: the smallest runs are put together from the literals outwards. -/
theorem productive_symbol (n : Symbol) : Productive (.symbol n) := by
  have hliteral : Productive (.symbol .literal) := .symbol productive_token.left
  have hprimary : Productive (.symbol .primary) := .symbol hliteral.left.right.right
  have hargument : Productive (.symbol .argument) := .symbol (hprimary.seq productive_opt)
  have htypeName : Productive (.symbol .typeName) := .symbol (productive_token.seq productive_star)
  have htypedName : Productive typedName := productive_token.seq (productive_token.seq htypeName)
  have hdeclaration : Productive declaration :=
    productive_token.seq (productive_opt.seq (productive_opt.seq productive_opt))
  have hclass : Productive (.symbol .classBlock) := .symbol (productive_token.seq (productive_token.seq
    (productive_opt.seq (productive_token.seq (productive_star.seq productive_token)))))
  have hblock : Productive (.symbol .blockBody) := .symbol productive_star.right
  have hfragment : Productive (.symbol .codeFragment) :=
    .symbol (productive_opt.seq (productive_token.seq (hblock.seq productive_token)))
  have hmessageBlock : Productive (.symbol .messageBlock) :=
    .symbol (hdeclaration.seq (productive_token.seq (productive_star.seq productive_token)))
  cases n with
  | unit => exact .symbol hfragment.left
  | codeFragment => exact hfragment
  | flags => exact .symbol (productive_token.seq productive_opt)
  | flag => exact .symbol productive_token.left
  | blockBody => exact hblock
  | namespaceBlock =>
    exact .symbol (productive_token.seq (productive_token.seq (productive_token.seq (hblock.seq productive_token))))
  | moduleBlock =>
    exact .symbol (productive_token.seq (productive_token.seq (productive_opt.seq (productive_token.seq
      (hfragment.seq productive_token)))))
  | statement => exact .symbol hclass.left
  | classBlock => exact hclass
  | recordBlock =>
    exact .symbol (productive_token.seq (productive_token.seq (productive_opt.seq (productive_token.seq
      (productive_star.seq productive_token)))))
  | scopeBlock =>
    exact .symbol (productive_token.left.seq (productive_token.seq (productive_star.seq productive_token)))
  | messageBlock => exact hmessageBlock
  | params => exact .symbol (htypedName.seq productive_star)
  | returnType => exact .symbol (productive_token.seq ((htypeName.seq productive_star).seq productive_token)).left
  | expression => exact .symbol hargument.right
  | argument => exact hargument
  | primary => exact hprimary
  | message => exact .symbol (productive_token.seq productive_star).left
  | operator => exact .symbol productive_token.left
  | typeName => exact htypeName
  | inst => exact .symbol (productive_token.left.seq productive_star)
  | arrayLiteral => exact .symbol (productive_token.seq (productive_opt.seq productive_token))
  | element => exact .symbol hliteral.left
  | literal => exact hliteral

theorem exists_spells (f : Form Symbol) : Productive f := by
  induction f with
  | empty => exact ⟨[], .empty⟩
  | token c => exact productive_token
  | symbol n => exact productive_symbol n
  | seq f g hf hg => exact hf.seq hg
  | alt f g hf _ => exact hf.left
  | star f _ => exact productive_star

end

/-! ## What starts a form -/

/-- Some tokens behind the run make it a run of the form. -/
def Starts (f : Form Symbol) (w : List Token) : Prop :=
  ∃ u, Spells f (w ++ u)

section

variable {f g : Form Symbol} {v w : List Token}

theorem starts_of_spells (h : Spells f w) : Starts f w :=
  ⟨[], by rwa [List.append_nil]⟩

theorem starts_nil : Starts f [] :=
  exists_spells f

/-- What starts a form whose runs all start another one starts that one. -/
theorem Starts.trans (h : Starts f w) (hfg : ∀ u, Spells f u → Starts g u) : Starts g w := by
  obtain ⟨u, hu⟩ := h
  obtain ⟨x, hx⟩ := hfg _ hu
  exact ⟨u ++ x, by rwa [← List.append_assoc]⟩

theorem Starts.mono (h : Starts f w) (hfg : ∀ w, Spells f w → Spells g w) : Starts g w :=
  h.trans (fun u hu => starts_of_spells (hfg u hu))

theorem Starts.seq_left (h : Starts f w) : Starts (.seq f g) w := by
  obtain ⟨u, hu⟩ := h
  obtain ⟨x, hx⟩ := exists_spells g
  refine ⟨u ++ x, ?_⟩
  rw [← List.append_assoc]
  exact .seq hu hx

theorem Starts.seq_right (hv : Spells f v) (h : Starts g w) : Starts (.seq f g) (v ++ w) := by
  obtain ⟨u, hu⟩ := h
  refine ⟨u, ?_⟩
  rw [List.append_assoc]
  exact .seq hv hu

/-- What starts a form goes on with a repetition of the form. -/
theorem Starts.star (hv : Spells (.star f) v) (h : Starts f w) : Starts (.star f) (v ++ w) := by
  obtain ⟨u, hu⟩ := h
  refine ⟨u, ?_⟩
  rw [List.append_assoc]
  exact derives_star_append hv hu

end

/-! ## No comments -/

/-- The classes of tokens that a form names. -/
def Form.terminals {N : Type} : Form N → List Terminal
  | empty => []
  | token c => [c]
  | symbol _ => []
  | seq f g | alt f g => f.terminals ++ g.terminals
  | star f => f.terminals

/-- The class holds comments. -/
def Terminal.isComment : Terminal → Bool
  | kind k => k.isComment
  | word _ => false

theorem isComment_of_matches {c : Terminal} {t : Token} (h : c.Matches t) (hc : c.isComment = false) : t.isComment = false := by
  cases c with
  | kind k =>
    have hk : t.kind = k := h
    rw [Token.isComment, hk]
    exact hc
  | word k =>
    rw [Token.isComment, Token.kind_of_keyword? h]
    rfl

theorem isComment_terminals_production (n : Symbol) : ∀ c ∈ (production n).terminals, c.isComment = false := by
  cases n <;> decide

/-- A form that names no comments derives none. -/
theorem isComment_of_derives {f : Form Symbol} {w : List Token} (h : Spells f w)
    (hf : ∀ c ∈ f.terminals, c.isComment = false) : ∀ t ∈ w, t.isComment = false := by
  induction h with
  | empty => simp
  | token ht => simpa using isComment_of_matches ht (hf _ (by simp [Form.terminals]))
  | @symbol n _ _ ih => exact ih (isComment_terminals_production n)
  | seq _ _ hv hw =>
    intro t ht
    rcases List.mem_append.1 ht with ht | ht
    · exact hv (fun c hc => hf c (List.mem_append_left _ hc)) t ht
    · exact hw (fun c hc => hf c (List.mem_append_right _ hc)) t ht
  | left _ ih => exact ih (fun c hc => hf c (List.mem_append_left _ hc))
  | right _ ih => exact ih (fun c hc => hf c (List.mem_append_right _ hc))
  | starNil => simp
  | starCons _ _ hv hw =>
    intro t ht
    rcases List.mem_append.1 ht with ht | ht
    · exact hv hf t ht
    · exact hw hf t ht

theorem isComment_of_spells {n : Symbol} {w : List Token} (h : Spells (.symbol n) w) : ∀ t ∈ w, t.isComment = false :=
  isComment_of_derives h (by simp [Form.terminals])

end Courier.Syntax
