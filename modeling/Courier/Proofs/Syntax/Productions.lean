import Courier.Proofs.Syntax.Reads

/-!
# What the productions read

Every production reads the form of its nonterminal, if the productions inside it do (`Sound`). An expression may be a bare
`return`, which is no form: a semicolon has to follow, and the statement it closes is one (`ExpressionBefore`, `Closable`).
-/

namespace Courier

namespace Syntax

open Courier.Parser Courier.Grammar

/-- The parsers inside a production read the forms of their rules. -/
structure Sound (inner : Inner) : Prop where
  form {α : Type} {r : Rule α} {f : Form Symbol} (hf : r.form? = some f) (v : List Token) : Reads v (inner.parse r) f
  expression (v : List Token) : Leaves (Starting (.symbol .expression) v) (inner.parse .expression) v
    (fun v' => ∃ w, ExpressionBefore w v' ∧ v = w ++ v')
  returnExpression (v : List Token) : Leaves (Starting (.symbol .expression) v) (inner.parse .returnExpression) v
    (fun v' => ∃ w, ExpressionBefore w v' ∧ v = w ++ v')

section

variable {v : List Token} {k : TokenKind} {c : Keyword}

theorem matches_of_atKind (h : (v.head?.map Token.kind == some k) = true) : ∀ t ∈ v.head?, (Terminal.kind k).Matches t :=
  kind_of_atKind h

theorem matches_of_atKeyword (h : (v.head?.bind Token.keyword? == some c) = true) : ∀ t ∈ v.head?, (Terminal.word c).Matches t :=
  keyword_of_atKeyword h

theorem matches_kind_of_look {o : Option Keyword} (h : (v.head?.map Token.kind, v.head?.bind Token.keyword?) = (some k, o)) :
    ∀ t ∈ v.head?, (Terminal.kind k).Matches t :=
  kind_of_look h

/-- A token whose kind was seen is there to be taken. -/
theorem exists_cons_of_atKind (h : (v.head?.map Token.kind == some k) = true) :
    ∃ t v', v = t :: v' ∧ (Terminal.kind k).Matches t := by
  cases v with
  | nil => nomatch h
  | cons t v => exact ⟨t, v, rfl, matches_of_atKind h t (by simp)⟩

theorem matches_word_of_look {o : Option TokenKind} (h : (v.head?.map Token.kind, v.head?.bind Token.keyword?) = (o, some c)) :
    ∀ t ∈ v.head?, (Terminal.word c).Matches t :=
  keyword_of_look h

end

/-! ## Names, types and literals -/

section

variable (v : List Token)

theorem reads_dottedRest (what name : String) : Reads v (Grammar.dottedRest what name) dottedRest := by
  refine reads_repeatWhile (looks_atKind _) begins_kind.seq (fun name v hdot => ?_) name
  refine (reads_take (matches_of_atKind hdot)).seq (fun _ v => ?_)
  exact reads_identifier.result

theorem reads_typeDeclaration : Reads v typeDeclaration (production .typeName) := by
  unfold typeDeclaration
  exact reads_identifier.seq (fun name v => reads_dottedRest v _ name)

theorem reads_instanceHead :
    Reads v instanceHead (.choice [.kind .identifier, .word .self, .word .super]) := by
  unfold instanceHead
  refine reads_look_bind looks_look ?_
  split
  · rename_i h
    exact (reads_take (matches_kind_of_look h)).result.left
  · rename_i h
    exact (reads_take (matches_word_of_look h)).result.left.right
  · rename_i h
    exact (reads_take (matches_word_of_look h)).result.right.right
  · exact reads_failFound

theorem reads_inst : Reads v Grammar.inst (production .inst) := by
  unfold Grammar.inst
  refine reads_silent_bind silent_location (fun start => ?_)
  refine (reads_instanceHead v).seq (fun name v => ?_)
  exact (reads_dottedRest v _ name).silent_end (fun name => silent_openNode _ _)

theorem spells_literal {t : Token} {payload : Payload} (h : literalPayload? t = some payload) :
    Spells (.choice [.symbol .literal, .word .nil]) [t] := by
  have hliteral : ∀ k ∈ [TokenKind.integerLiteral, .decimalLiteral, .hexadecimalLiteral, .binaryLiteral, .booleanLiteral,
      .stringLiteral], t.kind = k → Spells (.symbol .literal) [t] := by
    intro k hk ht
    subst ht
    rw [spells_symbol]
    simpa [production, Form.choice] using hk
  unfold literalPayload? at h
  split at h
  case h_7 =>
    split at h
    · rename_i hnil
      exact .right (.token hnil)
    · simp at h
  case h_8 => simp at h
  all_goals
    rename_i hk
    exact .left (hliteral _ (by simp) hk)

theorem reads_literal : Reads v Grammar.literal (.choice [.symbol .literal, .word .nil]) := by
  unfold Grammar.literal
  refine leaves_take_any (fun hv => by rw [hv]; exact starting_here) (fun t v' hv => ?_)
  split
  · rename_i payload hpayload
    exact leaves_silent (silent_openNode _ _) ⟨[t], spells_literal hpayload, hv⟩
  · -- The token that was taken is blamed.
    rw [hv]
    exact leaves_failAt starting_here

/-- An instance that begins with an identifier is a type's name. -/
theorem spells_typeName_of_inst {w : List Token} (hw : Spells (.symbol .inst) w)
    (h : ∀ t ∈ w.head?, (Terminal.kind .identifier).Matches t) : Spells (.symbol .typeName) w := by
  rw [spells_symbol] at hw ⊢
  obtain ⟨u, d, hu, hd, rfl⟩ := derives_seq.1 hw
  have hone : ∃ t, u = [t] := by
    simp only [Form.choice, derives_alt, derives_kind, derives_word] at hu
    rcases hu with ⟨t, -, rfl⟩ | ⟨t, -, rfl⟩ | ⟨t, -, rfl⟩ <;> exact ⟨t, rfl⟩
  obtain ⟨t, rfl⟩ := hone
  exact .seq (.token (h t (by simp))) hd

/-- What is known of the first of some tokens is known of the first of a run that they begin with. -/
theorem head_of_append {P : Token → Prop} {v v' w : List Token} (h : ∀ t ∈ v.head?, P t) (hv : v = w ++ v') :
    ∀ t ∈ w.head?, P t := by
  intro t ht
  refine h t ?_
  rw [hv, List.head?_append, ht]
  rfl

/-- A run that starts a form is empty, or the first token of the whole run is known with that of the tokens ahead. -/
theorem Starts.mono_of_head {f g : Form Symbol} {P : Token → Prop} {v v' w : List Token} (hw : Starts f w)
    (h : ∀ t ∈ v.head?, P t) (hv : v = w ++ v') (hfg : ∀ u, Spells f u → (∀ t ∈ u.head?, P t) → Starts g u) : Starts g w := by
  cases w with
  | nil => exact starts_nil
  | cons t w =>
    obtain ⟨u, hu⟩ := hw
    obtain ⟨x, hx⟩ := hfg _ hu (fun t' ht' => head_of_append h hv t' ht')
    exact ⟨u ++ x, by rwa [List.append_assoc] at hx⟩

/-! ## Arrays -/

variable {inner : Inner} (h : Sound inner)

include h

theorem reads_element : Reads v (element inner) (.symbol .element) := by
  have hliteral : Reads v (inner.parse .literal) (.symbol .element) := by
    refine (h.form rfl v).mono (fun w hw => ?_)
    rw [spells_symbol]
    rcases derives_alt.1 hw with hw | hw
    · exact .left hw
    · exact .right (.left hw)
  unfold element
  refine reads_look_bind looks_look ?_
  split
  · rename_i hlook
    have hname := matches_kind_of_look hlook
    have helement : ∀ w, Spells (.symbol .inst) w → (∀ t ∈ w.head?, (Terminal.kind .identifier).Matches t) →
        Spells (.symbol .element) w :=
      fun w hw hhead => .symbol (.right (.right (spells_typeName_of_inst hw hhead)))
    refine Leaves.mono (h.form (r := .inst) rfl v) (fun _ _ he => he.mono (fun w hw hv => ?_))
      (fun v' ⟨w, hw, hv⟩ => ⟨w, helement w hw (head_of_append hname hv), hv⟩)
    exact hw.mono_of_head hname hv (fun u hu hhead => starts_of_spells (helement u hu hhead))
  · exact hliteral
  · split
    · exact hliteral
    · exact reads_failFound
  · exact reads_failFound

theorem reads_elements (array : NodeId) : Reads v (elements inner array) (.commaList (.symbol .element)) := by
  unfold elements
  refine (reads_element v h).seq (fun node v => ?_)
  refine reads_silent_bind (silent_attach _ _) (fun _ => ?_)
  refine reads_repeatWhile (looks_atKind _) begins_kind.seq (fun _ v hcomma => ?_) ()
  refine (reads_take (matches_of_atKind hcomma)).seq (fun _ v => ?_)
  exact (reads_element v h).silent_end (fun _ => silent_attach _ _)

theorem reads_arrayLiteral : Reads v (Grammar.arrayLiteral inner) (production .arrayLiteral) := by
  unfold Grammar.arrayLiteral
  refine reads_silent_bind silent_location (fun start => ?_)
  refine reads_expect.seq (fun _ v => ?_)
  refine reads_silent_bind (silent_openNode _ _) (fun array => ?_)
  refine reads_look_bind (looks_atKind _) ?_
  refine Reads.opt_seq (fun _ => reads_elements v h array) (fun _ v => ?_)
  refine reads_look_bind (looks_atKind _) ?_
  split
  · rename_i hclosed
    exact (reads_take (matches_of_atKind hclosed)).result
  · exact leaves_unterminatedArray starting_here

/-! ## Declarations -/

theorem reads_nameWithType (what : String) : Reads v (nameWithType inner what) typedName := by
  unfold nameWithType
  refine reads_identifier.seq (fun name v => ?_)
  refine reads_expect.seq (fun _ v => ?_)
  exact (h.form rfl v).result

theorem reads_typedNode (what : String) (payload : String → String → Payload) :
    Reads v (typedNode inner what payload) typedName := by
  unfold typedNode
  refine reads_silent_bind silent_location (fun start => ?_)
  exact (reads_nameWithType v h what).silent_end (fun named => silent_openNode _ _)

theorem reads_variableDefinition : Reads v (variableDefinition inner) typedName :=
  reads_typedNode v h _ _

theorem reads_param : Reads v (param inner) typedName :=
  reads_typedNode v h _ _

theorem reads_superclass : Reads v (Grammar.superclass inner) superclass := by
  unfold Grammar.superclass
  refine reads_look_bind (looks_atKeyword _) ?_
  split
  · rename_i hinherits
    refine Reads.some ((reads_take (matches_of_atKeyword hinherits)).seq (fun _ v => ?_))
    exact (h.form rfl v).result
  · exact reads_none

theorem reads_memberVariables (owner : NodeId) : Reads v (memberVariables inner owner) members := by
  unfold memberVariables
  refine reads_repeatWhile looks_inBlock begins_typedName.seq (fun _ v _ => ?_) ()
  refine (h.form rfl v).seq (fun member v => ?_)
  exact reads_expect.silent_end (fun _ => silent_attach _ _)

omit h in
/-- A visibility is looked at and left for the scope to take. -/
theorem leaves_visibility {f : Form Symbol} : Leaves (Starting f v) visibility v (fun v' => v' = v ∧
    ∀ t ∈ v.head?, t.keyword? = some .publicWord ∨ t.keyword? = some .privateWord) := by
  unfold visibility
  refine looks_look.leaves_bind ?_
  split
  · rename_i hlook
    exact leaves_pure ⟨rfl, fun t ht => .inl (matches_word_of_look hlook t ht)⟩
  · rename_i hlook
    exact leaves_pure ⟨rfl, fun t ht => .inr (matches_word_of_look hlook t ht)⟩
  · exact leaves_failFound (fun _ => starting_here)

theorem reads_scopeBlock : Reads v (scopeBlock inner) (production .scopeBlock) := by
  unfold scopeBlock
  refine reads_silent_bind silent_location (fun start => ?_)
  refine Leaves.bind (leaves_visibility v) (fun seen v₁ ⟨hv, hword⟩ => ?_)
  subst hv
  refine Reads.seq (v := v₁) (f := .choice [.word .publicWord, .word .privateWord]) ?_ (fun _ v => ?_)
  · by_cases hpublic : ∀ t ∈ v₁.head?, t.keyword? = some .publicWord
    · exact (reads_take hpublic).left
    · refine (reads_take (fun t ht => ?_)).right
      rcases hword t ht with ht' | ht'
      · exact absurd (fun u hu => Option.mem_unique hu ht ▸ ht') hpublic
      · exact ht'
  refine reads_silent_bind (silent_openNode _ _) (fun scope => ?_)
  refine reads_expect.seq (fun _ v => ?_)
  refine (reads_memberVariables v h scope).seq (fun _ v => ?_)
  exact reads_expect.result

theorem reads_recordBlock : Reads v (recordBlock inner) (production .recordBlock) := by
  unfold recordBlock
  refine reads_silent_bind silent_location (fun start => ?_)
  refine reads_expectKeyword.seq (fun _ v => ?_)
  refine reads_identifier.seq (fun name v => ?_)
  refine (reads_superclass v h).seq (fun parent v => ?_)
  refine reads_silent_bind (silent_openNode _ _) (fun record => ?_)
  refine reads_expect.seq (fun _ v => ?_)
  refine (reads_memberVariables v h record).seq (fun _ v => ?_)
  exact reads_expect.result

theorem reads_classMember : Reads v (Grammar.classMember inner) classMember := by
  have hmessage : Reads v (inner.parse .messageBlock) (.seq (.opt (.symbol .flags)) (.symbol .messageBlock)) :=
    (h.form rfl v).mono (fun w hw => derives_seq.2 ⟨[], w, .right .empty, hw, rfl⟩)
  unfold Grammar.classMember
  refine reads_look_bind looks_look ?_
  split
  · exact (h.form rfl v).left
  · exact (h.form rfl v).left
  · exact Reads.right ((h.form (r := .flags) rfl v).some.seq (fun _ v => h.form rfl v))
  · exact hmessage.right
  · exact reads_failFound

theorem reads_classBlock : Reads v (classBlock inner) (production .classBlock) := by
  unfold classBlock
  refine reads_silent_bind silent_location (fun start => ?_)
  refine reads_expectKeyword.seq (fun _ v => ?_)
  refine reads_identifier.seq (fun name v => ?_)
  refine (reads_superclass v h).seq (fun parent v => ?_)
  refine reads_silent_bind (silent_openNode _ _) (fun node => ?_)
  refine reads_expect.seq (fun _ v => ?_)
  refine Reads.seq (reads_repeatWhile looks_inBlock begins_classMember (fun _ v _ => ?_) ()) (fun _ v => ?_)
  · exact (reads_classMember v h).silent_end (fun _ => silent_attach _ _)
  · exact reads_expect.result

theorem reads_params (declaration : NodeId) : Reads v (params inner declaration) (.symbol .params) := by
  unfold params
  refine Reads.symbol ((h.form rfl v).seq (fun node v => ?_))
  refine reads_silent_bind (silent_attach _ _) (fun _ => ?_)
  refine reads_repeatWhile (looks_atKind _) begins_kind.seq (fun _ v hcomma => ?_) ()
  refine (reads_take (matches_of_atKind hcomma)).seq (fun _ v => ?_)
  exact (h.form rfl v).silent_end (fun _ => silent_attach _ _)

theorem reads_paramList (declaration : NodeId) : Reads v (paramList inner declaration)
    (.opt (.choice [.seq (.kind .colon) (.symbol .params),
      .sequence [.kind .leftParen, .opt (.symbol .params), .kind .rightParen]])) := by
  unfold paramList
  refine reads_look_bind looks_look ?_
  split
  · rename_i hlook
    exact ((reads_take (matches_kind_of_look hlook)).seq (fun _ v => reads_params v h declaration)).left.some
  · rename_i hlook
    refine Reads.some (Reads.right ((reads_take (matches_kind_of_look hlook)).seq (fun _ v => ?_)))
    refine reads_look_bind (looks_atKind _) ?_
    exact Reads.opt_seq (fun _ => reads_params v h declaration) (fun _ v => reads_expect.result)
  · exact reads_none

theorem reads_messageDeclaration : Reads v (messageDeclaration inner) declaration := by
  unfold messageDeclaration
  refine reads_silent_bind silent_location (fun start => ?_)
  refine reads_expectKeyword.seq (fun _ v => ?_)
  refine reads_look_bind (looks_atKind _) ?_
  refine Reads.ite_seq (fun _ => reads_identifier.map.some) (fun _ => reads_none) (fun name v => ?_)
  refine reads_silent_bind (silent_openNode _ _) (fun node => ?_)
  refine (reads_paramList v h node).seq (fun _ v => ?_)
  refine reads_look_bind (looks_atKind _) ?_
  dsimp only
  split
  · exact ((h.form rfl v).silent_end (fun _ => (silent_attach _ _).bind (fun _ => silent_pure _))).some
  · exact reads_none

theorem reads_messageBlock : Reads v (messageBlock inner) (production .messageBlock) := by
  unfold messageBlock
  refine reads_silent_bind silent_location (fun start => ?_)
  refine reads_silent_bind (silent_openNode _ _) (fun block => ?_)
  refine (h.form rfl v).seq (fun declaration v => ?_)
  refine reads_silent_bind (silent_attach _ _) (fun _ => ?_)
  refine reads_expect.seq (fun _ v => ?_)
  refine (h.form rfl v).seq (fun statements v => ?_)
  refine reads_silent_bind (silent_attach _ _) (fun _ => ?_)
  exact reads_expect.result

theorem reads_returnPayload :
    Reads v (returnPayload inner) (.choice [.commaList (.symbol .typeName), .commaList typedName]) := by
  have hseparated : ∀ {α : Type} {item : Parser α} {f : Form Symbol} (v : List Token), (∀ v, Reads v item f) →
      Reads v (separated item) (.commaList f) := by
    intro α item f v hitem
    refine (hitem v).seq (fun first v => ?_)
    refine reads_repeatWhile (looks_atKind _) begins_kind.seq (fun _ v hcomma => ?_) [first]
    exact (reads_take (matches_of_atKind hcomma)).seq (fun _ v => (hitem v).result)
  unfold returnPayload
  refine reads_probe_bind (probes_lookAhead _) ?_
  split
  · exact (hseparated v (fun v => reads_nameWithType v h _)).map.right
  · exact (hseparated v (fun v => h.form rfl v)).map.left

theorem reads_returnType : Reads v (returnType inner) (production .returnType) := by
  have hform : Reads v (returnType inner) (.sequence [.kind .leftBracket,
      .choice [.commaList (.symbol .typeName), .commaList typedName], .kind .rightBracket]) := by
    unfold returnType
    refine reads_silent_bind silent_location (fun start => ?_)
    refine reads_expect.seq (fun _ v => ?_)
    refine (reads_returnPayload v h).seq (fun payload v => ?_)
    refine reads_look_bind (looks_atKind _) ?_
    split
    · rename_i hclosed
      exact (reads_take (matches_of_atKind hclosed)).silent_end (fun _ => silent_openNode _ _)
    · exact reads_failFound
  refine hform.mono (fun w hw => ?_)
  obtain ⟨a, x, ha, hx, rfl⟩ := derives_seq.1 hw
  obtain ⟨b, c, hb, hc, rfl⟩ := derives_seq.1 hx
  rcases derives_alt.1 hb with hb | hb
  · exact .left (.seq ha (.seq hb hc))
  · exact .right (.seq ha (.seq hb hc))

/-! ## Expressions -/

theorem reads_primary : Reads v (primary inner) (.symbol .primary) := by
  have hliteral : Reads v (inner.parse .literal) (.symbol .primary) := by
    refine (h.form rfl v).mono (fun w hw => ?_)
    rcases derives_alt.1 hw with hw | hw
    · exact .symbol (.right (.right (.left hw)))
    · exact .symbol (.right (.right (.right (.left hw))))
  have hmessage : Reads v (inner.parse .messageBlock) (.symbol .primary) :=
    (h.form rfl v).mono (fun w hw => .symbol (.right (.right (.right (.right (.left hw))))))
  have hinst : Reads v (inner.parse .inst) (.symbol .primary) :=
    (h.form rfl v).mono (fun w hw => .symbol (.right (.right (.right (.right (.right hw))))))
  unfold primary
  refine reads_look_bind looks_look ?_
  split
  · exact (h.form rfl v).left.symbol
  · exact (h.form rfl v).left.right.symbol
  · exact hinst
  · exact hliteral
  · exact hmessage
  · exact hinst
  · exact hinst
  · split
    · exact hliteral
    · exact reads_failFound
  · exact reads_failFound

theorem leaves_expression : Leaves (Starting (.symbol .expression) v) (Grammar.expression inner) v
    (fun v' => ∃ w, ExpressionBefore w v' ∧ v = w ++ v') := by
  unfold Grammar.expression
  refine (looks_atKeyword _).leaves_bind ?_
  split
  · exact h.returnExpression v
  · have hvalue : Reads v (primary inner >>= fun value => startsMessage >>= fun b =>
        if b = true then inner.parse (.sendMessage value) else pure value) (production .argument) := by
      refine (reads_primary v h).seq (fun value v => ?_)
      refine reads_look_bind looks_startsMessage ?_
      split
      · exact (h.form rfl v).some
      · exact reads_none
    exact Leaves.mono hvalue.symbol.right.symbol (fun _ _ he => he) (fun v' ⟨w, hw, hv⟩ => ⟨w, .inl hw, hv⟩)

theorem leaves_returnExpression : Leaves (Starting (.symbol .expression) v) (Grammar.returnExpression inner) v
    (fun v' => ∃ w, ExpressionBefore w v' ∧ v = w ++ v') := by
  unfold Grammar.returnExpression
  have hword : Leaves (Starting (.symbol .expression) v) (expectKeyword .returnWord) v
      (fun v' => ∃ w, Spells (.word .returnWord) w ∧ v = w ++ v') :=
    Leaves.mono reads_expectKeyword (fun _ _ he => he.mono (fun _ hw _ => hw.seq_left.mono (fun _ hw => .symbol (.left hw))))
      (fun _ hv => hv)
  refine silent_location.leaves_bind (fun start => ?_)
  refine Leaves.bind hword (fun _ v₁ ⟨w₁, hw₁, hv⟩ => ?_)
  refine (silent_openNode _ _).leaves_bind (fun node => ?_)
  unfold returned
  rw [bind_assoc]
  refine (looks_atKind _).leaves_bind ?_
  split
  · -- A bare return: nothing is taken, and the semicolon that was seen is next.
    rename_i hsemicolon
    have hnext : ∃ t ∈ v₁.head?, t.kind = .endOfStatement := by
      cases hhead : v₁.head? with
      | none => simp [hhead] at hsemicolon
      | some t => exact ⟨t, by simp, matches_of_atKind hsemicolon t (by simp [hhead])⟩
    refine Leaves.bind (S := (· = v₁)) ?_ (fun value v₂ hv₂ => ?_)
    · exact leaves_silent (silent_location.bind (fun l => silent_openNode _ _)) rfl
    · subst hv₂
      exact (silent_attach _ _).leaves_bind (fun _ => leaves_pure ⟨w₁, .inr ⟨hw₁, hnext⟩, hv⟩)
  · have hvalue : Leaves (Starting (.symbol .expression) v) (inner.parse .argument) v₁
        (fun v' => ∃ w, Spells (.symbol .argument) w ∧ v₁ = w ++ v') :=
      Leaves.mono (h.form rfl v₁) (fun _ _ he => he.append hv (fun _ hu => (hu.seq_right hw₁).mono (fun _ hw => .symbol (.left hw))))
        (fun _ hv => hv)
    refine Leaves.bind hvalue (fun value v₂ ⟨w₂, hw₂, hv₁⟩ => ?_)
    refine (silent_attach _ _).leaves_bind (fun _ => leaves_pure ⟨w₁ ++ w₂, .inl (.symbol (.left (.seq hw₁ hw₂))), ?_⟩)
    rw [hv, hv₁, List.append_assoc]

omit h in
/-- A run that does not begin with a `return` is no bare one, and if it is an expression, it is an argument. -/
theorem spells_argument_of_expression {w : List Token} (hw : Spells (.symbol .expression) w)
    (hreturn : ∀ t ∈ w.head?, t.keyword? ≠ some .returnWord) : Spells (.symbol .argument) w := by
  rcases derives_alt.1 (spells_symbol.1 hw) with hw | hw
  · obtain ⟨x, y, hx, -, rfl⟩ := derives_seq.1 hw
    obtain ⟨t, ht, rfl⟩ := derives_word.1 hx
    exact absurd ht (hreturn t (by simp))
  · exact hw

theorem reads_argument : Reads v (Grammar.argument inner) (.symbol .argument) := by
  unfold Grammar.argument
  refine reads_look_bind (looks_atKeyword _) ?_
  split
  · exact reads_fail
  · rename_i hno
    have hreturn : ∀ t ∈ v.head?, t.keyword? ≠ some .returnWord := by
      intro t ht hword
      rw [Option.mem_def] at ht
      exact hno (by simp [ht, hword])
    refine Leaves.mono (h.expression v) (fun _ _ he => he.mono (fun w hw hv => ?_)) (fun v' ⟨w, hw, hv⟩ => ⟨w, ?_, hv⟩)
    · exact hw.mono_of_head hreturn hv (fun u hu hhead => starts_of_spells (spells_argument_of_expression hu hhead))
    · rcases hw with hw | ⟨hw, -⟩
      · exact spells_argument_of_expression hw (head_of_append hreturn hv)
      · obtain ⟨t, ht, rfl⟩ := derives_word.1 hw
        exact absurd ht (hreturn t (by simp [hv]))

omit h in
/-- What goes before a semicolon as an expression starts one. -/
theorem starts_of_expressionBefore {w rest : List Token} (hw : ExpressionBefore w rest) : Starts (.symbol .expression) w := by
  rcases hw with hw | ⟨hw, -⟩
  · exact starts_of_spells hw
  · exact (starts_of_spells hw).seq_left.mono (fun _ hu => .symbol (.left hu))

theorem reads_groupedExpression :
    Reads v (groupedExpression inner) (.sequence [.kind .leftParen, .symbol .expression, .kind .rightParen]) := by
  have hinside : ∀ (group : NodeId) v, Reads v (do
      attach group (← inner.parse .expression)
      let _ ← expect .rightParen "')'"
      return group) (.seq (.symbol .expression) (.kind .rightParen)) := by
    intro group v
    refine Leaves.bind (Leaves.mono (h.expression v) (fun _ _ he => he.mono (fun _ hw _ => hw.seq_left)) (fun _ hv => hv)) ?_
    intro node v₁ ⟨w₁, hw₁, hv⟩
    refine (silent_attach _ _).leaves_bind (fun _ => ?_)
    refine Leaves.mono leaves_expect_here.result (fun _ v' hv' => ?_) (fun v₂ ⟨t, ht, hv₁⟩ => ?_)
    · subst hv'
      exact ⟨w₁, (starts_of_expressionBefore hw₁).seq_left, hv⟩
    · rcases hw₁ with hw₁ | ⟨-, u, hu, hsemicolon⟩
      · exact ⟨w₁ ++ [t], .seq hw₁ (.token ht), by rw [hv, hv₁, List.append_assoc]; rfl⟩
      · -- Behind a bare return stands a semicolon, which closes no parenthesis.
        obtain rfl : t = u := by simpa [hv₁] using hu
        rw [ht] at hsemicolon
        nomatch hsemicolon
  unfold groupedExpression
  refine reads_silent_bind silent_location (fun start => ?_)
  refine reads_expect.seq (fun _ v => ?_)
  exact reads_silent_bind (silent_openNode _ _) (fun group => hinside group _)

theorem reads_message : Reads v (Grammar.message inner) (.symbol .message) := by
  unfold Grammar.message
  refine Reads.symbol (reads_silent_bind silent_location (fun start => ?_))
  refine reads_look_bind looks_look ?_
  split
  · rename_i k _ hlook
    split
    · refine Reads.left (reads_identifier.seq (fun name v => ?_))
      refine reads_silent_bind (silent_openNode _ _) (fun node => ?_)
      refine Reads.result ?_
      refine reads_repeatWhile (looks_atKind _) begins_kind.seq (fun _ v hcolon => ?_) ()
      refine (reads_take (matches_of_atKind hcolon)).seq (fun _ v => ?_)
      exact (h.form rfl v).silent_end (fun _ => silent_attach _ _)
    · split
      · rename_i hoperator
        refine Reads.right (Reads.seq (Reads.mono (reads_take (matches_kind_of_look hlook)) (fun w hw => ?_))
          (fun operator v => ?_))
        · obtain ⟨t, ht, rfl⟩ := derives_token.1 hw
          refine .symbol ?_
          have ht' : t.kind = k := ht
          cases k <;> simp [TokenKind.isMessageOperator] at hoperator <;> simp [production, Form.choice, ht']
        · refine reads_silent_bind (silent_openNode _ _) (fun node => ?_)
          exact (h.form rfl v).silent_end (fun _ => (silent_attach _ _).bind (fun _ => silent_pure _))
      · exact reads_failFound
  · exact reads_failFound

theorem reads_sendMessage (receiver : NodeId) : Reads v (Grammar.sendMessage inner receiver) (.symbol .message) := by
  unfold Grammar.sendMessage
  refine reads_silent_bind (silent_nodeLocation _) (fun l => ?_)
  refine reads_silent_bind (silent_openNode _ _) (fun send => ?_)
  exact (h.form rfl v).silent_end
    (fun _ => (silent_attach _ _).bind (fun _ => (silent_attach _ _).bind (fun _ => silent_pure _)))

/-! ## Statements -/

/-- The run is a statement once a semicolon is put behind it. -/
def Closable (w : List Token) : Prop :=
  ∀ t : Token, t.kind = .endOfStatement → Spells (.symbol .statement) (w ++ [t])

omit h in
theorem Closable.starts {w : List Token} (hw : Closable w) : Starts (.symbol .statement) w :=
  ⟨_, hw (Terminal.kind .endOfStatement).sample rfl⟩

omit h in
theorem closable_of_expression {w : List Token} (hw : Spells (.symbol .expression) w) : Closable w :=
  fun _ hsemicolon => .symbol (.right (.right (.right (.right (.right (.seq hw (.token hsemicolon)))))))

omit h in
theorem closable_of_expressionBefore {w rest : List Token} (hw : ExpressionBefore w rest) : Closable w := by
  rcases hw with hw | ⟨hw, -⟩
  · exact closable_of_expression hw
  · intro t hsemicolon
    exact .symbol (.right (.right (.right (.right (.left (.seq hw (.token hsemicolon)))))))

omit h in
theorem closable_of_definition {w : List Token} (hw : Spells typedName w) : Closable w :=
  fun _ hsemicolon => .symbol (.right (.right (.left (.seq hw (.token hsemicolon)))))

omit h in
/-- An assignment that begins with an identifier is a statement once it is closed. -/
theorem closable_of_assignment {w : List Token}
    (hw : Spells (.sequence [.choice [typedName, .symbol .inst], .kind .assignment, .symbol .argument]) w)
    (hname : ∀ t ∈ w.head?, (Terminal.kind .identifier).Matches t) : Closable w := by
  intro t hsemicolon
  obtain ⟨target, x, htarget, hx, rfl⟩ := derives_seq.1 hw
  obtain ⟨operator, value, hoperator, hvalue, rfl⟩ := derives_seq.1 hx
  have htarget' : Spells (.choice [typedName, .seq (.kind .identifier) dottedRest]) target := by
    rcases derives_alt.1 htarget with htarget | htarget
    · exact .left htarget
    · exact .right (spells_symbol.1 (spells_typeName_of_inst htarget (head_of_append hname rfl)))
  refine .symbol (.right (.right (.right (.left (derives_seq.2 ⟨target, operator ++ (value ++ [t]), htarget', ?_, ?_⟩)))))
  · exact .seq hoperator (.seq hvalue (.token hsemicolon))
  · simp only [List.append_assoc]

theorem reads_assignment : Reads v (Grammar.assignment inner)
    (.sequence [.choice [typedName, .symbol .inst], .kind .assignment, .symbol .argument]) := by
  unfold Grammar.assignment
  refine reads_silent_bind silent_location (fun start => ?_)
  refine reads_silent_bind (silent_openNode _ _) (fun node => ?_)
  refine reads_probe_bind (probes_lookAhead _) ?_
  refine Reads.ite_seq (fun _ => (h.form rfl v).left) (fun _ => (h.form rfl v).right) (fun target v => ?_)
  refine reads_expect.seq (fun operator v => ?_)
  refine reads_silent_bind (silent_openNode _ _) (fun message => ?_)
  refine (h.form rfl v).silent_end (fun value => (silent_attach _ _).bind (fun _ => ?_))
  exact (silent_attach _ _).bind (fun _ => (silent_attach _ _).bind (fun _ => silent_pure _))

/-- An expression that a semicolon closes is a statement, a bare return with it. -/
theorem leaves_statement_expression : Leaves (Starting (.symbol .statement) v) (inner.parse .expression) v
    (fun v' => ∃ w, Closable w ∧ v = w ++ v') := by
  refine Leaves.mono (h.expression v) (fun _ _ he => he.mono (fun w hw _ => ?_))
    (fun v' ⟨w, hw, hv⟩ => ⟨w, closable_of_expressionBefore hw, hv⟩)
  exact hw.trans (fun _ hu => (closable_of_expression hu).starts)

theorem leaves_namedStatement (hname : ∀ t ∈ v.head?, (Terminal.kind .identifier).Matches t) :
    Leaves (Starting (.symbol .statement) v) (namedStatement inner) v (fun v' => ∃ w, Closable w ∧ v = w ++ v') := by
  have hassignment : Leaves (Starting (.symbol .statement) v) (inner.parse .assignment) v
      (fun v' => ∃ w, Closable w ∧ v = w ++ v') := by
    refine Leaves.mono (h.form rfl v) (fun _ _ he => he.mono (fun w hw hv => ?_))
      (fun v' ⟨w, hw, hv⟩ => ⟨w, closable_of_assignment hw (head_of_append hname hv), hv⟩)
    exact hw.mono_of_head hname hv (fun u hu hhead => (closable_of_assignment hu hhead).starts)
  unfold namedStatement
  refine (probes_looksLikeVariableDefinition).leaves_bind ?_
  split
  · refine Leaves.mono (h.form rfl v) (fun _ _ he => he.mono (fun w hw _ => ?_))
      (fun v' ⟨w, hw, hv⟩ => ⟨w, closable_of_definition hw, hv⟩)
    exact hw.trans (fun _ hu => (closable_of_definition hu).starts)
  · refine (probes_lookAhead _).leaves_bind ?_
    split
    · exact hassignment
    · refine (probes_looksLikePlainAssignment).leaves_bind ?_
      split
      · exact hassignment
      · exact leaves_statement_expression v h

theorem reads_closedStatement : Reads v (closedStatement inner) (.symbol .statement) := by
  have hend : ∀ (node : NodeId) (v₁ : List Token), (∃ w, Closable w ∧ v = w ++ v₁) →
      Leaves (Starting (.symbol .statement) v) (expect .endOfStatement "';'" >>= fun _ => pure node) v₁
        (fun v' => ∃ w, Spells (.symbol .statement) w ∧ v = w ++ v') := by
    intro node v₁ ⟨w, hw, hv⟩
    refine Leaves.mono leaves_expect_here.result (fun _ v' hv' => ?_) (fun v₂ ⟨t, ht, hv₁⟩ => ?_)
    · subst hv'
      exact ⟨w, hw.starts, hv⟩
    · exact ⟨w ++ [t], hw t ht, by rw [hv, hv₁, List.append_assoc]; rfl⟩
  unfold closedStatement
  refine (looks_atKind _).leaves_bind ?_
  split
  · rename_i hname
    exact (leaves_namedStatement v h (matches_of_atKind hname)).bind hend
  · exact (leaves_statement_expression v h).bind hend

theorem reads_statement : Reads v (Grammar.statement inner) (.symbol .statement) := by
  unfold Grammar.statement
  refine reads_look_bind looks_look ?_
  split
  · exact (h.form rfl v).left.symbol
  · exact (h.form rfl v).left.right.symbol
  · exact reads_closedStatement v h

theorem reads_statements : Reads v (statements inner) (.star (.symbol .statement)) := by
  unfold statements
  refine reads_silent_bind silent_location (fun start => ?_)
  refine reads_silent_bind (silent_openNode _ _) (fun block => ?_)
  refine Reads.result (reads_repeatWhile looks_inBlock begins_statement (fun _ v _ => ?_) ())
  exact (h.form rfl v).silent_end (fun _ => silent_attach _ _)

/-! ## Units -/

omit h in
theorem reads_flagName : Reads v flagName (.symbol .flag) := by
  unfold flagName
  refine reads_look_bind looks_look ?_
  split
  · rename_i hlook
    exact (reads_take (matches_kind_of_look hlook)).left.symbol
  · rename_i hlook
    exact (reads_take (matches_kind_of_look hlook)).right.symbol
  · exact reads_failFound

omit h in
/-- A flag has a comma behind it, which is taken, or the bracket that ends the list, which is left. -/
theorem leaves_flag (fs : List String) : Leaves (Starting (.symbol .flag) v) (flag fs) v (fun v' =>
    (∃ w, Spells (.seq (.symbol .flag) (.kind .comma)) w ∧ v = w ++ v') ∨
      (∃ w, Spells (.symbol .flag) w ∧ v = w ++ v') ∧ (v'.head?.map Token.kind == some .rightBracket) = true) := by
  unfold flag
  refine Leaves.bind (reads_flagName v) (fun name v₁ hflag => ?_)
  unfold flagEnd
  refine looks_look.leaves_bind ?_
  split
  · rename_i hlook
    obtain ⟨w, hw, hv⟩ := hflag
    obtain ⟨c, v₂, rfl, hc⟩ := exists_cons_of_atKind (k := .comma) (by rw [(Prod.mk.inj hlook).1, BEq.rfl])
    exact leaves_take_bind (leaves_pure (.inl ⟨w ++ [c], .seq hw (.token hc), by rw [hv, List.append_assoc]; rfl⟩))
  · rename_i hlook
    exact leaves_pure (.inr ⟨hflag, by rw [(Prod.mk.inj hlook).1, BEq.rfl]⟩)
  · obtain ⟨w, hw, hv⟩ := hflag
    exact leaves_failFound (fun _ => ⟨w, starts_of_spells hw, hv⟩)

omit h in
/-- The loop over the flags of a list takes them all: behind it the bracket is next that ends the list. -/
theorem leaves_flagLoop (v : List Token) :
    Leaves (Starting flagItems v) (repeatWhile (not <$> atKind .rightBracket) flag []) v (fun v' =>
      (∃ w, Spells flagItems w ∧ v = w ++ v') ∧ (v'.head?.map Token.kind == some .rightBracket) = true) := by
  -- A flag without a comma is the last: then the bracket is next, and there is no further round.
  refine Leaves.mono (leaves_repeatWhile (v := v) (fun v₁ => ∃ w u, Spells (.star (.seq (.symbol .flag) (.kind .comma))) w ∧
    (u = [] ∨ Spells (.symbol .flag) u ∧ (v₁.head?.map Token.kind == some .rightBracket) = true) ∧ v = w ++ (u ++ v₁))
    ((looks_atKind .rightBracket).map not) (fun fs v₁ hI hmore => ?_) [] ?_) (fun _ _ he => he) ?_
  · obtain ⟨w, u, hw, hu, hv⟩ := hI
    have hnil : u = [] := hu.resolve_right (fun hu => by simp [hu.2] at hmore)
    subst hnil
    rw [List.nil_append] at hv
    refine Leaves.mono (leaves_flag v₁ fs)
      (fun _ _ he => he.append hv (fun _ hu => (hu.mono (fun _ => .left)).seq_right hw)) (fun v₂ hv₂ => ?_)
    rcases hv₂ with ⟨x, hx, hv₁⟩ | ⟨⟨x, hx, hv₁⟩, hnext⟩
    · refine ⟨⟨w ++ x, [], derives_star_append hw hx, .inl rfl, by rw [hv, hv₁, List.append_assoc, List.nil_append]⟩, ?_⟩
      obtain ⟨a, b, -, hb, rfl⟩ := derives_seq.1 hx
      obtain ⟨t, -, rfl⟩ := derives_kind.1 hb
      rw [hv₁, List.length_append, List.length_append, List.length_singleton]
      omega
    · refine ⟨⟨w, x, hw, .inr ⟨hx, hnext⟩, by rw [hv, hv₁]⟩, ?_⟩
      obtain ⟨t, -, rfl⟩ := exists_of_flag hx
      rw [hv₁, List.length_append, List.length_singleton]
      omega
  · exact ⟨[], [], .starNil, .inl rfl, rfl⟩
  · intro v' ⟨⟨w, u, hw, hu, hv⟩, hend⟩
    refine ⟨⟨w ++ u, .seq hw ?_, by rw [hv, List.append_assoc]⟩, by simpa using hend⟩
    rcases hu with rfl | hu
    · exact .right .empty
    · exact .left hu.1

omit h in
theorem reads_flagList : Reads v flagList (.opt (.sequence [.kind .leftBracket,
    .opt (.sequence [.symbol .flag, .star (.seq (.kind .comma) (.symbol .flag)), .opt (.kind .comma)]),
    .kind .rightBracket])) := by
  unfold flagList
  refine reads_look_bind (looks_atKind _) ?_
  split
  · rename_i hopen
    refine Reads.some (Reads.seq (reads_take (matches_of_atKind hopen)) (fun _ v => ?_))
    refine Leaves.bind (Leaves.mono (leaves_flagLoop v) (fun _ _ he => he.mono (fun w hw _ => ?_)) (fun _ hv => hv)) ?_
    · exact (hw.mono (fun _ => derives_trailing.2)).seq_left
    · intro fs v₁ ⟨⟨w, hw, hv⟩, hclosed⟩
      obtain ⟨b, v₂, rfl, hb⟩ := exists_cons_of_atKind hclosed
      refine leaves_take_bind (leaves_pure ⟨w ++ [b], .seq (derives_trailing.2 hw) (.token hb), ?_⟩)
      rw [hv, List.append_assoc]
      rfl
  · exact reads_none

omit h in
theorem reads_flags : Reads v Grammar.flags (production .flags) := by
  unfold Grammar.flags
  refine reads_expect.seq (fun _ v => ?_)
  exact (reads_flagList v).silent_end (fun fs => silent_keepFlags fs)

omit h in
/-- Runs of a form make up at least one, or nothing was taken yet. -/
theorem starts_plus_of_star {f : Form Symbol} {w : List Token} (hw : Spells (.star f) w) : Starts (.plus f) w := by
  obtain ⟨ws, hws, rfl⟩ := derives_star.1 hw
  cases ws with
  | nil => exact starts_nil
  | cons u ws =>
    exact starts_of_spells (.seq (hws u (by simp)) (derives_star.2 ⟨ws, fun a ha => hws a (by simp [ha]), rfl⟩))

theorem reads_blockBody (owner : NodeId) : Reads v (Grammar.blockBody inner owner) (.symbol .blockBody) := by
  unfold Grammar.blockBody
  refine reads_look_bind (looks_atKeyword _) ?_
  split
  · rename_i hnamespace
    refine Reads.symbol (Reads.left ?_)
    refine Leaves.bind (Leaves.mono (leaves_loop (v := v) (looks_atKeyword _) begins_namespaceBlock (fun _ v _ => ?_) ())
      (fun _ _ he => he.mono (fun _ hw _ => hw.trans (fun _ => starts_plus_of_star))) (fun _ hv => hv)) ?_
    · exact (h.form rfl v).silent_end (fun _ => silent_attach _ _)
    intro _ v₁ ⟨⟨w, hw, hv⟩, hend⟩
    have hplus : Spells (.plus (.symbol .namespaceBlock)) w := by
      obtain ⟨ws, hws, rfl⟩ := derives_star.1 hw
      cases ws with
      | nil =>
        -- The loop was entered, so it did not end where it began.
        rw [hv, List.flatten_nil, List.nil_append, hend] at hnamespace
        nomatch hnamespace
      | cons u ws => exact .seq (hws u (by simp)) (derives_star.2 ⟨ws, fun a ha => hws a (by simp [ha]), rfl⟩)
    refine looks_inBlock.leaves_bind ?_
    split
    · exact leaves_failFound (fun _ => ⟨w, starts_of_spells hplus, hv⟩)
    · exact leaves_pure ⟨w, hplus, hv⟩
  · exact Reads.symbol ((h.form rfl v).silent_end (fun _ => silent_attach _ _)).right

theorem reads_namespaceBlock : Reads v (Grammar.namespaceBlock inner) (production .namespaceBlock) := by
  unfold Grammar.namespaceBlock
  refine reads_silent_bind silent_location (fun start => ?_)
  refine reads_expectKeyword.seq (fun _ v => ?_)
  refine reads_identifier.seq (fun name v => ?_)
  refine reads_silent_bind (silent_openNode _ _) (fun node => ?_)
  refine reads_expect.seq (fun _ v => ?_)
  refine (reads_blockBody v h node).seq (fun _ v => ?_)
  exact reads_expect.result

theorem reads_codeFragment : Reads v (Grammar.codeFragment inner) (production .codeFragment) := by
  have hblock : ∀ (start : Location) v, Reads v (do
      let fragment ← openNode .codeFragmentBlock start
      let _ ← expect .leftBrace "'\x7b'"
      Grammar.blockBody inner fragment
      let _ ← expect .rightBrace "'\x7d'"
      return fragment) (.sequence [.kind .leftBrace, .symbol .blockBody, .kind .rightBrace]) := by
    intro start v
    refine reads_silent_bind (silent_openNode _ _) (fun fragment => ?_)
    refine reads_expect.seq (fun _ v => ?_)
    refine (reads_blockBody v h fragment).seq (fun _ v => ?_)
    exact reads_expect.result
  unfold Grammar.codeFragment
  refine reads_silent_bind silent_location (fun start => ?_)
  refine reads_look_bind (looks_atKind _) ?_
  exact Reads.opt_seq (fun _ => h.form rfl v) (fun _ v => hblock start v)

omit h in
theorem reads_moduleVersion : Reads v moduleVersion version := by
  unfold moduleVersion
  refine reads_look_bind (looks_atKind _) ?_
  split
  · rename_i hcomma
    refine Reads.some ((reads_take (matches_of_atKind hcomma)).seq (fun _ v => ?_))
    refine reads_look_bind looks_look ?_
    split
    · rename_i hlook
      exact (reads_take (matches_kind_of_look hlook)).result.left
    · rename_i hlook
      exact (reads_take (matches_kind_of_look hlook)).result.left.right
    · rename_i hlook
      exact (reads_take (matches_kind_of_look hlook)).result.right.right
    · exact reads_failFound
  · exact reads_none

theorem reads_moduleBlock : Reads v (Grammar.moduleBlock inner) (production .moduleBlock) := by
  unfold Grammar.moduleBlock
  refine reads_silent_bind silent_location (fun start => ?_)
  refine reads_expectKeyword.seq (fun _ v => ?_)
  refine reads_identifier.seq (fun name v => ?_)
  refine (reads_moduleVersion v).seq (fun _ v => ?_)
  refine reads_silent_bind (silent_openNode _ _) (fun node => ?_)
  refine reads_expect.seq (fun _ v => ?_)
  refine (h.form rfl v).seq (fun fragment v => ?_)
  refine reads_silent_bind (silent_attach _ _) (fun _ => ?_)
  exact reads_expect.result

theorem reads_unitBlock : Reads v (unitBlock inner) (.symbol .unit) := by
  unfold unitBlock
  refine reads_look_bind looks_look ?_
  split
  · exact (h.form rfl v).left.symbol
  · exact (h.form rfl v).left.symbol
  · exact (h.form rfl v).right.symbol
  · exact reads_fail
  · exact reads_fail
  · exact reads_fail
  · exact reads_failFound

/-- A unit leaves nothing behind. -/
theorem leaves_unit : Leaves (Starting (.symbol .unit) v) (Grammar.unit inner) v (fun v' => v' = [] ∧ Spells (.symbol .unit) v) := by
  unfold Grammar.unit
  refine Leaves.bind (reads_unitBlock v h) (fun root v₁ ⟨w, hw, hv⟩ => ?_)
  refine looks_current?.leaves_bind ?_
  split
  · exact leaves_failFound (fun _ => ⟨w, starts_of_spells hw, hv⟩)
  · rename_i hnone
    have hnil : v₁ = [] := by simpa using hnone
    subst hnil
    rw [List.append_nil] at hv
    exact leaves_pure ⟨rfl, hv ▸ hw⟩

end

end Syntax

end Courier
