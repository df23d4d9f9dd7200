import Courier.Proofs.Syntax.Accepts

/-!
# What the productions take

Every production takes the runs of its form, if the productions inside it do (`Accepts`). At every choice the next tokens pick a way
from which the rest of the run can be taken; where a statement begins with a name, lookahead picks it.
-/

namespace Courier.Syntax

open Courier.Parser Courier.Grammar

variable {E : Blame} {w rest : List Token}

/-! ## Names, types and literals -/

theorem takes_dottedRest (hw : Spells dottedRest w) (hrest : Unlike .dot rest) (what name : String) :
    Takes E (Grammar.dottedRest what name) w rest := by
  refine takes_repeatWhile (looks_atKind .dot) begins_kind.seq (fun t ht => by simp [ht]) (fun _ => True)
    (fun _ _ _ => trivial) hw (fun name u v hu _ _ => ?_) trivial hrest.atKind name
  obtain ⟨x, y, hx, hy, rfl⟩ := derives_seq.1 hu
  obtain ⟨d, hd, rfl⟩ := derives_kind.1 hx
  obtain ⟨t, ht, rfl⟩ := derives_kind.1 hy
  exact takes_take.seq (fun _ => (takes_identifier ht).result)

theorem takes_typeDeclaration (hw : Spells (.symbol .typeName) w) (hrest : Unlike .dot rest) :
    Takes E typeDeclaration w rest := by
  obtain ⟨t, d, ht, hd, rfl⟩ := spells_typeName.1 hw
  unfold typeDeclaration
  exact Takes.seq (w := [t]) (takes_identifier ht) (fun name => takes_dottedRest hd hrest _ name)

theorem takes_instanceHead (hw : Spells (.choice [.kind .identifier, .word .self, .word .super]) w) :
    Takes E instanceHead w rest := by
  unfold instanceHead
  rcases derives_alt.1 hw with hw | hw
  · obtain ⟨t, ht, rfl⟩ := derives_kind.1 hw
    exact takes_look_bind looks_look (look_kind ht (by decide)) takes_take.result
  · rcases derives_alt.1 hw with hw | hw
    · obtain ⟨t, ht, rfl⟩ := derives_word.1 hw
      exact takes_look_bind looks_look (look_word ht) takes_take.result
    · obtain ⟨t, ht, rfl⟩ := derives_word.1 hw
      exact takes_look_bind looks_look (look_word ht) takes_take.result

theorem takes_inst (hw : Spells (.symbol .inst) w) (hrest : Unlike .dot rest) : Takes E Grammar.inst w rest := by
  obtain ⟨x, d, hx, hd, rfl⟩ := derives_seq.1 (spells_symbol.1 hw)
  unfold Grammar.inst
  refine takes_silent_bind silent_location (fun start => ?_)
  refine (takes_instanceHead hx).seq (fun name => ?_)
  exact (takes_dottedRest hd hrest _ name).silent_end (fun name => silent_openNode _ _)

/-- A literal is one token of one of six kinds. -/
theorem kind_of_spells_literal (hw : Spells (.symbol .literal) w) :
    ∃ t : Token, w = [t] ∧ (t.kind = .integerLiteral ∨ t.kind = .decimalLiteral ∨ t.kind = .hexadecimalLiteral ∨
      t.kind = .binaryLiteral ∨ t.kind = .booleanLiteral ∨ t.kind = .stringLiteral) := by
  have hkinds := spells_symbol.1 hw
  simp only [production, Form.choice, derives_alt, derives_kind] at hkinds
  rcases hkinds with ⟨t, ht, rfl⟩ | ⟨t, ht, rfl⟩ | ⟨t, ht, rfl⟩ | ⟨t, ht, rfl⟩ | ⟨t, ht, rfl⟩ | ⟨t, ht, rfl⟩ <;>
    exact ⟨t, rfl, by simp [ht]⟩

/-- A literal or a nil is one token, which has a payload. -/
theorem exists_of_literal (hw : Spells (.choice [.symbol .literal, .word .nil]) w) :
    ∃ t payload, w = [t] ∧ literalPayload? t = some payload := by
  unfold literalPayload?
  rcases derives_alt.1 hw with hw | hw
  · rcases kind_of_spells_literal hw with ⟨t, rfl, ht | ht | ht | ht | ht | ht⟩ <;>
      exact ⟨t, _, rfl, by rw [ht]⟩
  · obtain ⟨t, ht, rfl⟩ := derives_word.1 hw
    exact ⟨t, _, rfl, by rw [Token.kind_of_keyword? ht, if_pos ht]⟩

theorem takes_literal (hw : Spells (.choice [.symbol .literal, .word .nil]) w) : Takes E Grammar.literal w rest := by
  obtain ⟨t, payload, rfl, hpayload⟩ := exists_of_literal hw
  unfold Grammar.literal
  refine leaves_take_bind ?_
  rw [hpayload]
  exact leaves_silent (silent_openNode _ _) rfl

/-- Further items, each behind a comma. -/
theorem takes_commas {α : Type} {step : α → Parser α} {f : Form Symbol} (hw : Spells (.star (.seq (.kind .comma) f)) w)
    (F : List Token → Prop) (hF : ∀ (t : Token) v, t.kind = .comma → F (t :: v))
    (hstep : ∀ a (t : Token) u v, Spells f u → u.length < w.length → F v → Takes E (step a) ([t] ++ u) v)
    (hrest : F rest) (hend : Unlike .comma rest) (a : α) : Takes E (repeatWhile (atKind .comma) step a) w rest := by
  refine takes_repeatWhile (looks_atKind .comma) begins_kind.seq (fun t ht => by simp [ht]) F hF hw
    (fun a u v hu hlength hv => ?_) hrest hend.atKind a
  obtain ⟨x, y, hx, hy, rfl⟩ := derives_seq.1 hu
  obtain ⟨t, ht, rfl⟩ := derives_kind.1 hx
  rw [List.length_append, List.length_singleton] at hlength
  exact hstep a t y v hy (by omega) hv

variable {inner : Inner} {n : Nat}

/-! ## Arrays -/

theorem spells_inst_of_typeName (hw : Spells (.symbol .typeName) w) : Spells (.symbol .inst) w := by
  obtain ⟨t, d, ht, hd, rfl⟩ := spells_typeName.1 hw
  exact .symbol (Derives.seq (v := [t]) (.left (.token ht)) hd)

theorem begins_element : Begins (fun t => t.kind ≠ .rightBracket) (.symbol .element) := by
  have hliteral : Begins (fun t => t.kind ≠ .rightBracket) (.symbol .literal) := by
    refine begins_literal.mono (fun t ht hclosed => ?_)
    rw [hclosed] at ht
    nomatch ht
  have hnil : Begins (fun t => t.kind ≠ .rightBracket) (.word .nil) := by
    refine begins_token (fun t ht hclosed => ?_)
    rw [Token.kind_of_keyword? ht] at hclosed
    nomatch hclosed
  have hname : Begins (fun t => t.kind ≠ .rightBracket) (.symbol .typeName) := by
    refine Begins.symbol (begins_kind.mono (fun t ht hclosed => ?_)).seq
    rw [ht] at hclosed
    nomatch hclosed
  exact Begins.symbol (hliteral.alt (hnil.alt hname))

theorem takes_element (h : Accepts E n inner) (hw : Spells (.symbol .element) w) (hrest : Unlike .dot rest)
    (hn : Fits w.length n) : Takes E (element inner) w rest := by
  unfold element
  rcases derives_alt.1 (spells_symbol.1 hw) with hw | hw
  · have hform := h.form (r := .literal) (v := rest) rfl (.left hw) trivial hn.need
    rcases kind_of_spells_literal hw with ⟨t, rfl, ht | ht | ht | ht | ht | ht⟩ <;>
      exact takes_look_bind looks_look (look_kind ht (by decide)) hform
  · rcases derives_alt.1 hw with hw | hw
    · have hform := h.form (r := .literal) (v := rest) rfl (.right hw) trivial hn.need
      obtain ⟨t, ht, rfl⟩ := derives_word.1 hw
      exact takes_look_bind looks_look (look_word ht) hform
    · have hform := h.form (r := .inst) rfl (spells_inst_of_typeName hw) hrest hn.need
      obtain ⟨t, d, ht, hd, rfl⟩ := spells_typeName.1 hw
      exact takes_look_bind looks_look (look_kind ht (by decide)) hform

theorem takes_elements (h : Accepts E n inner) (hw : Spells (.commaList (.symbol .element)) w)
    (hrest : Next .rightBracket rest) (hn : Fits w.length n) (array : NodeId) : Takes E (elements inner array) w rest := by
  obtain ⟨u, v, hu, hv, rfl⟩ := derives_seq.1 hw
  rw [List.length_append] at hn
  have hdot : Unlike .dot (v ++ rest) :=
    follow_star begins_kind.seq _ (fun t v ht => by simp [ht]) hv (hrest.unlike (by decide))
  unfold elements
  refine (takes_element h hu hdot (hn.mono (by omega))).seq (fun node => ?_)
  refine takes_silent_bind (silent_attach _ _) (fun _ => ?_)
  refine takes_commas hv (Unlike .dot) (fun t v ht => by simp [ht]) (fun _ t u v hu hlength hv => ?_)
    (hrest.unlike (by decide)) (hrest.unlike (by decide)) ()
  refine takes_take.seq (fun _ => ?_)
  exact (takes_element h hu hv (hn.mono (by omega))).silent_end (fun _ => silent_attach _ _)

theorem takes_arrayLiteral (h : Accepts E n inner) (hw : Spells (.symbol .arrayLiteral) w)
    (hn : Rule.arrayLiteral.need w.length ≤ n) : Takes E (Grammar.arrayLiteral inner) w rest := by
  obtain ⟨x, y, hx, hy, rfl⟩ := derives_seq.1 (spells_symbol.1 hw)
  obtain ⟨u, z, hu, hz, rfl⟩ := derives_seq.1 hy
  obtain ⟨l, hl, rfl⟩ := derives_kind.1 hx
  obtain ⟨r, hr, rfl⟩ := derives_kind.1 hz
  unfold Grammar.arrayLiteral
  refine takes_silent_bind silent_location (fun start => ?_)
  refine (takes_expect hl).seq (fun _ => ?_)
  refine takes_silent_bind (silent_openNode _ _) (fun array => ?_)
  refine takes_look_bind (looks_atKind _) rfl ?_
  refine takes_opt_seq (fun hnil => ?_) (fun hne => ?_) (fun _ => ?_)
  · subst hnil
    simp [hr]
  · have hitems : Spells (.commaList (.symbol .element)) u := (derives_opt.1 hu).resolve_right hne
    obtain ⟨t, v, rfl, ht⟩ := begins_element.seq u hitems
    exact ⟨by simp [ht], takes_elements h hitems (by simp [hr]) (Rule.fits hn (by simp)) array⟩
  · refine takes_look_bind (looks_atKind _) (a := true) (by simp [hr]) ?_
    exact takes_take.result

/-! ## Declarations -/

/-- Inside a name with a type, only the type is a production of its own. -/
theorem takes_nameWithType (hw : Spells typedName w)
    (htype : ∀ y, Spells (.symbol .typeName) y → y.length < w.length → Takes E (inner.parse .typeDeclaration) y rest)
    (what : String) : Takes E (nameWithType inner what) w rest := by
  obtain ⟨t, c, y, ht, hc, hy, rfl⟩ := spells_typedName.1 hw
  have hlength : y.length < (t :: c :: y).length := by
    simp only [List.length_cons]
    omega
  unfold nameWithType
  refine Takes.seq (w := [t]) (takes_identifier ht) (fun name => ?_)
  refine Takes.seq (w := [c]) (takes_expect hc) (fun _ => ?_)
  exact (htype y hy hlength).result

theorem takes_typedNode (hw : Spells typedName w)
    (htype : ∀ y, Spells (.symbol .typeName) y → y.length < w.length → Takes E (inner.parse .typeDeclaration) y rest)
    (what : String) (payload : String → String → Payload) : Takes E (typedNode inner what payload) w rest := by
  unfold typedNode
  refine takes_silent_bind silent_location (fun start => ?_)
  exact (takes_nameWithType hw htype what).silent_end (fun named => silent_openNode _ _)

theorem takes_variableDefinition (h : Accepts E n inner) (hw : Spells typedName w) (hrest : Unlike .dot rest)
    (hn : Rule.variableDefinition.need w.length ≤ n) : Takes E (variableDefinition inner) w rest :=
  takes_typedNode hw (fun _ hy hlength => h.form rfl hy hrest (Rule.fits hn hlength).need) _ _

theorem takes_param (h : Accepts E n inner) (hw : Spells typedName w) (hrest : Unlike .dot rest)
    (hn : Rule.param.need w.length ≤ n) : Takes E (param inner) w rest :=
  takes_typedNode hw (fun _ hy hlength => h.form rfl hy hrest (Rule.fits hn hlength).need) _ _

theorem takes_superclass (h : Accepts E n inner) (hw : Spells superclass w) (hrest : Next .leftBrace rest)
    (hn : Fits w.length n) : Takes E (Grammar.superclass inner) w rest := by
  unfold Grammar.superclass
  rcases derives_opt.1 hw with hw | rfl
  · obtain ⟨x, y, hx, hy, rfl⟩ := derives_seq.1 hw
    obtain ⟨t, ht, rfl⟩ := derives_word.1 hx
    refine takes_look_bind (looks_atKeyword _) (atKeyword_cons ht) ?_
    refine takes_take.seq (fun _ => ?_)
    exact (h.form (r := .typeDeclaration) rfl hy (hrest.unlike (by decide)) (hn.mono (by simp)).need).result
  · obtain ⟨t, v, rfl, ht⟩ := hrest.exists_cons
    exact takes_look_bind (looks_atKeyword _) (atKeyword_cons_of_kind (by rw [ht]; decide)) takes_pure

theorem takes_memberVariables (h : Accepts E n inner) (hw : Spells members w) (hrest : Next .rightBrace rest)
    (hn : Fits w.length n) (owner : NodeId) : Takes E (memberVariables inner owner) w rest := by
  refine takes_repeatWhile looks_inBlock begins_typedName.seq (fun t ht => by simp [ht]) (fun _ => True)
    (fun _ _ _ => trivial) hw (fun _ u v hu hlength _ => ?_) trivial hrest.inBlock ()
  obtain ⟨x, y, hx, hy, rfl⟩ := derives_seq.1 hu
  obtain ⟨t, ht, rfl⟩ := derives_kind.1 hy
  rw [List.length_append] at hlength
  refine Takes.seq (h.form (r := .variableDefinition) rfl hx (by simp [Rule.Precedes, ht]) (hn.mono (by omega)).need)
    (fun member => ?_)
  exact (takes_expect ht).silent_end (fun _ => silent_attach _ _)

/-- A visibility is looked at only. -/
theorem takes_visibility {t : Token} (ht : t.keyword? = some .publicWord ∨ t.keyword? = some .privateWord) :
    Takes E visibility [] (t :: rest) := by
  unfold visibility
  rcases ht with ht | ht
  · exact takes_look_bind looks_look (look_word ht) takes_pure
  · exact takes_look_bind looks_look (look_word ht) takes_pure

theorem takes_scopeBlock (h : Accepts E n inner) (hw : Spells (.symbol .scopeBlock) w)
    (hn : Rule.scopeBlock.need w.length ≤ n) : Takes E (scopeBlock inner) w rest := by
  obtain ⟨x, y, hx, hy, rfl⟩ := derives_seq.1 (spells_symbol.1 hw)
  obtain ⟨a, z, ha, hz, rfl⟩ := derives_seq.1 hy
  obtain ⟨m, b, hm, hb, rfl⟩ := derives_seq.1 hz
  obtain ⟨l, hl, rfl⟩ := derives_kind.1 ha
  obtain ⟨r, hr, rfl⟩ := derives_kind.1 hb
  have hword : ∃ t, x = [t] ∧ (t.keyword? = some .publicWord ∨ t.keyword? = some .privateWord) := by
    rcases derives_alt.1 hx with hx | hx
    · obtain ⟨t, ht, rfl⟩ := derives_word.1 hx
      exact ⟨t, rfl, .inl ht⟩
    · obtain ⟨t, ht, rfl⟩ := derives_word.1 hx
      exact ⟨t, rfl, .inr ht⟩
  obtain ⟨t, rfl, ht⟩ := hword
  unfold scopeBlock
  refine takes_silent_bind silent_location (fun start => ?_)
  refine Takes.seq (w := []) (takes_visibility ht) (fun seen => ?_)
  refine takes_take.seq (fun _ => ?_)
  refine takes_silent_bind (silent_openNode _ _) (fun scope => ?_)
  refine (takes_expect hl).seq (fun _ => ?_)
  refine (takes_memberVariables h hm (by simp [hr])
    (Rule.fits hn (by simp only [List.length_append, List.length_cons]; omega)) scope).seq (fun _ => ?_)
  exact (takes_expect hr).result

theorem takes_recordBlock (h : Accepts E n inner) (hw : Spells (.symbol .recordBlock) w)
    (hn : Rule.recordBlock.need w.length ≤ n) : Takes E (recordBlock inner) w rest := by
  obtain ⟨x, w₁, hx, hw₁, rfl⟩ := derives_seq.1 (spells_symbol.1 hw)
  obtain ⟨y, w₂, hy, hw₂, rfl⟩ := derives_seq.1 hw₁
  obtain ⟨p, w₃, hp, hw₃, rfl⟩ := derives_seq.1 hw₂
  obtain ⟨a, w₄, ha, hw₄, rfl⟩ := derives_seq.1 hw₃
  obtain ⟨m, b, hm, hb, rfl⟩ := derives_seq.1 hw₄
  obtain ⟨k, hk, rfl⟩ := derives_word.1 hx
  obtain ⟨t, ht, rfl⟩ := derives_kind.1 hy
  obtain ⟨l, hl, rfl⟩ := derives_kind.1 ha
  obtain ⟨r, hr, rfl⟩ := derives_kind.1 hb
  unfold recordBlock
  refine takes_silent_bind silent_location (fun start => ?_)
  refine (takes_expectKeyword hk).seq (fun _ => ?_)
  refine (takes_identifier ht).seq (fun name => ?_)
  refine (takes_superclass h hp (by simp [hl])
    (Rule.fits hn (by simp only [List.length_append, List.length_cons]; omega))).seq (fun parent => ?_)
  refine takes_silent_bind (silent_openNode _ _) (fun record => ?_)
  refine (takes_expect hl).seq (fun _ => ?_)
  refine (takes_memberVariables h hm (by simp [hr])
    (Rule.fits hn (by simp only [List.length_append, List.length_cons]; omega)) record).seq (fun _ => ?_)
  exact (takes_expect hr).result

theorem takes_classMember (h : Accepts E n inner) (hw : Spells classMember w) (hn : Fits w.length n) :
    Takes E (Grammar.classMember inner) w rest := by
  unfold Grammar.classMember
  rcases derives_alt.1 hw with hw | hw
  · have hform := h.form (r := .scopeBlock) (v := rest) rfl hw trivial hn.need
    obtain ⟨x, y, hx, hy, rfl⟩ := derives_seq.1 (spells_symbol.1 hw)
    rcases derives_alt.1 hx with hx | hx
    · obtain ⟨t, ht, rfl⟩ := derives_word.1 hx
      exact takes_look_bind looks_look (look_word ht) hform
    · obtain ⟨t, ht, rfl⟩ := derives_word.1 hx
      exact takes_look_bind looks_look (look_word ht) hform
  · obtain ⟨x, y, hx, hy, rfl⟩ := derives_seq.1 hw
    have hmessage := h.form (r := .messageBlock) (v := rest) rfl hy trivial (hn.mono (by simp)).need
    obtain ⟨t, z, rfl, ht⟩ := Begins.symbol begins_declaration.seq y hy
    rcases derives_opt.1 hx with hx | rfl
    · have hflags := h.form (r := .flags) (v := t :: (z ++ rest)) rfl hx
        (by simp [Rule.Precedes, Token.kind_of_keyword? ht]) (hn.mono (by simp)).need
      obtain ⟨a, v, ha, hv, rfl⟩ := derives_seq.1 (spells_symbol.1 hx)
      obtain ⟨u, hu, rfl⟩ := derives_kind.1 ha
      exact takes_look_bind looks_look (look_kind hu (by decide)) (hflags.seq (fun _ => hmessage))
    · exact takes_look_bind looks_look (look_word ht) hmessage

theorem takes_classBlock (h : Accepts E n inner) (hw : Spells (.symbol .classBlock) w)
    (hn : Rule.classBlock.need w.length ≤ n) : Takes E (classBlock inner) w rest := by
  obtain ⟨x, w₁, hx, hw₁, rfl⟩ := derives_seq.1 (spells_symbol.1 hw)
  obtain ⟨y, w₂, hy, hw₂, rfl⟩ := derives_seq.1 hw₁
  obtain ⟨p, w₃, hp, hw₃, rfl⟩ := derives_seq.1 hw₂
  obtain ⟨a, w₄, ha, hw₄, rfl⟩ := derives_seq.1 hw₃
  obtain ⟨m, b, hm, hb, rfl⟩ := derives_seq.1 hw₄
  obtain ⟨k, hk, rfl⟩ := derives_word.1 hx
  obtain ⟨t, ht, rfl⟩ := derives_kind.1 hy
  obtain ⟨l, hl, rfl⟩ := derives_kind.1 ha
  obtain ⟨r, hr, rfl⟩ := derives_kind.1 hb
  unfold classBlock
  refine takes_silent_bind silent_location (fun start => ?_)
  refine (takes_expectKeyword hk).seq (fun _ => ?_)
  refine (takes_identifier ht).seq (fun name => ?_)
  refine (takes_superclass h hp (by simp [hl])
    (Rule.fits hn (by simp only [List.length_append, List.length_cons]; omega))).seq (fun parent => ?_)
  refine takes_silent_bind (silent_openNode _ _) (fun node => ?_)
  refine (takes_expect hl).seq (fun _ => ?_)
  refine Takes.seq (takes_repeatWhile looks_inBlock begins_classMember ?_ (fun _ => True) (fun _ _ _ => trivial) hm
    (fun _ u v hu hlength _ => ?_) trivial (Next.inBlock (by simp [hr])) ()) (fun _ => (takes_expect hr).result)
  · intro u hu
    rcases hu with hu | ⟨c, -, hu⟩
    · simp [hu]
    · simp [Token.kind_of_keyword? hu]
  · exact (takes_classMember h hu
      (Rule.fits hn (by simp only [List.length_append, List.length_cons]; omega))).silent_end (fun _ => silent_attach _ _)

theorem takes_params (h : Accepts E n inner) (hw : Spells (.symbol .params) w) (hdot : Unlike .dot rest)
    (hcomma : Unlike .comma rest) (hn : Fits w.length n) (declaration : NodeId) :
    Takes E (params inner declaration) w rest := by
  obtain ⟨u, v, hu, hv, rfl⟩ := derives_seq.1 (spells_symbol.1 hw)
  have hnext : Unlike .dot (v ++ rest) := follow_star begins_kind.seq _ (fun t v ht => by simp [ht]) hv hdot
  unfold params
  refine (h.form (r := .param) rfl hu hnext (hn.mono (by simp)).need).seq (fun node => ?_)
  refine takes_silent_bind (silent_attach _ _) (fun _ => ?_)
  refine takes_commas hv (Unlike .dot) (fun t v ht => by simp [ht]) (fun _ t u v hu hlength hv => ?_) hdot hcomma ()
  refine takes_take.seq (fun _ => ?_)
  exact (h.form (r := .param) rfl hu hv
    (hn.mono (by simp only [List.length_append]; omega)).need).silent_end (fun _ => silent_attach _ _)

/-- A parameter list ends before a return type or before the block. -/
theorem takes_paramList (h : Accepts E n inner) (hw : Spells (.opt (.choice [.seq (.kind .colon) (.symbol .params),
      .sequence [.kind .leftParen, .opt (.symbol .params), .kind .rightParen]])) w)
    (hrest : Next .leftBracket rest ∨ Next .leftBrace rest) (hn : Fits w.length n) (declaration : NodeId) :
    Takes E (paramList inner declaration) w rest := by
  have hunlike : ∀ k, k ≠ .leftBracket → k ≠ .leftBrace → Unlike k rest := by
    intro k hbracket hbrace
    rcases hrest with hrest | hrest
    · exact hrest.unlike hbracket.symm
    · exact hrest.unlike hbrace.symm
  unfold paramList
  rcases derives_opt.1 hw with hw | rfl
  · rcases derives_alt.1 hw with hw | hw
    · obtain ⟨x, y, hx, hy, rfl⟩ := derives_seq.1 hw
      obtain ⟨c, hc, rfl⟩ := derives_kind.1 hx
      refine takes_look_bind looks_look (look_kind hc (by decide)) (takes_take.seq (fun _ => ?_))
      exact takes_params h hy (hunlike _ (by decide) (by decide)) (hunlike _ (by decide) (by decide))
        (hn.mono (by simp)) declaration
    · obtain ⟨x, w₁, hx, hw₁, rfl⟩ := derives_seq.1 hw
      obtain ⟨y, z, hy, hz, rfl⟩ := derives_seq.1 hw₁
      obtain ⟨l, hl, rfl⟩ := derives_kind.1 hx
      obtain ⟨r, hr, rfl⟩ := derives_kind.1 hz
      refine takes_look_bind looks_look (look_kind hl (by decide)) (takes_take.seq (fun _ => ?_))
      refine takes_look_bind (looks_atKind _) rfl ?_
      refine takes_opt_seq (fun hnil => ?_) (fun hne => ?_) (fun _ => (takes_expect hr).result)
      · subst hnil
        simp [hr]
      · have hparams : Spells (.symbol .params) y := (derives_opt.1 hy).resolve_right hne
        have hitems : Takes E (params inner declaration) y ([r] ++ rest) :=
          takes_params h hparams (by simp [hr]) (by simp [hr])
            (hn.mono (by simp only [List.length_append, List.length_cons]; omega)) declaration
        obtain ⟨t, v, rfl, ht⟩ := Begins.symbol begins_typedName.seq y hparams
        exact ⟨by simp [ht], hitems⟩
  · rcases hrest with hrest | hrest
    · obtain ⟨t, v, rfl, ht⟩ := hrest.exists_cons
      exact takes_look_bind looks_look (look_kind ht (by decide)) takes_pure
    · obtain ⟨t, v, rfl, ht⟩ := hrest.exists_cons
      exact takes_look_bind looks_look (look_kind ht (by decide)) takes_pure

theorem takes_messageDeclaration (h : Accepts E n inner) (hw : Spells declaration w) (hrest : Next .leftBrace rest)
    (hn : Rule.messageDeclaration.need w.length ≤ n) : Takes E (messageDeclaration inner) w rest := by
  obtain ⟨x, w₁, hx, hw₁, rfl⟩ := derives_seq.1 hw
  obtain ⟨y, w₂, hy, hw₂, rfl⟩ := derives_seq.1 hw₁
  obtain ⟨z, r, hz, hr, rfl⟩ := derives_seq.1 hw₂
  obtain ⟨k, hk, rfl⟩ := derives_word.1 hx
  have hreturn : Next .leftBracket (r ++ rest) ∨ Next .leftBrace (r ++ rest) := by
    refine follow_opt (f := .symbol .returnType) (P := fun t => t.kind = .leftBracket) (Begins.symbol ?_)
      (fun v => Next .leftBracket v ∨ Next .leftBrace v) (fun t v ht => .inl (by simp [ht])) hr (.inr hrest)
    exact begins_kind.seq.alt begins_kind.seq
  have hname : Unlike .identifier (z ++ (r ++ rest)) := by
    refine follow_opt (P := fun t => t.kind = .colon ∨ t.kind = .leftParen) ?_ _ ?_ hz ?_
    · exact (begins_kind.mono (fun _ => .inl)).seq.alt (begins_kind.mono (fun _ => .inr)).seq
    · intro t v ht
      rcases ht with ht | ht <;> simp [ht]
    · rcases hreturn with hreturn | hreturn
      · exact hreturn.unlike (by decide)
      · exact hreturn.unlike (by decide)
  unfold messageDeclaration
  refine takes_silent_bind silent_location (fun start => ?_)
  refine (takes_expectKeyword hk).seq (fun _ => ?_)
  refine takes_look_bind (looks_atKind _) rfl ?_
  refine Takes.ite_seq (fun hb => ?_) (fun hb => ?_) (fun name => ?_)
  · rcases derives_opt.1 hy with hy | rfl
    · obtain ⟨t, ht, rfl⟩ := derives_kind.1 hy
      exact (takes_identifier ht).map
    · have hno := hname.atKind
      rw [List.nil_append, List.append_assoc] at hb
      rw [hb] at hno
      nomatch hno
  · rcases derives_opt.1 hy with hy | rfl
    · obtain ⟨t, ht, rfl⟩ := derives_kind.1 hy
      simp [ht] at hb
    · exact takes_pure
  refine takes_silent_bind (silent_openNode _ _) (fun node => ?_)
  refine (takes_paramList h hz hreturn
    (Rule.fits hn (by simp only [List.length_append, List.length_cons]; omega)) node).seq (fun _ => ?_)
  refine takes_look_bind (looks_atKind _) rfl ?_
  dsimp only
  rcases derives_opt.1 hr with hr | rfl
  · have hform := h.form (r := .returnType) (v := rest) rfl hr trivial
      (Rule.fits hn (by simp only [List.length_append, List.length_cons]; omega)).need
    obtain ⟨t, v, rfl, ht⟩ : ∃ t v, r = t :: v ∧ t.kind = .leftBracket :=
      Begins.symbol (begins_kind.seq.alt begins_kind.seq) r hr
    rw [if_pos (by simp [ht])]
    exact hform.silent_end (fun _ => (silent_attach _ _).bind (fun _ => silent_pure _))
  · rw [List.nil_append, if_neg (by simp [(hrest.unlike (j := .leftBracket) (by decide)).atKind])]
    exact takes_pure

theorem takes_messageBlock (h : Accepts E n inner) (hw : Spells (.symbol .messageBlock) w)
    (hn : Rule.messageBlock.need w.length ≤ n) : Takes E (messageBlock inner) w rest := by
  obtain ⟨d, w₁, hd, hw₁, rfl⟩ := derives_seq.1 (spells_symbol.1 hw)
  obtain ⟨x, w₂, hx, hw₂, rfl⟩ := derives_seq.1 hw₁
  obtain ⟨b, y, hb, hy, rfl⟩ := derives_seq.1 hw₂
  obtain ⟨l, hl, rfl⟩ := derives_kind.1 hx
  obtain ⟨r, hr, rfl⟩ := derives_kind.1 hy
  unfold messageBlock
  refine takes_silent_bind silent_location (fun start => ?_)
  refine takes_silent_bind (silent_openNode _ _) (fun block => ?_)
  refine (h.form (r := .messageDeclaration) rfl hd (by simp [Rule.Precedes, hl])
    (Rule.need_of_rank hn (by decide) (by simp))).seq (fun declaration => ?_)
  refine takes_silent_bind (silent_attach _ _) (fun _ => ?_)
  refine (takes_expect hl).seq (fun _ => ?_)
  refine (h.form (r := .statements) rfl hb (by simp [Rule.Precedes, hr])
    (Rule.fits hn (by simp only [List.length_append, List.length_cons]; omega)).need).seq (fun statements => ?_)
  refine takes_silent_bind (silent_attach _ _) (fun _ => ?_)
  exact (takes_expect hr).result

theorem takes_separated {α : Type} {item : Parser α} {f : Form Symbol} (hw : Spells (.commaList f) w)
    (hitem : ∀ u v, Spells f u → u.length ≤ w.length → Unlike .dot v → Takes E item u v)
    (hrest : Next .rightBracket rest) : Takes E (separated item) w rest := by
  obtain ⟨u, v, hu, hv, rfl⟩ := derives_seq.1 hw
  have hnext : Unlike .dot (v ++ rest) :=
    follow_star begins_kind.seq _ (fun t v ht => by simp [ht]) hv (hrest.unlike (by decide))
  unfold separated
  refine (hitem u _ hu (by simp) hnext).seq (fun first => ?_)
  refine takes_commas hv (Unlike .dot) (fun t v ht => by simp [ht]) (fun items t x y hx hlength hy => ?_)
    (hrest.unlike (by decide)) (hrest.unlike (by decide)) [first]
  exact takes_take.seq (fun _ => (hitem x y hx (by simp only [List.length_append]; omega) hy).result)

/-- The first name tells fields from types. -/
theorem takes_returnPayload (h : Accepts E n inner)
    (hw : Spells (.choice [.commaList (.symbol .typeName), .commaList typedName]) w) (hrest : Next .rightBracket rest)
    (hn : Fits w.length n) : Takes E (returnPayload inner) w rest := by
  unfold returnPayload
  rcases derives_alt.1 hw with hw | hw
  · have hitems : Takes E (separated (inner.parse .typeDeclaration)) w rest :=
      takes_separated hw (fun u v hu hlength hv => h.form rfl hu hv (hn.mono hlength).need) hrest
    refine takes_probe_bind (probes_lookAhead _) (a := false) ?_ hitems.map
    obtain ⟨u, v, hu, hv, rfl⟩ := derives_seq.1 hw
    obtain ⟨t, d, ht, hd, rfl⟩ := spells_typeName.1 hu
    have hcolon : Unlike .colon (d ++ (v ++ rest)) := by
      refine follow_star begins_kind.seq _ (fun t v ht => by simp [ht]) hd ?_
      exact follow_star begins_kind.seq _ (fun t v ht => by simp [ht]) hv (hrest.unlike (by decide))
    rw [List.cons_append, List.cons_append, List.append_assoc]
    exact behindKinds_name_colon ht hcolon
  · have hitems : Takes E (separated (returnField inner)) w rest :=
      takes_separated hw (fun u v hu hlength hv => takes_nameWithType hu
        (fun y hy hl => h.form rfl hy hv (hn.mono (by omega)).need) _) hrest
    refine takes_probe_bind (probes_lookAhead _) (a := true) ?_ hitems.map
    obtain ⟨u, v, hu, hv, rfl⟩ := derives_seq.1 hw
    obtain ⟨t, c, y, ht, hc, hy, rfl⟩ := spells_typedName.1 hu
    simp [Scan.behindKinds, ht, hc]

theorem takes_returnType (h : Accepts E n inner) (hw : Spells (.symbol .returnType) w)
    (hn : Rule.returnType.need w.length ≤ n) : Takes E (returnType inner) w rest := by
  have hsplit : ∃ l u r : List Token, Spells (.kind .leftBracket) l ∧
      Spells (.choice [.commaList (.symbol .typeName), .commaList typedName]) u ∧ Spells (.kind .rightBracket) r ∧
      w = l ++ (u ++ r) := by
    rcases derives_alt.1 (spells_symbol.1 hw) with hw | hw
    · obtain ⟨l, y, hl, hy, rfl⟩ := derives_seq.1 hw
      obtain ⟨u, r, hu, hr, rfl⟩ := derives_seq.1 hy
      exact ⟨l, u, r, hl, .left hu, hr, rfl⟩
    · obtain ⟨l, y, hl, hy, rfl⟩ := derives_seq.1 hw
      obtain ⟨u, r, hu, hr, rfl⟩ := derives_seq.1 hy
      exact ⟨l, u, r, hl, .right hu, hr, rfl⟩
  obtain ⟨x, u, y, hx, hu, hy, rfl⟩ := hsplit
  obtain ⟨l, hl, rfl⟩ := derives_kind.1 hx
  obtain ⟨r, hr, rfl⟩ := derives_kind.1 hy
  unfold returnType
  refine takes_silent_bind silent_location (fun start => ?_)
  refine (takes_expect hl).seq (fun _ => ?_)
  refine (takes_returnPayload h hu (by simp [hr])
    (Rule.fits hn (by simp only [List.length_append, List.length_cons]; omega))).seq (fun payload => ?_)
  refine takes_look_bind (looks_atKind _) (a := true) (by simp [hr]) ?_
  exact takes_take.silent_end (fun _ => silent_openNode _ _)

/-! ## Expressions -/

theorem ne_keyword_of_startsValue {t : Token} {k : Keyword} (h : StartsValue t) (hk : k ∉ valueWords) :
    t.keyword? ≠ some k := by
  intro hkt
  have hkind := Token.kind_of_keyword? hkt
  rcases h with h | h | h | h | ⟨k', hk', h⟩
  · rw [hkind] at h
    nomatch h
  · rw [hkind] at h
    nomatch h
  · rw [hkind] at h
    nomatch h
  · rw [hkind] at h
    nomatch h
  · rw [hkt] at h
    obtain rfl := Option.some.inj h
    exact hk hk'

theorem ne_kind_of_startsValue {t : Token} {k : TokenKind} (h : StartsValue t)
    (hk : (k ∉ [TokenKind.leftParen, .leftBracket, .identifier, .keyword]) ∧ k.isLiteral = false) : t.kind ≠ k := by
  rintro rfl
  rcases h with h | h | h | h | ⟨k', -, h⟩
  · exact hk.1 (by simp [h])
  · exact hk.1 (by simp [h])
  · exact hk.1 (by simp [h])
  · rw [hk.2] at h
    nomatch h
  · exact hk.1 (by simp [Token.kind_of_keyword? h])

/-- What follows a value is no dot. -/
theorem Chain.unlike_dot {inside : Bool} {u : List Token} (hu : Chain inside u) (hrest : Stops rest) :
    Unlike .dot (u ++ rest) := by
  cases hu with
  | nil =>
    rcases hrest with hrest | hrest
    · exact hrest.unlike (by decide)
    · exact hrest.unlike (by decide)
  | operator ht hp hu =>
    refine unlike_cons.2 (fun hdot => ?_)
    rw [hdot] at ht
    nomatch ht
  | name ht hu hcolon => exact unlike_cons.2 (by rw [ht]; decide)
  | colon hc hp hu => exact unlike_cons.2 (by rw [hc]; decide)

theorem takes_primary (h : Accepts E n inner) (hw : Spells (.symbol .primary) w) (hrest : Unlike .dot rest)
    (hn : Rule.expression.need w.length ≤ n) : Takes E (primary inner) w rest := by
  unfold primary
  rcases derives_alt.1 (spells_symbol.1 hw) with hw | hw
  · have hform := h.form (r := .groupedExpression) (v := rest) rfl hw trivial
      (Rule.need_of_rank hn (by decide) (Nat.le_refl _))
    obtain ⟨x, y, hx, hy, rfl⟩ := derives_seq.1 hw
    obtain ⟨t, ht, rfl⟩ := derives_kind.1 hx
    exact takes_look_bind looks_look (look_kind ht (by decide)) hform
  rcases derives_alt.1 hw with hw | hw
  · have hform := h.form (r := .arrayLiteral) (v := rest) rfl hw trivial
      (Rule.need_of_rank hn (by decide) (Nat.le_refl _))
    obtain ⟨x, y, hx, hy, rfl⟩ := derives_seq.1 (spells_symbol.1 hw)
    obtain ⟨t, ht, rfl⟩ := derives_kind.1 hx
    exact takes_look_bind looks_look (look_kind ht (by decide)) hform
  rcases derives_alt.1 hw with hw | hw
  · have hform := h.form (r := .literal) (v := rest) rfl (.left hw) trivial
      (Rule.need_of_rank hn (by decide) (Nat.le_refl _))
    rcases kind_of_spells_literal hw with ⟨t, rfl, ht | ht | ht | ht | ht | ht⟩ <;>
      exact takes_look_bind looks_look (look_kind ht (by decide)) hform
  rcases derives_alt.1 hw with hw | hw
  · have hform := h.form (r := .literal) (v := rest) rfl (.right hw) trivial
      (Rule.need_of_rank hn (by decide) (Nat.le_refl _))
    obtain ⟨t, ht, rfl⟩ := derives_word.1 hw
    exact takes_look_bind looks_look (look_word ht) hform
  rcases derives_alt.1 hw with hw | hw
  · have hform := h.form (r := .messageBlock) (v := rest) rfl hw trivial
      (Rule.need_of_rank hn (by decide) (Nat.le_refl _))
    obtain ⟨t, v, rfl, ht⟩ := Begins.symbol begins_declaration.seq w hw
    exact takes_look_bind looks_look (look_word ht) hform
  · have hform := h.form (r := .inst) rfl hw hrest (Rule.need_of_rank hn (by decide) (Nat.le_refl _))
    obtain ⟨x, y, hx, hy, rfl⟩ := derives_seq.1 (spells_symbol.1 hw)
    rcases derives_alt.1 hx with hx | hx
    · obtain ⟨t, ht, rfl⟩ := derives_kind.1 hx
      exact takes_look_bind looks_look (look_kind ht (by decide)) hform
    rcases derives_alt.1 hx with hx | hx
    · obtain ⟨t, ht, rfl⟩ := derives_word.1 hx
      exact takes_look_bind looks_look (look_word ht) hform
    · obtain ⟨t, ht, rfl⟩ := derives_word.1 hx
      exact takes_look_bind looks_look (look_word ht) hform

/-- An expression goes on with a message wherever one is next. -/
theorem leaves_expression_value (h : Accepts E n inner) {inside : Bool} {p u : List Token}
    (hp : Spells (.symbol .primary) p) (hu : Chain inside u) (hrest : Stops rest)
    (hn : Rule.expression.need (p ++ u).length ≤ n) :
    Leaves E (Grammar.expression inner) (p ++ (u ++ rest)) (Remains inside u rest) := by
  have hprimary : Takes E (primary inner) p (u ++ rest) :=
    takes_primary h hp (hu.unlike_dot hrest) (Nat.le_trans (Rule.need_mono _ (by simp)) hn)
  have hfits : Fits u.length n := by
    have hpos := List.length_pos_iff.2 (begins_primary.ne_nil p hp)
    exact Rule.fits hn (by simp only [List.length_append]; omega)
  have hno : ¬((p ++ (u ++ rest)).head?.bind Token.keyword? == some .returnWord) = true := by
    obtain ⟨t, v, rfl, ht⟩ := begins_primary p hp
    simpa using ne_keyword_of_startsValue ht (by decide)
  unfold Grammar.expression
  refine (looks_atKeyword _).leaves_bind ?_
  rw [if_neg hno]
  refine Leaves.bind hprimary (fun value v hv => ?_)
  subst hv
  refine looks_startsMessage.leaves_bind ?_
  cases hu with
  | nil =>
    have hstop : ((rest.head?).any (fun t => t.kind == .identifier || t.kind.isMessageOperator)) = false := by
      rcases hrest with hrest | hrest
      · obtain ⟨t, v, rfl, ht⟩ := hrest.exists_cons
        simp [ht, TokenKind.isMessageOperator]
      · obtain ⟨t, v, rfl, ht⟩ := hrest.exists_cons
        simp [ht, TokenKind.isMessageOperator]
    rw [List.nil_append, hstop, if_neg (by decide)]
    exact leaves_pure remains_nil
  | @operator _ t q u' ht hq hu' =>
    have hcolon : t.kind ≠ .colon := by
      intro hc
      rw [hc] at ht
      nomatch ht
    rw [if_pos (by simp [ht])]
    exact Leaves.mono (h.sent (.inr ⟨value, rfl⟩) hcolon (.operator ht hq hu') hrest hfits.need) (fun _ _ he => he)
      (fun _ hv => hv.mono (by simp))
  | @name _ t u' ht hu' hcolon =>
    rw [if_pos (by simp [ht])]
    exact Leaves.mono (h.sent (.inr ⟨value, rfl⟩) (by rw [ht]; decide) (.name ht hu' hcolon) hrest hfits.need)
      (fun _ _ he => he) (fun _ hv => hv.mono (by simp))
  | @colon c q u' hc hq hu' =>
    -- The colon belongs to a message further out.
    rw [if_neg (by simp [hc, TokenKind.isMessageOperator])]
    exact leaves_pure ⟨_, ⟨.colon hc hq hu', by simp [hc]⟩, Nat.le_refl _, (fun hi => nomatch hi), rfl⟩

theorem takes_expression_return (h : Accepts E n inner) (hw : ReturnBefore w rest) (hrest : Stops rest)
    (hn : Rule.expression.need w.length ≤ n) : Takes E (Grammar.expression inner) w rest := by
  have hreturned := h.returned (.inr rfl) hw hrest (Rule.need_of_rank hn (by decide) (Nat.le_refl _))
  have hhead : ∃ t v, w = t :: v ∧ t.keyword? = some .returnWord := by
    rcases hw with hw | ⟨hw, -⟩
    · exact begins_keyword.seq w hw
    · obtain ⟨t, ht, rfl⟩ := derives_word.1 hw
      exact ⟨t, [], rfl, ht⟩
  obtain ⟨t, v, rfl, ht⟩ := hhead
  unfold Grammar.expression
  exact takes_look_bind (looks_atKeyword _) (atKeyword_cons ht) hreturned

theorem takes_returnExpression (h : Accepts E n inner) (hw : ReturnBefore w rest) (hrest : Stops rest)
    (hn : Rule.returnExpression.need w.length ≤ n) : Takes E (Grammar.returnExpression inner) w rest := by
  unfold Grammar.returnExpression
  refine takes_silent_bind silent_location (fun start => ?_)
  rcases hw with hw | ⟨hw, hnext⟩
  · obtain ⟨x, a, hx, ha, rfl⟩ := derives_seq.1 hw
    obtain ⟨k, hk, rfl⟩ := derives_word.1 hx
    have hargument := h.form (r := .argument) rfl ha hrest (Rule.fits hn (by simp)).need
    refine (takes_expectKeyword hk).seq (fun _ => ?_)
    refine takes_silent_bind (silent_openNode _ _) (fun node => ?_)
    unfold returned
    rw [bind_assoc]
    obtain ⟨t, v, rfl, ht⟩ := begins_argument a ha
    refine takes_look_bind (looks_atKind _) (a := false) (by simpa using ne_kind_of_startsValue ht (by decide)) ?_
    exact hargument.silent_end (fun value => (silent_attach _ _).bind (fun _ => silent_pure _))
  · obtain ⟨k, hk, rfl⟩ := derives_word.1 hw
    refine Takes.seq (w := [k]) (u := []) (takes_expectKeyword hk) (fun _ => ?_)
    refine takes_silent_bind (silent_openNode _ _) (fun node => ?_)
    unfold returned
    rw [bind_assoc]
    refine takes_look_bind (looks_atKind _) (a := true) hnext.atKind ?_
    have hsilent : Silent ((do openNode .nil (← location)) >>= fun value => attach node value >>= fun _ => pure node) :=
      (silent_location.bind (fun _ => silent_openNode _ _)).bind (fun _ => (silent_attach _ _).bind (fun _ => silent_pure _))
    exact leaves_silent hsilent rfl

theorem leaves_argument (h : Accepts E n inner) {inside : Bool} {p u : List Token}
    (hp : Spells (.symbol .primary) p) (hu : Chain inside u) (hrest : Stops rest)
    (hn : Rule.argument.need (p ++ u).length ≤ n) :
    Leaves E (Grammar.argument inner) (p ++ (u ++ rest)) (Remains inside u rest) := by
  have hno : ¬((p ++ (u ++ rest)).head?.bind Token.keyword? == some .returnWord) = true := by
    obtain ⟨t, v, rfl, ht⟩ := begins_primary p hp
    simpa using ne_keyword_of_startsValue ht (by decide)
  unfold Grammar.argument
  refine (looks_atKeyword _).leaves_bind ?_
  rw [if_neg hno]
  exact h.value (.inr rfl) hp hu hrest (Rule.need_of_rank hn (by decide) (Nat.le_refl _))

theorem takes_groupedExpression (h : Accepts E n inner)
    (hw : Spells (.sequence [.kind .leftParen, .symbol .expression, .kind .rightParen]) w)
    (hn : Rule.groupedExpression.need w.length ≤ n) : Takes E (groupedExpression inner) w rest := by
  obtain ⟨x, y, hx, hy, rfl⟩ := derives_seq.1 hw
  obtain ⟨u, z, hu, hz, rfl⟩ := derives_seq.1 hy
  obtain ⟨l, hl, rfl⟩ := derives_kind.1 hx
  obtain ⟨r, hr, rfl⟩ := derives_kind.1 hz
  unfold groupedExpression
  refine takes_silent_bind silent_location (fun start => ?_)
  refine (takes_expect hl).seq (fun _ => ?_)
  refine takes_silent_bind (silent_openNode _ _) (fun group => ?_)
  refine (h.expression (.inl hu) (.inr (by simp [hr]))
    (Rule.fits hn (by simp only [List.length_append, List.length_cons]; omega)).need).seq (fun node => ?_)
  refine takes_silent_bind (silent_attach _ _) (fun _ => ?_)
  exact (takes_expect hr).result

/-- A name takes all the parameters behind it. -/
theorem leaves_parameters (h : Accepts E n inner) {u : List Token} (hu : Params u) (hrest : Stops rest)
    (hn : Fits u.length n) (node : NodeId) :
    Leaves E (repeatWhile (atKind .colon) (fun _ => do
      let _ ← take
      attach node (← inner.parse .argument)) ()) (u ++ rest) (· = rest) := by
  have hcolon : Unlike .colon rest := by
    rcases hrest with hrest | hrest
    · exact hrest.unlike (by decide)
    · exact hrest.unlike (by decide)
  refine Leaves.mono (leaves_repeatWhile (Remains true u rest) (looks_atKind .colon) (fun _ v hv hmore => ?_) ()
    ⟨u, hu, Nat.le_refl _, (fun hi => nomatch hi), rfl⟩) (fun _ _ he => he) (fun v hv => ?_)
  · obtain ⟨x, hx, hlength, -, rfl⟩ := hv
    cases x with
    | nil =>
      rw [List.nil_append, hcolon.atKind] at hmore
      nomatch hmore
    | cons c y =>
      obtain ⟨hc, q, z, rfl, hq, hz⟩ := hx.eq_cons
      rw [List.length_cons, List.length_append] at hlength
      have hargument := h.value (.inl rfl) hq hz hrest (hn.mono (by rw [List.length_append]; omega)).need
      rw [List.cons_append, List.append_assoc]
      refine leaves_take_bind ?_
      refine Leaves.bind hargument (fun argument v' hv' => ?_)
      refine leaves_silent (silent_attach _ _) ⟨hv'.mono (by omega), ?_⟩
      obtain ⟨x', -, hlength', -, rfl⟩ := hv'
      simp only [List.length_cons, List.length_append]
      omega
  · obtain ⟨⟨x, hx, -, -, rfl⟩, hend⟩ := hv
    cases x with
    | nil => rfl
    | cons c y => simp [hx.eq_cons.1] at hend

theorem leaves_message (h : Accepts E n inner) {inside : Bool} {t : Token} {u : List Token} (ht : t.kind ≠ .colon)
    (hu : Chain inside (t :: u)) (hrest : Stops rest) (hn : Rule.message.need (t :: u).length ≤ n) :
    Leaves E (Grammar.message inner) (t :: (u ++ rest)) (Remains inside u rest) := by
  have hfits : Fits u.length n := Rule.fits hn (by simp)
  unfold Grammar.message
  refine silent_location.leaves_bind (fun start => looks_look.leaves_bind ?_)
  dsimp only [List.head?_cons, Option.map_some, Option.bind_some]
  cases hu with
  | @operator _ _ q u' hoperator hq hu' =>
    have hname : t.kind ≠ .identifier := by
      intro hname
      rw [hname] at hoperator
      nomatch hoperator
    rw [if_neg hname, if_pos hoperator]
    refine leaves_take_bind ?_
    refine (silent_openNode _ _).leaves_bind (fun node => ?_)
    rw [List.append_assoc]
    refine Leaves.bind (h.value (.inl rfl) hq hu' hrest hfits.need) (fun argument v hv => ?_)
    exact leaves_silent ((silent_attach _ _).bind (fun _ => silent_pure _)) (hv.mono (by simp))
  | name hname hu' hcolon =>
    rw [if_pos hname]
    refine Leaves.bind (leaves_identifier (S := (· = u ++ rest)) hname rfl) (fun name v hv => ?_)
    subst hv
    refine (silent_openNode _ _).leaves_bind (fun node => ?_)
    refine Leaves.bind (leaves_parameters h ⟨hu', hcolon⟩ hrest hfits node) (fun _ v hv => ?_)
    subst hv
    exact leaves_pure remains_nil
  | colon hc hq hu' => exact absurd hc ht

theorem leaves_sendMessage (h : Accepts E n inner) (receiver : NodeId) {inside : Bool} {t : Token} {u : List Token}
    (ht : t.kind ≠ .colon) (hu : Chain inside (t :: u)) (hrest : Stops rest)
    (hn : (Rule.sendMessage receiver).need (t :: u).length ≤ n) :
    Leaves E (Grammar.sendMessage inner receiver) (t :: (u ++ rest)) (Remains inside u rest) := by
  unfold Grammar.sendMessage
  refine (silent_nodeLocation _).leaves_bind (fun l => ?_)
  refine (silent_openNode _ _).leaves_bind (fun send => ?_)
  refine Leaves.bind (h.sent (.inl rfl) ht hu hrest (Rule.need_of_rank hn (by simp [Rule.rank]) (Nat.le_refl _)))
    (fun message v hv => ?_)
  exact leaves_silent ((silent_attach _ _).bind (fun _ => (silent_attach _ _).bind (fun _ => silent_pure _))) hv

/-! ## Statements -/

theorem takes_assignment (h : Accepts E n inner)
    (hw : Spells (.sequence [.choice [typedName, .symbol .inst], .kind .assignment, .symbol .argument]) w)
    (hrest : Stops rest) (hn : Rule.assignment.need w.length ≤ n) : Takes E (Grammar.assignment inner) w rest := by
  obtain ⟨target, x, htarget, hx, rfl⟩ := derives_seq.1 hw
  obtain ⟨y, value, hy, hvalue, rfl⟩ := derives_seq.1 hx
  obtain ⟨o, ho, rfl⟩ := derives_kind.1 hy
  have hdot : ∀ v, Unlike .dot ([o] ++ v) := by simp [ho]
  have hlength : target.length ≤ (target ++ ([o] ++ value)).length := by simp
  unfold Grammar.assignment
  refine takes_silent_bind silent_location (fun start => ?_)
  refine takes_silent_bind (silent_openNode _ _) (fun node => ?_)
  refine takes_probe_bind (probes_lookAhead _) rfl ?_
  refine Takes.ite_seq (fun hb => ?_) (fun hb => ?_) (fun target => ?_)
  · rcases derives_alt.1 htarget with htarget | htarget
    · exact h.form (r := .variableDefinition) rfl htarget (hdot _) (Rule.need_of_rank hn (by decide) hlength)
    · -- No colon stands behind the first name of an instance.
      obtain ⟨a, d, ha, hd, rfl⟩ := derives_seq.1 (spells_symbol.1 htarget)
      have hcolon : Unlike .colon (d ++ ([o] ++ (value ++ rest))) :=
        follow_star begins_kind.seq _ (fun t v ht => by simp [ht]) hd (by simp [ho])
      have hno : ∀ k, Spells (.word k) a → False := by
        intro k hk
        obtain ⟨t, ht, rfl⟩ := derives_word.1 hk
        simp [Scan.behindKinds, Token.kind_of_keyword? ht] at hb
      rcases derives_alt.1 ha with ha | ha
      · obtain ⟨t, ht, rfl⟩ := derives_kind.1 ha
        have hname := behindKinds_name_colon ht hcolon
        simp only [List.append_assoc, List.cons_append, List.nil_append] at hb hname
        exact (Bool.false_ne_true (hname.symm.trans hb)).elim
      · rcases derives_alt.1 ha with ha | ha
        · exact (hno _ ha).elim
        · exact (hno _ ha).elim
  · rcases derives_alt.1 htarget with htarget | htarget
    · obtain ⟨t, c, z, ht, hc, -, rfl⟩ := spells_typedName.1 htarget
      simp [Scan.behindKinds, ht, hc] at hb
    · exact h.form (r := .inst) rfl htarget (hdot _) (Rule.need_of_rank hn (by decide) hlength)
  refine (takes_expect ho).seq (fun operator => ?_)
  refine takes_silent_bind (silent_openNode _ _) (fun message => ?_)
  refine (h.form (r := .argument) rfl hvalue hrest
    (Rule.fits hn (by simp only [List.length_append, List.length_cons]; omega)).need).silent_end (fun value => ?_)
  exact (silent_attach _ _).bind (fun _ => (silent_attach _ _).bind (fun _ => (silent_attach _ _).bind (fun _ => silent_pure _)))

/-- A value that begins with an identifier is an instance, and its name is a dotted name. -/
theorem spells_typeName_of_primary {t : Token} {v : List Token} (ht : t.kind = .identifier)
    (hw : Spells (.symbol .primary) (t :: v)) : Spells (.symbol .typeName) (t :: v) := by
  have hkind : ∀ {f : Form Symbol} {k : TokenKind}, k ≠ .identifier → Begins (fun u => u.kind = k) f → Spells f (t :: v) →
      Spells (.symbol .typeName) (t :: v) := by
    intro f k hk hf hw
    obtain ⟨u, x, hux, hu⟩ := hf _ hw
    obtain ⟨rfl, -⟩ := List.cons.inj hux
    exact absurd (hu.symm.trans ht) hk
  have hword : ∀ {f : Form Symbol} {c : Keyword}, Begins (fun u => u.keyword? = some c) f → Spells f (t :: v) →
      Spells (.symbol .typeName) (t :: v) := fun hf => hkind (by decide) (hf.mono (fun _ hu => Token.kind_of_keyword? hu))
  rcases derives_alt.1 (spells_symbol.1 hw) with hw | hw
  · exact hkind (k := .leftParen) (by decide) begins_kind.seq hw
  rcases derives_alt.1 hw with hw | hw
  · exact hkind (k := .leftBracket) (by decide) (Begins.symbol begins_kind.seq) hw
  rcases derives_alt.1 hw with hw | hw
  · obtain ⟨u, x, hux, hu⟩ := begins_literal _ hw
    obtain ⟨rfl, -⟩ := List.cons.inj hux
    rw [ht] at hu
    nomatch hu
  rcases derives_alt.1 hw with hw | hw
  · exact hword begins_keyword hw
  rcases derives_alt.1 hw with hw | hw
  · exact hword (Begins.symbol begins_declaration.seq) hw
  · obtain ⟨a, d, ha, hd, had⟩ := derives_seq.1 (spells_symbol.1 hw)
    rcases derives_alt.1 ha with ha | ha
    · exact spells_symbol.2 (derives_seq.2 ⟨a, d, ha, hd, had⟩)
    rcases derives_alt.1 ha with ha | ha
    · exact hword begins_keyword.seq (derives_seq.2 ⟨a, d, ha, hd, had⟩)
    · exact hword begins_keyword.seq (derives_seq.2 ⟨a, d, ha, hd, had⟩)

/-- Without a colon behind its first name, no variable definition is ahead. -/
theorem behindDefinition_name {t : Token} {v : List Token} (ht : t.kind = .identifier) (hv : Unlike .colon v) :
    (Scan.behindDefinition (t :: v)).isSome = false := by
  have hnone := behindKinds_name_colon ht hv
  rw [Option.isSome_eq_false_iff, Option.isNone_iff_eq_none] at hnone
  rw [Scan.behindDefinition, hnone]
  rfl

/-- A name with a type in front of a semicolon. -/
theorem takes_namedStatement_definition (h : Accepts E n inner) (hw : Spells typedName w) (hrest : Next .endOfStatement rest)
    (hn : Fits w.length n) : Takes E (namedStatement inner) w rest := by
  have hform := h.form (r := .variableDefinition) rfl hw (hrest.unlike (by decide)) hn.need
  obtain ⟨t, c, y, ht, hc, hy, rfl⟩ := spells_typedName.1 hw
  unfold namedStatement
  refine takes_probe_bind probes_looksLikeVariableDefinition (a := true) ?_ hform
  have hname := behindName_append hy (hrest.unlike (by decide))
  obtain ⟨s, v, rfl, hs⟩ := hrest.exists_cons
  rw [List.cons_append, List.cons_append, Scan.behindDefinition, Scan.behindKinds, if_pos ht, Scan.behindKinds, if_pos hc]
  simp [Scan.behindKinds, hname, hs]

/-- An assignment to a name, with a type or without. -/
theorem takes_namedStatement_assignment (h : Accepts E n inner) {target value : List Token} {o : Token}
    (htarget : Spells (.choice [typedName, .symbol .typeName]) target) (ho : o.kind = .assignment)
    (hvalue : Spells (.symbol .argument) value) (hrest : Next .endOfStatement rest)
    (hn : Fits (target ++ ([o] ++ value)).length n) : Takes E (namedStatement inner) (target ++ ([o] ++ value)) rest := by
  have htarget' : Spells (.choice [typedName, .symbol .inst]) target := by
    rcases derives_alt.1 htarget with htarget | htarget
    · exact .left htarget
    · exact .right (spells_inst_of_typeName htarget)
  have hform := h.form (r := .assignment) (v := rest) rfl (Derives.seq htarget' (Derives.seq (v := [o]) (.token ho) hvalue))
    (.inl hrest) hn.need
  unfold namedStatement
  rcases derives_alt.1 htarget with htarget | htarget
  · obtain ⟨t, c, y, ht, hc, hy, rfl⟩ := spells_typedName.1 htarget
    refine takes_probe_bind probes_looksLikeVariableDefinition (a := false) ?_ ?_
    · -- The assignment operator stands where the semicolon of a definition would.
      have hname : Scan.behindName (y ++ o :: (value ++ rest)) = some (o :: (value ++ rest)) :=
        behindName_append hy (by simp [ho])
      rw [List.append_assoc, List.cons_append, List.cons_append, Scan.behindDefinition, Scan.behindKinds, if_pos ht,
        Scan.behindKinds, if_pos hc]
      simp [Scan.behindKinds, hname, ho]
    · exact takes_probe_bind (probes_lookAhead _) (a := true) (by simp [Scan.behindKinds, ht, hc]) hform
  · have hname : Scan.behindName (target ++ o :: (value ++ rest)) = some (o :: (value ++ rest)) :=
      behindName_append htarget (by simp [ho])
    obtain ⟨t, d, ht, hd, rfl⟩ := spells_typeName.1 htarget
    have hcolon : Unlike .colon (d ++ (o :: (value ++ rest))) :=
      follow_star begins_kind.seq _ (fun t v ht => by simp [ht]) hd (by simp [ho])
    have happend : t :: d ++ ([o] ++ value) ++ rest = t :: (d ++ (o :: (value ++ rest))) := by simp
    refine takes_probe_bind probes_looksLikeVariableDefinition (a := false) ?_ ?_
    · rw [happend]
      exact behindDefinition_name ht hcolon
    refine takes_probe_bind (probes_lookAhead _) (a := false) ?_ ?_
    · rw [happend]
      exact behindKinds_name_colon ht hcolon
    refine takes_probe_bind probes_looksLikePlainAssignment (a := true) ?_ hform
    rw [happend, Scan.behindTarget, ← List.cons_append, hname]
    simp [Scan.behindKinds, ho]

/-- Behind the first value of an expression stands the name or the operator of its message, or else the semicolon. -/
theorem unlike_of_message {m : List Token} (hm : Spells (.opt (.symbol .message)) m) (hrest : Next .endOfStatement rest)
    {k : TokenKind} (hname : k ≠ .identifier) (hoperator : k.isMessageOperator = false) (hend : k ≠ .endOfStatement) :
    Unlike k (m ++ rest) := by
  rcases derives_opt.1 hm with hm | rfl
  · rcases derives_alt.1 (spells_symbol.1 hm) with hm | hm
    · obtain ⟨u, y, rfl, hu⟩ := begins_kind.seq m hm
      exact unlike_cons.2 (by rw [hu]; exact hname.symm)
    · obtain ⟨a, b, ha, hb, rfl⟩ := derives_seq.1 hm
      obtain ⟨o, ho, rfl⟩ := spells_operator.1 ha
      refine unlike_cons.2 (fun hk => ?_)
      rw [hk, hoperator] at ho
      nomatch ho
  · exact hrest.unlike hend.symm

/-- A message that begins with the assignment operator has one argument, the value of an assignment. -/
theorem exists_value_of_message {m : List Token} (hm : Spells (.opt (.symbol .message)) m) (hrest : Next .endOfStatement rest)
    (hassign : Next .assignment (m ++ rest)) :
    ∃ o b, o.kind = .assignment ∧ Spells (.symbol .argument) b ∧ m = [o] ++ b := by
  rcases derives_opt.1 hm with hm | rfl
  · rcases derives_alt.1 (spells_symbol.1 hm) with hm | hm
    · obtain ⟨u, y, rfl, hu⟩ := begins_kind.seq m hm
      rw [List.cons_append, next_cons, hu] at hassign
      nomatch hassign
    · obtain ⟨a, b, ha, hb, rfl⟩ := derives_seq.1 hm
      obtain ⟨o, -, rfl⟩ := spells_operator.1 ha
      exact ⟨o, b, by simpa using hassign, hb, rfl⟩
  · obtain ⟨s, hs, hs'⟩ := hrest
    obtain ⟨u, hu, hu'⟩ := hassign
    rw [Option.mem_unique hs hu, hu'] at hs'
    nomatch hs'

/-- An expression that begins with a name. One that goes on with the assignment operator is taken as an assignment. -/
theorem takes_namedStatement_expression (h : Accepts E n inner) (hw : Spells (.symbol .argument) w)
    (hhead : Next .identifier w) (hrest : Next .endOfStatement rest) (hn : Fits w.length n) :
    Takes E (namedStatement inner) w rest := by
  have hexpression := h.expression (.inl (.symbol (.right hw))) (.inl hrest) hn.need
  obtain ⟨p, m, hp, hm, rfl⟩ := derives_seq.1 (spells_symbol.1 hw)
  obtain ⟨t, x, rfl, -⟩ := begins_primary p hp
  have ht : t.kind = .identifier := by simpa using hhead
  have htype := spells_typeName_of_primary ht hp
  obtain ⟨t', d, ht', hd, hcons⟩ := spells_typeName.1 htype
  obtain ⟨rfl, rfl⟩ := List.cons.inj hcons
  have hcolon : Unlike .colon (x ++ (m ++ rest)) :=
    follow_star begins_kind.seq _ (fun t v ht => by simp [ht]) hd (unlike_of_message hm hrest (by decide) rfl (by decide))
  have hname := behindName_append htype (unlike_of_message (k := .dot) hm hrest (by decide) rfl (by decide))
  by_cases hassign : Next .assignment (m ++ rest)
  · obtain ⟨o, b, ho, hb, rfl⟩ := exists_value_of_message hm hrest hassign
    exact takes_namedStatement_assignment h (.right htype) ho hb hrest hn
  · have htarget : (Scan.behindTarget (t :: x ++ (m ++ rest))).isSome = false := by
      rw [Scan.behindTarget, hname]
      cases hmr : m ++ rest with
      | nil => rfl
      | cons u v =>
        rw [hmr, next_cons] at hassign
        simp [Scan.behindKinds, hassign]
    rw [← List.append_assoc] at htarget
    have happend : t :: x ++ m ++ rest = t :: (x ++ (m ++ rest)) := by simp
    unfold namedStatement
    refine takes_probe_bind probes_looksLikeVariableDefinition (a := false) ?_ ?_
    · rw [happend]
      exact behindDefinition_name ht hcolon
    refine takes_probe_bind (probes_lookAhead _) (a := false) ?_ ?_
    · rw [happend]
      exact behindKinds_name_colon ht hcolon
    exact takes_probe_bind probes_looksLikePlainAssignment htarget hexpression

/-- A statement that is no class and no record, without its semicolon. -/
inductive Unclosed : List Token → Prop where
  | definition {w : List Token} (hw : Spells typedName w) : Unclosed w
  | assignment {target value : List Token} {o : Token} (htarget : Spells (.choice [typedName, .symbol .typeName]) target)
      (ho : o.kind = .assignment) (hvalue : Spells (.symbol .argument) value) : Unclosed (target ++ ([o] ++ value))
  | bareReturn {w : List Token} (hw : Spells (.word .returnWord) w) : Unclosed w
  | expression {w : List Token} (hw : Spells (.symbol .expression) w) : Unclosed w

theorem unclosed_of_statement (hw : Spells (.symbol .statement) w) : Spells (.symbol .classBlock) w ∨
    Spells (.symbol .recordBlock) w ∨ ∃ v s, w = v ++ [s] ∧ Token.kind s = .endOfStatement ∧ Unclosed v := by
  rcases derives_alt.1 (spells_symbol.1 hw) with hw | hw
  · exact .inl hw
  rcases derives_alt.1 hw with hw | hw
  · exact .inr (.inl hw)
  refine .inr (.inr ?_)
  rcases derives_alt.1 hw with hw | hw
  · obtain ⟨v, y, hv, hy, rfl⟩ := derives_seq.1 hw
    obtain ⟨s, hs, rfl⟩ := derives_kind.1 hy
    exact ⟨v, s, rfl, hs, .definition hv⟩
  rcases derives_alt.1 hw with hw | hw
  · obtain ⟨target, x, htarget, hx, rfl⟩ := derives_seq.1 hw
    obtain ⟨y, z, hy, hz, rfl⟩ := derives_seq.1 hx
    obtain ⟨value, a, hvalue, ha, rfl⟩ := derives_seq.1 hz
    obtain ⟨o, ho, rfl⟩ := derives_kind.1 hy
    obtain ⟨s, hs, rfl⟩ := derives_kind.1 ha
    refine ⟨target ++ ([o] ++ value), s, by simp, hs, .assignment ?_ ho hvalue⟩
    rcases derives_alt.1 htarget with htarget | htarget
    · exact .left htarget
    · exact .right (.symbol htarget)
  rcases derives_alt.1 hw with hw | hw
  · obtain ⟨v, y, hv, hy, rfl⟩ := derives_seq.1 hw
    obtain ⟨s, hs, rfl⟩ := derives_kind.1 hy
    exact ⟨v, s, rfl, hs, .bareReturn hv⟩
  · obtain ⟨v, y, hv, hy, rfl⟩ := derives_seq.1 hw
    obtain ⟨s, hs, rfl⟩ := derives_kind.1 hy
    exact ⟨v, s, rfl, hs, .expression hv⟩

/-- The first token of a statement with a semicolon begins a value or is a `return`. -/
theorem Unclosed.begins {v : List Token} (hv : Unclosed v) :
    ∃ t x, v = t :: x ∧ (StartsValue t ∨ t.keyword? = some .returnWord) := by
  have hname : ∀ {f : Form Symbol}, Begins (fun t => t.kind = .identifier) f →
      Begins (fun t => StartsValue t ∨ t.keyword? = some .returnWord) f :=
    fun hf => hf.mono (fun _ ht => .inl (.inr (.inr (.inl ht))))
  cases hv with
  | definition hv => exact hname begins_typedName v hv
  | @assignment target value o htarget ho hvalue =>
    have htyped : Begins (fun t => t.kind = .identifier) (.choice [typedName, .symbol .typeName]) :=
      begins_typedName.alt (Begins.symbol begins_kind.seq)
    obtain ⟨t, x, rfl, ht⟩ := hname htyped target htarget
    exact ⟨t, _, rfl, ht⟩
  | bareReturn hv => exact (begins_keyword.mono (fun _ ht => .inr ht)) v hv
  | expression hv => exact begins_expression v hv

theorem takes_closedStatement (h : Accepts E n inner) {s : Token} (hw : Unclosed w) (hs : s.kind = .endOfStatement)
    (hn : Fits w.length n) : Takes E (closedStatement inner) (w ++ [s]) rest := by
  have hnext : Next .endOfStatement ([s] ++ rest) := by simp [hs]
  unfold closedStatement
  refine takes_look_bind (looks_atKind _) rfl ?_
  refine Takes.ite_seq (fun hb => ?_) (fun hb => ?_) (fun node => (takes_expect hs).result)
  · cases hw with
    | definition hw => exact takes_namedStatement_definition h hw hnext hn
    | assignment htarget ho hvalue => exact takes_namedStatement_assignment h htarget ho hvalue hnext hn
    | bareReturn hw =>
      obtain ⟨t, ht, rfl⟩ := derives_word.1 hw
      simp [Token.kind_of_keyword? ht] at hb
    | expression hw =>
      rcases derives_alt.1 (spells_symbol.1 hw) with hw | hw
      · obtain ⟨t, v, rfl, ht⟩ := begins_keyword.seq w hw
        simp [Token.kind_of_keyword? ht] at hb
      · obtain ⟨t, v, rfl, -⟩ := begins_argument w hw
        exact takes_namedStatement_expression h hw (by simpa using hb) hnext hn
  · cases hw with
    | definition hw =>
      obtain ⟨t, v, rfl, ht⟩ := begins_typedName w hw
      simp [ht] at hb
    | @assignment target value o htarget ho hvalue =>
      have htyped : Begins (fun t => t.kind = .identifier) (.choice [typedName, .symbol .typeName]) :=
        begins_typedName.alt (Begins.symbol begins_kind.seq)
      obtain ⟨t, v, rfl, ht⟩ := htyped target htarget
      simp [ht] at hb
    | bareReturn hw => exact h.expression (.inr ⟨hw, hnext⟩) (.inl hnext) hn.need
    | expression hw => exact h.expression (.inl hw) (.inl hnext) hn.need

theorem takes_statement (h : Accepts E n inner) (hw : Spells (.symbol .statement) w)
    (hn : Rule.statement.need w.length ≤ n) : Takes E (Grammar.statement inner) w rest := by
  unfold Grammar.statement
  rcases unclosed_of_statement hw with hw | hw | ⟨v, s, rfl, hs, hv⟩
  · have hform := h.form (r := .classBlock) (v := rest) rfl hw trivial
      (Rule.need_of_rank hn (by decide) (Nat.le_refl _))
    obtain ⟨t, v, rfl, ht⟩ := Begins.symbol begins_keyword.seq w hw
    exact takes_look_bind looks_look (look_word ht) hform
  · have hform := h.form (r := .recordBlock) (v := rest) rfl hw trivial
      (Rule.need_of_rank hn (by decide) (Nat.le_refl _))
    obtain ⟨t, v, rfl, ht⟩ := Begins.symbol begins_keyword.seq w hw
    exact takes_look_bind looks_look (look_word ht) hform
  · have hclosed : Takes E (closedStatement inner) (v ++ [s]) rest :=
      takes_closedStatement h hv hs (Rule.fits hn (by simp))
    obtain ⟨t, x, rfl, ht⟩ := hv.begins
    have hnot : ∀ k ∈ [Keyword.classWord, .record], t.keyword? ≠ some k := by
      intro k hk hkt
      rcases ht with ht | ht
      · exact absurd hkt (ne_keyword_of_startsValue ht (by revert hk; cases k <;> decide))
      · rw [hkt] at ht
        obtain rfl := Option.some.inj ht
        revert hk
        decide
    refine takes_look_bind looks_look rfl ?_
    split
    · rename_i hlook
      exact absurd (Prod.mk.inj hlook).2 (hnot _ (by decide))
    · rename_i hlook
      exact absurd (Prod.mk.inj hlook).2 (hnot _ (by decide))
    · exact hclosed

theorem not_rightBrace_of_startsStatement {t : Token} (h : StartsStatement t) : t.kind ≠ .rightBrace := by
  rcases h with h | ⟨k, -, h⟩
  · exact ne_kind_of_startsValue h (by decide)
  · rw [Token.kind_of_keyword? h]
    decide

theorem takes_statements (h : Accepts E n inner) (hw : Spells (.star (.symbol .statement)) w) (hrest : Next .rightBrace rest)
    (hn : Rule.statements.need w.length ≤ n) : Takes E (statements inner) w rest := by
  unfold statements
  refine takes_silent_bind silent_location (fun start => ?_)
  refine takes_silent_bind (silent_openNode _ _) (fun block => ?_)
  refine Takes.result (takes_repeatWhile looks_inBlock begins_statement
    (fun t ht => by simpa using not_rightBrace_of_startsStatement ht) (fun _ => True) (fun _ _ _ => trivial) hw
    (fun _ u v hu hlength _ => ?_) trivial hrest.inBlock ())
  exact (h.form (r := .statement) rfl hu trivial (Rule.need_of_rank hn (by decide) hlength)).silent_end
    (fun _ => silent_attach _ _)

/-! ## Units -/

/-- A flag is taken with the comma behind it; without one, the bracket that ends the list is next. -/
theorem takes_flag {t : Token} {u : List Token} (ht : t.kind = .identifier ∨ t.kind = .keyword)
    (hu : Spells (.kind .comma) u ∨ u = [] ∧ Next .rightBracket rest) (fs : List String) :
    Takes E (flag fs) ([t] ++ u) rest := by
  have hname : Takes E flagName [t] (u ++ rest) := by
    unfold flagName
    rcases ht with ht | ht
    · exact takes_look_bind looks_look (look_kind ht (by decide)) takes_take
    · exact takes_look_bind looks_look (a := (some .keyword, t.keyword?)) (by simp [ht]) takes_take
  have hend : ∀ name : Token, Takes E (flagEnd fs name) u rest := by
    intro name
    unfold flagEnd
    rcases hu with hu | ⟨rfl, hnext⟩
    · obtain ⟨c, hc, rfl⟩ := derives_kind.1 hu
      exact takes_look_bind looks_look (look_kind hc (by decide)) takes_take.result
    · obtain ⟨r, v, rfl, hr⟩ := hnext.exists_cons
      exact takes_look_bind looks_look (look_kind hr (by decide)) takes_pure
  exact hname.seq hend

/-- What may be left of a list of flags in front of the tokens `rest`. -/
inductive FlagsBefore (rest : List Token) : List Token → Prop where
  | nil : FlagsBefore rest rest
  | last {t : Token} (ht : t.kind = .identifier ∨ t.kind = .keyword) : FlagsBefore rest (t :: rest)
  | cons {t c : Token} {v : List Token} (ht : t.kind = .identifier ∨ t.kind = .keyword) (hc : c.kind = .comma)
      (hv : FlagsBefore rest v) : FlagsBefore rest (t :: c :: v)

theorem flagsBefore_append (hw : Spells flagItems w) : FlagsBefore rest (w ++ rest) := by
  obtain ⟨x, y, hx, hy, rfl⟩ := derives_seq.1 hw
  obtain ⟨ws, hws, rfl⟩ := derives_star.1 hx
  clear hw hx
  induction ws with
  | nil =>
    rcases derives_opt.1 hy with hy | rfl
    · obtain ⟨t, ht, rfl⟩ := exists_of_flag hy
      exact .last ht
    · exact .nil
  | cons u ws ih =>
    obtain ⟨a, b, ha, hb, rfl⟩ := derives_seq.1 (hws u (by simp))
    obtain ⟨t, ht, rfl⟩ := exists_of_flag ha
    obtain ⟨c, hc, rfl⟩ := derives_kind.1 hb
    exact .cons ht hc (ih (fun v hv => hws v (by simp [hv])))

/-- The flags of a list, one behind the other up to its bracket. -/
theorem takes_flagLoop (hw : Spells flagItems w) (hrest : Next .rightBracket rest) :
    Takes E (repeatWhile (not <$> atKind .rightBracket) flag []) w rest := by
  refine Leaves.mono (leaves_repeatWhile (FlagsBefore rest) ((looks_atKind .rightBracket).map not) (fun fs v hv hmore => ?_) []
    (flagsBefore_append hw)) (fun _ _ he => he) (fun v ⟨hv, hend⟩ => ?_)
  · cases hv with
    | nil =>
      rw [hrest.atKind] at hmore
      nomatch hmore
    | last ht =>
      refine Leaves.mono (takes_flag (u := []) ht (.inr ⟨rfl, hrest⟩) fs) (fun _ _ he => he) (fun v' hv' => ?_)
      subst hv'
      exact ⟨.nil, by simp⟩
    | @cons t c v ht hc hv =>
      have hflag : Takes E (flag fs) ([t] ++ [c]) v := takes_flag ht (.inl (derives_kind.2 ⟨c, hc, rfl⟩)) fs
      refine Leaves.mono hflag (fun _ _ he => he) (fun v' hv' => ?_)
      subst hv'
      exact ⟨hv, by simp only [List.length_cons]; omega⟩
  · have hflag : ∀ {t : Token} {x : List Token}, t.kind = .identifier ∨ t.kind = .keyword →
        (!((t :: x).head?.map Token.kind == some .rightBracket)) = true := by
      intro t x ht
      rcases ht with ht | ht <;> simp [ht]
    cases hv with
    | nil => rfl
    | last ht => exact absurd hend (by rw [hflag ht]; decide)
    | cons ht hc hv => exact absurd hend (by rw [hflag ht]; decide)

theorem takes_flags (hw : Spells (.symbol .flags) w) (hrest : Unlike .leftBracket rest) : Takes E Grammar.flags w rest := by
  obtain ⟨x, y, hx, hy, rfl⟩ := derives_seq.1 (spells_symbol.1 hw)
  obtain ⟨a, ha, rfl⟩ := derives_kind.1 hx
  have hlist : Takes E flagList y rest := by
    unfold flagList
    rcases derives_opt.1 hy with hy | rfl
    · obtain ⟨x, z, hx, hz, rfl⟩ := derives_seq.1 hy
      obtain ⟨u, b, hu, hb, rfl⟩ := derives_seq.1 hz
      obtain ⟨l, hl, rfl⟩ := derives_kind.1 hx
      obtain ⟨r, hr, rfl⟩ := derives_kind.1 hb
      refine takes_look_bind (looks_atKind _) (a := true) (by simp [hl]) (takes_take.seq (fun _ => ?_))
      exact (takes_flagLoop (derives_trailing.1 hu) (by simp [hr])).seq (fun fs => takes_take.result)
    · exact takes_look_bind (looks_atKind _) hrest.atKind takes_pure
  unfold Grammar.flags
  exact (takes_expect ha).seq (fun _ => hlist.silent_end (fun fs => silent_keepFlags fs))

theorem takes_blockBody (h : Accepts E n inner) (hw : Spells (.symbol .blockBody) w) (hrest : Next .rightBrace rest)
    (hn : Fits w.length n) (owner : NodeId) : Takes E (Grammar.blockBody inner owner) w rest := by
  have hend : (rest.head?.bind Token.keyword? == some .namespaceWord) = false := by
    obtain ⟨t, v, rfl, ht⟩ := hrest.exists_cons
    exact atKeyword_cons_of_kind (by rw [ht]; decide)
  unfold Grammar.blockBody
  rcases derives_alt.1 (spells_symbol.1 hw) with hw | hw
  · obtain ⟨u, v, hu, hv, rfl⟩ := derives_seq.1 hw
    have hloop : Takes E (repeatWhile (atKeyword .namespaceWord) (fun _ => do
        attach owner (← inner.parse .namespaceBlock)) ()) (u ++ v) rest := by
      refine takes_repeatWhile (looks_atKeyword _) begins_namespaceBlock (fun t ht => by simp [ht]) (fun _ => True)
        (fun _ _ _ => trivial) (.starCons hu hv) (fun _ x y hx hlength _ => ?_) trivial hend ()
      exact (h.form (r := .namespaceBlock) rfl hx trivial (hn.mono hlength).need).silent_end (fun _ => silent_attach _ _)
    obtain ⟨t, x, rfl, ht⟩ := begins_namespaceBlock u hu
    refine takes_look_bind (looks_atKeyword _) (atKeyword_cons ht) ?_
    have hafter : Takes E (inBlock >>= fun more => if more = true then failFound (.expected "'namespace' or '\x7d'") else pure ())
        [] rest := takes_look_bind looks_inBlock hrest.inBlock takes_pure
    have hboth := hloop.seq (u := []) (fun _ => hafter)
    rwa [List.append_nil] at hboth
  · have hform := h.form (r := .statements) (v := rest) rfl hw hrest hn.need
    have hno : ((w ++ rest).head?.bind Token.keyword? == some .namespaceWord) = false := by
      refine follow_star begins_statement (fun v => (v.head?.bind Token.keyword? == some .namespaceWord) = false)
        (fun t v ht => ?_) hw hend
      rcases ht with ht | ⟨k, hk, ht⟩
      · simpa using ne_keyword_of_startsValue ht (by decide)
      · simp only [List.head?_cons, Option.bind_some, ht]
        revert hk
        cases k <;> decide
    exact takes_look_bind (looks_atKeyword _) hno (hform.silent_end (fun _ => silent_attach _ _))

theorem takes_namespaceBlock (h : Accepts E n inner) (hw : Spells (.symbol .namespaceBlock) w)
    (hn : Rule.namespaceBlock.need w.length ≤ n) : Takes E (Grammar.namespaceBlock inner) w rest := by
  obtain ⟨x, w₁, hx, hw₁, rfl⟩ := derives_seq.1 (spells_symbol.1 hw)
  obtain ⟨y, w₂, hy, hw₂, rfl⟩ := derives_seq.1 hw₁
  obtain ⟨a, w₃, ha, hw₃, rfl⟩ := derives_seq.1 hw₂
  obtain ⟨m, b, hm, hb, rfl⟩ := derives_seq.1 hw₃
  obtain ⟨k, hk, rfl⟩ := derives_word.1 hx
  obtain ⟨t, ht, rfl⟩ := derives_kind.1 hy
  obtain ⟨l, hl, rfl⟩ := derives_kind.1 ha
  obtain ⟨r, hr, rfl⟩ := derives_kind.1 hb
  unfold Grammar.namespaceBlock
  refine takes_silent_bind silent_location (fun start => ?_)
  refine (takes_expectKeyword hk).seq (fun _ => ?_)
  refine (takes_identifier ht).seq (fun name => ?_)
  refine takes_silent_bind (silent_openNode _ _) (fun node => ?_)
  refine (takes_expect hl).seq (fun _ => ?_)
  refine (takes_blockBody h hm (by simp [hr])
    (Rule.fits hn (by simp only [List.length_append, List.length_cons]; omega)) node).seq (fun _ => ?_)
  exact (takes_expect hr).result

theorem takes_codeFragment (h : Accepts E n inner) (hw : Spells (.symbol .codeFragment) w)
    (hn : Rule.codeFragment.need w.length ≤ n) : Takes E (Grammar.codeFragment inner) w rest := by
  obtain ⟨f, w₁, hf, hw₁, rfl⟩ := derives_seq.1 (spells_symbol.1 hw)
  obtain ⟨a, w₂, ha, hw₂, rfl⟩ := derives_seq.1 hw₁
  obtain ⟨m, b, hm, hb, rfl⟩ := derives_seq.1 hw₂
  obtain ⟨l, hl, rfl⟩ := derives_kind.1 ha
  obtain ⟨r, hr, rfl⟩ := derives_kind.1 hb
  unfold Grammar.codeFragment
  refine takes_silent_bind silent_location (fun start => ?_)
  refine takes_look_bind (looks_atKind _) rfl ?_
  refine takes_opt_seq (fun hnil => ?_) (fun hne => ?_) (fun _ => ?_)
  · subst hnil
    simp [hl]
  · have hflags : Spells (.symbol .flags) f := (derives_opt.1 hf).resolve_right hne
    have hform := h.form (r := .flags) (v := [l] ++ (m ++ [r]) ++ rest) rfl hflags (by simp [Rule.Precedes, hl])
      (Rule.need_of_rank hn (by decide) (by simp))
    obtain ⟨t, v, rfl, ht⟩ := Begins.symbol begins_kind.seq f hflags
    exact ⟨by simp [ht], hform⟩
  refine takes_silent_bind (silent_openNode _ _) (fun fragment => ?_)
  refine (takes_expect hl).seq (fun _ => ?_)
  refine (takes_blockBody h hm (by simp [hr])
    (Rule.fits hn (by simp only [List.length_append, List.length_cons]; omega)) fragment).seq (fun _ => ?_)
  exact (takes_expect hr).result

theorem takes_moduleVersion (hw : Spells version w) (hrest : Unlike .comma rest) : Takes E moduleVersion w rest := by
  unfold moduleVersion
  rcases derives_opt.1 hw with hw | rfl
  · obtain ⟨x, y, hx, hy, rfl⟩ := derives_seq.1 hw
    obtain ⟨c, hc, rfl⟩ := derives_kind.1 hx
    refine takes_look_bind (looks_atKind _) (a := true) (by simp [hc]) (takes_take.seq (fun _ => ?_))
    simp only [Form.choice, derives_alt, derives_kind] at hy
    rcases hy with ⟨t, ht, rfl⟩ | ⟨t, ht, rfl⟩ | ⟨t, ht, rfl⟩ <;>
      exact takes_look_bind looks_look (look_kind ht (by decide)) takes_take.result
  · exact takes_look_bind (looks_atKind _) hrest.atKind takes_pure

theorem takes_moduleBlock (h : Accepts E n inner) (hw : Spells (.symbol .moduleBlock) w)
    (hn : Rule.moduleBlock.need w.length ≤ n) : Takes E (Grammar.moduleBlock inner) w rest := by
  obtain ⟨x, w₁, hx, hw₁, rfl⟩ := derives_seq.1 (spells_symbol.1 hw)
  obtain ⟨y, w₂, hy, hw₂, rfl⟩ := derives_seq.1 hw₁
  obtain ⟨u, w₃, hu, hw₃, rfl⟩ := derives_seq.1 hw₂
  obtain ⟨a, w₄, ha, hw₄, rfl⟩ := derives_seq.1 hw₃
  obtain ⟨m, b, hm, hb, rfl⟩ := derives_seq.1 hw₄
  obtain ⟨k, hk, rfl⟩ := derives_word.1 hx
  obtain ⟨t, ht, rfl⟩ := derives_kind.1 hy
  obtain ⟨l, hl, rfl⟩ := derives_kind.1 ha
  obtain ⟨r, hr, rfl⟩ := derives_kind.1 hb
  unfold Grammar.moduleBlock
  refine takes_silent_bind silent_location (fun start => ?_)
  refine (takes_expectKeyword hk).seq (fun _ => ?_)
  refine (takes_identifier ht).seq (fun name => ?_)
  refine (takes_moduleVersion hu (by simp [hl])).seq (fun version => ?_)
  refine takes_silent_bind (silent_openNode _ _) (fun node => ?_)
  refine (takes_expect hl).seq (fun _ => ?_)
  refine (h.form (r := .codeFragment) rfl hm trivial
    (Rule.fits hn (by simp only [List.length_append, List.length_cons]; omega)).need).seq (fun fragment => ?_)
  refine takes_silent_bind (silent_attach _ _) (fun _ => ?_)
  exact (takes_expect hr).result

theorem takes_unitBlock (h : Accepts E n inner) (hw : Spells (.symbol .unit) w) (hn : Rule.unit.need w.length ≤ n) :
    Takes E (unitBlock inner) w rest := by
  unfold unitBlock
  rcases derives_alt.1 (spells_symbol.1 hw) with hw | hw
  · have hform := h.form (r := .codeFragment) (v := rest) rfl hw trivial
      (Rule.need_of_rank hn (by decide) (Nat.le_refl _))
    have hhead : Begins (fun t => t.kind = .atSign ∨ t.kind = .leftBrace) (.symbol .codeFragment) :=
      Begins.symbol (Begins.opt_seq (Begins.symbol (begins_kind.mono (fun _ => .inl)).seq) (begins_kind.mono (fun _ => .inr)).seq)
    obtain ⟨t, v, rfl, ht⟩ := hhead w hw
    rcases ht with ht | ht
    · exact takes_look_bind looks_look (look_kind ht (by decide)) hform
    · exact takes_look_bind looks_look (look_kind ht (by decide)) hform
  · have hform := h.form (r := .moduleBlock) (v := rest) rfl hw trivial
      (Rule.need_of_rank hn (by decide) (Nat.le_refl _))
    obtain ⟨t, v, rfl, ht⟩ := Begins.symbol begins_keyword.seq w hw
    exact takes_look_bind looks_look (look_word ht) hform

theorem takes_unit (h : Accepts E n inner) (hw : Spells (.symbol .unit) w) (hn : Rule.unit.need w.length ≤ n) :
    Takes E (Grammar.unit inner) w [] := by
  unfold Grammar.unit
  have hend : ∀ root : NodeId, Takes E (current? >>= fun next =>
      if next.isSome = true then failFound .trailing else pure root) [] [] := by
    intro root
    exact takes_look_bind looks_current? rfl takes_pure
  have hblock : Takes E (unitBlock inner) w [] := takes_unitBlock h hw hn
  have hboth := hblock.seq (u := []) hend
  rwa [List.append_nil] at hboth

end Courier.Syntax
