import Courier.Grammar.Rule
import Courier.Proofs.Syntax.Form

/-!
# The grammar of units

The language that a parse accepts, as a grammar over the tokens that are no comments (`production`). It is ambiguous where the
language is: `a := b;` is an assignment and a message sent to `a`, and a run of colons may belong to any of the messages that are
open. What a parse makes of such a run is told by the parser, not here.
-/

namespace Courier.Syntax

/-- The nonterminals. -/
inductive Symbol where
  | unit | codeFragment | flags | flag | blockBody | namespaceBlock | moduleBlock
  | statement | classBlock | recordBlock | scopeBlock | messageBlock | params | returnType
  | expression | argument | primary | message | operator
  | typeName | inst | arrayLiteral | element | literal
  deriving DecidableEq, Repr

open Form in
/-- A name with a type: `IDENT ':' type`. -/
def typedName : Form Symbol :=
  sequence [kind .identifier, kind .colon, .symbol .typeName]

open Form in
/-- Member variables: `(IDENT ':' type ';')*`. -/
def members : Form Symbol :=
  .star (.seq typedName (kind .endOfStatement))

open Form in
/-- What a class or a record inherits from: `('inherits' type)?`. -/
def superclass : Form Symbol :=
  opt (.seq (word .inherits) (.symbol .typeName))

open Form in
/-- The names behind the first of a dotted name: `('.' IDENT)*`. -/
def dottedRest : Form Symbol :=
  .star (.seq (kind .dot) (kind .identifier))

open Form in
/-- A member of a class: a scope, or a message block with flags before it. -/
def classMember : Form Symbol :=
  choice [.symbol .scopeBlock, .seq (opt (.symbol .flags)) (.symbol .messageBlock)]

open Form in
/-- A declaration of a message: `'msg' IDENT? (':' params | '(' params? ')')? returnType?`. -/
def declaration : Form Symbol :=
  sequence [word .msg, opt (kind .identifier),
    opt (choice [.seq (kind .colon) (.symbol .params),
      sequence [kind .leftParen, opt (.symbol .params), kind .rightParen]]),
    opt (.symbol .returnType)]

open Form in
/-- The version of a module: `(',' (VERSION | DECIMAL | INTEGER))?`. -/
def version : Form Symbol :=
  opt (.seq (kind .comma) (choice [kind .versionLiteral, kind .decimalLiteral, kind .integerLiteral]))

open Form in
/-- What a nonterminal stands for. -/
def production : Symbol → Form Symbol
  | .unit => choice [.symbol .codeFragment, .symbol .moduleBlock]
  | .codeFragment => sequence [opt (.symbol .flags), kind .leftBrace, .symbol .blockBody, kind .rightBrace]
  | .flags => .seq (kind .atSign) (opt (sequence [kind .leftBracket,
      opt (sequence [.symbol .flag, .star (.seq (kind .comma) (.symbol .flag)), opt (kind .comma)]), kind .rightBracket]))
  | .flag => choice [kind .identifier, kind .keyword]
  | .blockBody => choice [plus (.symbol .namespaceBlock), .star (.symbol .statement)]
  | .namespaceBlock =>
    sequence [word .namespaceWord, kind .identifier, kind .leftBrace, .symbol .blockBody, kind .rightBrace]
  | .moduleBlock =>
    sequence [word .moduleWord, kind .identifier, version, kind .leftBrace, .symbol .codeFragment, kind .rightBrace]
  | .statement => choice [.symbol .classBlock, .symbol .recordBlock,
      .seq typedName (kind .endOfStatement),
      sequence [choice [typedName, .seq (kind .identifier) dottedRest], kind .assignment, .symbol .argument,
        kind .endOfStatement],
      .seq (word .returnWord) (kind .endOfStatement),
      .seq (.symbol .expression) (kind .endOfStatement)]
  | .classBlock => sequence [word .classWord, kind .identifier, superclass, kind .leftBrace,
      .star classMember, kind .rightBrace]
  | .recordBlock =>
    sequence [word .record, kind .identifier, superclass, kind .leftBrace, members, kind .rightBrace]
  | .scopeBlock =>
    sequence [choice [word .publicWord, word .privateWord], kind .leftBrace, members, kind .rightBrace]
  | .messageBlock => sequence [declaration, kind .leftBrace, .star (.symbol .statement), kind .rightBrace]
  | .params => commaList typedName
  | .returnType => choice [sequence [kind .leftBracket, commaList (.symbol .typeName), kind .rightBracket],
      sequence [kind .leftBracket, commaList typedName, kind .rightBracket]]
  | .expression => choice [.seq (word .returnWord) (.symbol .argument), .symbol .argument]
  | .argument => .seq (.symbol .primary) (opt (.symbol .message))
  | .primary => choice [sequence [kind .leftParen, .symbol .expression, kind .rightParen], .symbol .arrayLiteral,
      .symbol .literal, word .nil, .symbol .messageBlock, .symbol .inst]
  | .message => choice [.seq (kind .identifier) (.star (.seq (kind .colon) (.symbol .argument))),
      .seq (.symbol .operator) (.symbol .argument)]
  | .operator => choice [kind .plus, kind .minus, kind .multiply, kind .divide, kind .modulo, kind .assignment]
  | .typeName => .seq (kind .identifier) dottedRest
  | .inst => .seq (choice [kind .identifier, word .self, word .super]) dottedRest
  | .arrayLiteral => sequence [kind .leftBracket, opt (commaList (.symbol .element)), kind .rightBracket]
  | .element => choice [.symbol .literal, word .nil, .symbol .typeName]
  | .literal => choice [kind .integerLiteral, kind .decimalLiteral, kind .hexadecimalLiteral, kind .binaryLiteral,
      kind .booleanLiteral, kind .stringLiteral]

/-- The runs of tokens that a form derives in the grammar of units. -/
abbrev Spells (f : Form Symbol) (w : List Token) : Prop :=
  Derives production f w

theorem spells_symbol {n : Symbol} {w : List Token} : Spells (.symbol n) w ↔ Spells (production n) w :=
  derives_symbol

/-! ## First tokens -/

/-- Every run that the form derives has a first token, and it is one of `P`. -/
def Begins (P : Token → Prop) (f : Form Symbol) : Prop :=
  ∀ w, Spells f w → ∃ t v, w = t :: v ∧ P t

section

variable {P Q : Token → Prop} {f g : Form Symbol}

theorem begins_token {c : Terminal} (h : ∀ t, c.Matches t → P t) : Begins P (.token c) := by
  intro w hw
  obtain ⟨t, ht, rfl⟩ := derives_token.1 hw
  exact ⟨t, [], rfl, h t ht⟩

theorem begins_kind {k : TokenKind} : Begins (fun t => t.kind = k) (.kind k) :=
  begins_token (fun _ ht => ht)

theorem begins_keyword {c : Keyword} : Begins (fun t => t.keyword? = some c) (.word c) :=
  begins_token (fun _ ht => ht)

theorem Begins.seq (h : Begins P f) : Begins P (.seq f g) := by
  intro w hw
  obtain ⟨u, v, hu, -, rfl⟩ := derives_seq.1 hw
  obtain ⟨t, u', rfl, ht⟩ := h u hu
  exact ⟨t, u' ++ v, rfl, ht⟩

theorem Begins.alt (hf : Begins P f) (hg : Begins P g) : Begins P (.alt f g) := by
  intro w hw
  rcases derives_alt.1 hw with hw | hw
  · exact hf w hw
  · exact hg w hw

theorem Begins.opt_seq (hf : Begins P f) (hg : Begins P g) : Begins P (.seq f.opt g) := by
  intro w hw
  obtain ⟨u, v, hu, hv, rfl⟩ := derives_seq.1 hw
  rcases derives_opt.1 hu with hu | rfl
  · obtain ⟨t, u', rfl, ht⟩ := hf u hu
    exact ⟨t, u' ++ v, rfl, ht⟩
  · exact hg v hv

theorem Begins.symbol {n : Symbol} (h : Begins P (production n)) : Begins P (.symbol n) :=
  fun w hw => h w (spells_symbol.1 hw)

theorem Begins.mono (h : Begins P f) (hPQ : ∀ t, P t → Q t) : Begins Q f := by
  intro w hw
  obtain ⟨t, v, hv, ht⟩ := h w hw
  exact ⟨t, v, hv, hPQ t ht⟩

theorem Begins.ne_nil (h : Begins P f) : ∀ w, Spells f w → w ≠ [] := by
  intro w hw
  obtain ⟨t, v, rfl, -⟩ := h w hw
  simp

end

/-- The keywords that a value may begin with. -/
def valueWords : List Keyword :=
  [.nil, .msg, .self, .super]

/-- The tokens that a value may begin with. -/
def StartsValue (t : Token) : Prop :=
  t.kind = .leftParen ∨ t.kind = .leftBracket ∨ t.kind = .identifier ∨ t.kind.isLiteral = true ∨
    ∃ k ∈ valueWords, t.keyword? = some k

theorem begins_typedName : Begins (fun t => t.kind = .identifier) typedName :=
  begins_kind.seq

theorem begins_declaration : Begins (fun t => t.keyword? = some .msg) declaration :=
  begins_keyword.seq

theorem begins_literal : Begins (fun t => t.kind.isLiteral = true) (.symbol .literal) := by
  have hkind : ∀ k : TokenKind, k.isLiteral = true → Begins (fun t => t.kind.isLiteral = true) (.kind k) :=
    fun k hk => begins_token (fun t ht => by rw [show t.kind = k from ht]; exact hk)
  exact Begins.symbol ((hkind _ rfl).alt ((hkind _ rfl).alt ((hkind _ rfl).alt ((hkind _ rfl).alt ((hkind _ rfl).alt
    (hkind _ rfl))))))

theorem begins_word {k : Keyword} (hk : k ∈ valueWords) : Begins StartsValue (.word k) :=
  begins_token (fun _ ht => .inr (.inr (.inr (.inr ⟨k, hk, ht⟩))))

theorem begins_primary : Begins StartsValue (.symbol .primary) := by
  have hgroup : Begins StartsValue (.sequence [.kind .leftParen, .symbol .expression, .kind .rightParen]) :=
    (begins_token (fun _ ht => .inl ht)).seq
  have harray : Begins StartsValue (.symbol .arrayLiteral) :=
    Begins.symbol (begins_token (fun _ ht => .inr (.inl ht))).seq
  have hliteral : Begins StartsValue (.symbol .literal) :=
    begins_literal.mono (fun _ ht => .inr (.inr (.inr (.inl ht))))
  have hmessage : Begins StartsValue (.symbol .messageBlock) :=
    Begins.symbol (begins_declaration.mono (fun _ ht => .inr (.inr (.inr (.inr ⟨.msg, by decide, ht⟩))))).seq
  have hinst : Begins StartsValue (.symbol .inst) :=
    Begins.symbol ((begins_token (fun _ ht => .inr (.inr (.inl ht)))).alt
      ((begins_word (by decide)).alt (begins_word (by decide)))).seq
  exact Begins.symbol (hgroup.alt (harray.alt (hliteral.alt ((begins_word (by decide)).alt (hmessage.alt hinst)))))

theorem begins_argument : Begins StartsValue (.symbol .argument) :=
  Begins.symbol begins_primary.seq

theorem begins_expression : Begins (fun t => StartsValue t ∨ t.keyword? = some .returnWord) (.symbol .expression) :=
  Begins.symbol ((begins_token (fun _ ht => .inr ht)).seq.alt (begins_argument.mono (fun _ ht => .inl ht)))

/-- The tokens that a statement may begin with. -/
def StartsStatement (t : Token) : Prop :=
  StartsValue t ∨ ∃ k ∈ [Keyword.returnWord, .classWord, .record], t.keyword? = some k

theorem begins_statement : Begins StartsStatement (.symbol .statement) := by
  have hname : ∀ t : Token, t.kind = .identifier → StartsStatement t := fun _ ht => .inl (.inr (.inr (.inl ht)))
  have hword : ∀ k ∈ [Keyword.returnWord, .classWord, .record], Begins StartsStatement (.word k) :=
    fun k hk => begins_token (fun _ ht => .inr ⟨k, hk, ht⟩)
  have hexpression : Begins StartsStatement (.symbol .expression) :=
    begins_expression.mono (fun _ ht => ht.imp id (fun ht => ⟨.returnWord, by decide, ht⟩))
  have htyped : Begins StartsStatement typedName := begins_typedName.mono hname
  exact Begins.symbol ((Begins.symbol (hword _ (by decide)).seq).alt ((Begins.symbol (hword _ (by decide)).seq).alt
    (htyped.seq.alt ((htyped.alt (begins_token (c := .kind .identifier) hname).seq).seq.alt
      ((hword _ (by decide)).seq.alt hexpression.seq)))))

/-- The flags of a list: a comma follows each of them, the last one perhaps not. -/
abbrev flagItems : Form Symbol :=
  .seq (.star (.seq (.symbol .flag) (.kind .comma))) (.opt (.symbol .flag))

/-- A flag is one token. -/
theorem exists_of_flag {w : List Token} (h : Spells (.symbol .flag) w) :
    ∃ t : Token, (t.kind = .identifier ∨ t.kind = .keyword) ∧ w = [t] := by
  rcases derives_alt.1 (spells_symbol.1 h) with h | h
  · obtain ⟨t, ht, rfl⟩ := derives_kind.1 h
    exact ⟨t, .inl ht, rfl⟩
  · obtain ⟨t, ht, rfl⟩ := derives_kind.1 h
    exact ⟨t, .inr ht, rfl⟩

theorem begins_namespaceBlock : Begins (fun t => t.keyword? = some .namespaceWord) (.symbol .namespaceBlock) :=
  Begins.symbol begins_keyword.seq

/-- The tokens that a member of a class may begin with. -/
def StartsMember (t : Token) : Prop :=
  t.kind = .atSign ∨ ∃ k ∈ [Keyword.publicWord, .privateWord, .msg], t.keyword? = some k

theorem begins_classMember : Begins StartsMember classMember := by
  have hword : ∀ k ∈ [Keyword.publicWord, .privateWord, .msg], Begins StartsMember (.word k) :=
    fun k hk => begins_token (fun _ ht => .inr ⟨k, hk, ht⟩)
  have hscope : Begins StartsMember (.symbol .scopeBlock) :=
    Begins.symbol ((hword _ (by decide)).alt (hword _ (by decide))).seq
  have hflags : Begins StartsMember (.symbol .flags) := Begins.symbol (begins_token (fun _ ht => .inl ht)).seq
  have hmessage : Begins StartsMember (.symbol .messageBlock) :=
    Begins.symbol (begins_declaration.mono (fun _ ht => .inr ⟨.msg, by decide, ht⟩)).seq
  exact hscope.alt (hflags.opt_seq hmessage)

/-! ## The forms of the rules -/

/-- The run is an expression, or a bare `return` with a semicolon behind it. -/
def ExpressionBefore (w rest : List Token) : Prop :=
  Spells (.symbol .expression) w ∨ (Spells (.word .returnWord) w ∧ ∃ t ∈ rest.head?, t.kind = .endOfStatement)

end Courier.Syntax

namespace Courier

/-- The form that a rule reads. The rules that may end in a bare `return` read no form of their own: a semicolon has to follow. -/
def Rule.form? {α : Type} : Rule α → Option (Syntax.Form Syntax.Symbol)
  | unit => some (.symbol .unit)
  | codeFragment => some (.symbol .codeFragment)
  | flags => some (.symbol .flags)
  | moduleBlock => some (.symbol .moduleBlock)
  | namespaceBlock => some (.symbol .namespaceBlock)
  | statements => some (.star (.symbol .statement))
  | statement => some (.symbol .statement)
  | classBlock => some (.symbol .classBlock)
  | scopeBlock => some (.symbol .scopeBlock)
  | recordBlock => some (.symbol .recordBlock)
  | messageBlock => some (.symbol .messageBlock)
  | messageDeclaration => some Syntax.declaration
  | param => some Syntax.typedName
  | returnType => some (.symbol .returnType)
  | typeDeclaration => some (.symbol .typeName)
  | variableDefinition => some Syntax.typedName
  | assignment => some (.sequence [.choice [Syntax.typedName, .symbol .inst], .kind .assignment, .symbol .argument])
  | expression => none
  | returnExpression => none
  | groupedExpression => some (.sequence [.kind .leftParen, .symbol .expression, .kind .rightParen])
  | sendMessage _ => some (.symbol .message)
  | message => some (.symbol .message)
  | argument => some (.symbol .argument)
  | literal => some (.choice [.symbol .literal, .word .nil])
  | arrayLiteral => some (.symbol .arrayLiteral)
  | inst => some (.symbol .inst)

end Courier
