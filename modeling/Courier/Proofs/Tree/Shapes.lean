import Courier.Proofs.Tree.Building
import Courier.Proofs.Tree.Productions

/-!
# What the productions build

The node that a rule yields stands for what the rule is named for (`Rule.Gives`), and every node that its production makes is finished
when it ends. Each production does so if the productions inside it do (`Inner.Builds`). Only one of them depends on a token: an
expression that does not begin with `return` is a value.
-/

namespace Courier

/-- What the node of a rule stands for. -/
def Rule.Gives : {α : Type} → Rule α → Payload → Prop
  | _, .unit, p => p.IsUnit
  | _, .codeFragment, p => p = .codeFragmentBlock
  | _, .flags, _ | _, .typeDeclaration, _ => True
  | _, .moduleBlock, p => p.kind = .moduleBlock
  | _, .namespaceBlock, p => p.kind = .namespaceBlock
  | _, .statements, p => p = .statementsBlock
  | _, .statement, p => p.IsTyped ∨ p.kind ∈ Kind.statements
  | _, .classBlock, p => p.kind = .classBlock
  | _, .scopeBlock, p => p.kind = .scope
  | _, .recordBlock, p => p.kind = .recordBlock
  | _, .messageBlock, p => p.kind = .messageBlock
  | _, .messageDeclaration, p => ∃ name, p = .messageDeclaration name
  | _, .param, p => p.kind = .param
  | _, .returnType, p => p.IsReturnType
  | _, .variableDefinition, p => p.IsTyped
  | _, .assignment, p => p.kind = .assignment
  | _, .expression, p => p.kind ∈ Kind.expressions
  | _, .returnExpression, p => p.kind = .returnExpression
  | _, .groupedExpression, p => p.kind = .groupedExpression
  | _, .sendMessage _, p => p.kind = .sendMessage
  | _, .message, p => ∃ name, p = .message name none
  | _, .argument, p => p.kind ∈ Kind.values
  | _, .literal, p => p.kind ∈ Kind.elements
  | _, .arrayLiteral, p => p.kind = .arrayLiteral
  | _, .inst, p => p.kind = .inst

/-- The parsers inside a production finish every node they make, and the nodes they yield stand for what their rules give. -/
structure Inner.Builds (inner : Inner) : Prop where
  gives {α : Type} (rule : Rule α) (opened : List Draft) (made : List (NodeId × Payload))
      (hused : ∀ node ∈ rule.uses, ∃ p, (node, p) ∈ made ∧ p.kind ∈ Kind.receivers) :
    Parser.Builds (Parser.Drafts opened made) (inner.parse rule)
      (fun a t => ∃ p, rule.Gives p ∧ Parser.Drafts opened ((rule.makes a).map (·, p) ++ made) t)
  /-- An expression that does not begin with `return` is a value. -/
  value (opened : List Draft) (made : List (NodeId × Payload)) {next : Option Token}
      (hnext : next.bind Token.keyword? ≠ some .returnWord) :
    Parser.Builds (fun s => s.significant.head? = next ∧ Parser.Drafts opened made s) (inner.parse .expression)
      (fun a t => ∃ p, p.kind ∈ Kind.values ∧ Parser.Drafts opened ((a, p) :: made) t)

namespace Parser

open Courier.Grammar

section

variable {opened : List Draft} {made : List (NodeId × Payload)} {owner : NodeId} {p : Payload} {below : List Payload}

/-! ## Names, types and literals -/

theorem builds_dottedRest (what name : String) :
    Builds (Drafts opened made) (dottedRest what name) (fun _ => Drafts opened made) := by
  have hstep : ∀ name : String, True → Builds (Drafts opened made)
      (do let _ ← take; return name ++ "." ++ (← identifier what)) (fun _ t => True ∧ Drafts opened made t) := by
    intro name _
    refine builds_take.bind (fun _ => ?_)
    exact builds_identifier.bind (fun _ => builds_of_and (fun _ => builds_pure (fun _ hs => ⟨trivial, hs⟩)))
  unfold dottedRest
  exact (builds_loop (looks_atKind _) hstep name trivial).mono (fun _ _ ht => ht.2)

theorem builds_typeDeclaration : Builds (Drafts opened made) typeDeclaration (fun _ => Drafts opened made) := by
  unfold typeDeclaration
  exact builds_identifier.bind (fun name => builds_of_and (fun _ => builds_dottedRest _ name))

theorem builds_instanceHead : Builds (Drafts opened made) instanceHead (fun _ => Drafts opened made) := by
  unfold instanceHead
  refine (builds_looks looks_look).bind (fun next => ?_)
  split
  · exact builds_take.bind (fun _ => builds_pure (fun _ hs => hs))
  · exact builds_take.bind (fun _ => builds_pure (fun _ hs => hs))
  · exact builds_take.bind (fun _ => builds_pure (fun _ hs => hs))
  · exact builds_failFound

theorem builds_inst : Builds (Drafts opened made) Grammar.inst
    (fun a t => ∃ p : Payload, p.kind = .inst ∧ Drafts opened ((a, p) :: made) t) := by
  unfold Grammar.inst
  refine builds_location.bind (fun start => ?_)
  refine builds_instanceHead.bind (fun first => ?_)
  refine (builds_dottedRest _ first).bind (fun name => ?_)
  exact builds_leaf rfl rfl

theorem literal_mem_elements (k : LiteralKind) (value : String) : (Payload.literal k value).kind ∈ Kind.elements := by
  rw [Payload.kind]
  cases k <;> decide

/-- A literal is an element and admits no children. -/
theorem element_of_literalPayload? {t : Token} {p : Payload} (h : literalPayload? t = some p) :
    p.kind ∈ Kind.elements ∧ p.Admits [] := by
  unfold literalPayload? at h
  split at h
  case h_7 =>
    split at h
    · obtain rfl := Option.some.inj h
      exact ⟨by decide, rfl⟩
    · nomatch h
  case h_8 => nomatch h
  all_goals
    obtain rfl := Option.some.inj h
    exact ⟨literal_mem_elements _ _, rfl⟩

theorem builds_literal : Builds (Drafts opened made) Grammar.literal
    (fun a t => ∃ p : Payload, p.kind ∈ Kind.elements ∧ Drafts opened ((a, p) :: made) t) := by
  unfold Grammar.literal
  refine builds_take.bind (fun t => ?_)
  split
  · rename_i p hp
    obtain ⟨hkind, hadmits⟩ := element_of_literalPayload? hp
    exact builds_leaf hkind hadmits
  · exact builds_failAt

/-! ## Arrays -/

variable {inner : Inner} (h : inner.Builds)

include h

/-- A rule that is handed no node. -/
theorem builds_rule {α : Type} (rule : Rule α) (hused : rule.uses = []) : Builds (Drafts opened made) (inner.parse rule)
    (fun a t => ∃ p, rule.Gives p ∧ Drafts opened ((rule.makes a).map (·, p) ++ made) t) :=
  h.gives rule opened made (fun node hnode => by rw [hused] at hnode; nomatch hnode)

theorem builds_typeName :
    Builds (Drafts opened made) (inner.parse .typeDeclaration) (fun _ => Drafts opened made) :=
  (builds_rule h .typeDeclaration rfl).mono (fun _ _ ⟨_, _, ht⟩ => ht)

/-- A rule whose node is of one kind, where any of several kinds will do. -/
theorem builds_kind (rule : Rule NodeId) {k : Kind} {ks : List Kind} (hused : rule.uses = []) (hmakes : ∀ a, rule.makes a = [a])
    (hgives : ∀ p, rule.Gives p → p.kind = k) (hk : k ∈ ks) : Builds (Drafts opened made) (inner.parse rule)
    (fun a t => ∃ p : Payload, p.kind ∈ ks ∧ Drafts opened ((a, p) :: made) t) := by
  refine (builds_rule h rule hused).mono ?_
  rintro a t ⟨p, hp, ht⟩
  rw [hmakes] at ht
  exact ⟨p, hgives p hp ▸ hk, ht⟩

theorem builds_element : Builds (Drafts opened made) (element inner)
    (fun a t => ∃ p : Payload, p.kind ∈ Kind.elements ∧ Drafts opened ((a, p) :: made) t) := by
  unfold element
  refine (builds_looks looks_look).bind (fun next => ?_)
  split
  · exact builds_kind h .inst rfl (fun _ => rfl) (fun _ hp => hp) (by decide)
  · exact builds_rule h .literal rfl
  · split
    · exact builds_rule h .literal rfl
    · exact builds_failFound
  · exact builds_failFound

theorem builds_elements : Builds (Drafts (⟨owner, .arrayLiteral, []⟩ :: opened) made) (elements inner owner)
    (fun _ t => ∃ ps, (∀ c ∈ ps, c.kind ∈ Kind.elements) ∧ Drafts (⟨owner, .arrayLiteral, ps⟩ :: opened) made t) := by
  unfold elements
  refine (builds_element h).bind (fun first => builds_of_exists (fun q hq => ?_))
  refine builds_attach.bind (fun _ => ?_)
  refine (builds_any_children (G := fun c => c.kind ∈ Kind.elements) (looks_atKind _) (fun below => ?_)).mono ?_
  · exact builds_take.bind (fun _ => (builds_element h).attach)
  · rintro _ t ⟨ps, hps, ht⟩
    exact ⟨[q] ++ ps, List.forall_mem_cons.2 ⟨hq, hps⟩, ht⟩

theorem builds_arrayLiteral : Builds (Drafts opened made) (Grammar.arrayLiteral inner)
    (fun a t => ∃ p : Payload, p.kind = .arrayLiteral ∧ Drafts opened ((a, p) :: made) t) := by
  have hclose : ∀ (start : Location) (array : NodeId) (ps : List Payload), (∀ c ∈ ps, c.kind ∈ Kind.elements) →
      Builds (Drafts (⟨array, .arrayLiteral, ps⟩ :: opened) made) (do
        if ← atKind .rightBracket then
          let _ ← take
          return array
        else failAt start .unterminatedArray)
        (fun a t => ∃ p : Payload, p.kind = .arrayLiteral ∧ Drafts opened ((a, p) :: made) t) := by
    intro start array ps hps
    refine (builds_looks (looks_atKind _)).bind (fun closed => ?_)
    split
    · exact builds_take.bind (fun _ => builds_close rfl hps)
    · exact builds_failAt
  unfold Grammar.arrayLiteral
  refine builds_location.bind (fun start => ?_)
  refine builds_expect.bind (fun _ => builds_of_and (fun _ => ?_))
  refine builds_openNode.bind (fun array => ?_)
  refine (builds_looks (looks_atKind _)).bind (fun empty => ?_)
  dsimp only
  split
  · exact (builds_elements h).bind (fun _ => builds_of_exists (fun ps hps => hclose start array ps hps))
  · exact hclose start array [] (fun _ hc => (nomatch hc))

/-! ## Declarations -/

theorem builds_nameWithType (what : String) :
    Builds (Drafts opened made) (nameWithType inner what) (fun _ => Drafts opened made) := by
  unfold nameWithType
  refine builds_identifier.bind (fun name => builds_of_and (fun _ => ?_))
  refine builds_expect.bind (fun _ => builds_of_and (fun _ => ?_))
  exact (builds_typeName h).bind (fun typeName => builds_pure (fun _ hs => hs))

theorem builds_typedNode {payload : String → String → Payload} {G : Payload → Prop} (what : String)
    (hG : ∀ name typeName, G (payload name typeName)) (hadmits : ∀ name typeName, (payload name typeName).Admits []) :
    Builds (Drafts opened made) (typedNode inner what payload) (fun a t => ∃ p, G p ∧ Drafts opened ((a, p) :: made) t) := by
  unfold typedNode
  refine builds_location.bind (fun start => ?_)
  refine (builds_nameWithType h what).bind (fun named => ?_)
  exact builds_leaf (hG _ _) (hadmits _ _)

theorem builds_variableDefinition : Builds (Drafts opened made) (variableDefinition inner)
    (fun a t => ∃ p : Payload, p.IsTyped ∧ Drafts opened ((a, p) :: made) t) :=
  builds_typedNode h _ (fun name typeName => ⟨name, typeName, rfl⟩) (fun _ _ => rfl)

theorem builds_param : Builds (Drafts opened made) (param inner)
    (fun a t => ∃ p : Payload, p.kind = .param ∧ Drafts opened ((a, p) :: made) t) :=
  builds_typedNode h _ (fun _ _ => rfl) (fun _ _ => rfl)

theorem builds_superclass : Builds (Drafts opened made) (superclass inner) (fun _ => Drafts opened made) := by
  unfold superclass
  refine (builds_looks (looks_atKeyword _)).bind (fun inherits => ?_)
  split
  · refine builds_take.bind (fun _ => ?_)
    exact (builds_typeName h).bind (fun typeName => builds_pure (fun _ hs => hs))
  · exact builds_pure (fun _ hs => hs)

/-- Every member is a variable with a type. -/
theorem builds_memberVariables : Builds (Drafts (⟨owner, p, []⟩ :: opened) made) (memberVariables inner owner)
    (fun _ t => ∃ ps, (∀ c ∈ ps, c.IsTyped) ∧ Drafts (⟨owner, p, ps⟩ :: opened) made t) := by
  unfold memberVariables
  refine builds_any_children (G := Payload.IsTyped) looks_inBlock (fun below => ?_)
  refine (builds_rule h .variableDefinition rfl).bind (fun member => builds_of_exists (fun q hq => ?_))
  refine builds_expect.bind (fun _ => builds_of_and (fun _ => ?_))
  exact builds_attach.mono (fun _ _ ht => ⟨q, hq, ht⟩)

omit h in
theorem builds_visibility : Builds (Drafts opened made) visibility (fun _ => Drafts opened made) := by
  unfold visibility
  refine (builds_looks looks_look).bind (fun next => ?_)
  split
  · exact builds_pure (fun _ hs => hs)
  · exact builds_pure (fun _ hs => hs)
  · exact builds_failFound

/-- The end of a block whose members are variables with types. -/
theorem builds_members (hadmits : ∀ ps : List Payload, (∀ c ∈ ps, c.IsTyped) → p.Admits ps) :
    Builds (Drafts (⟨owner, p, []⟩ :: opened) made) (do
      let _ ← expect .leftBrace "'\x7b'"
      memberVariables inner owner
      let _ ← expect .rightBrace "'\x7d'"
      return owner) (fun a t => ∃ q, q = p ∧ Drafts opened ((a, q) :: made) t) := by
  refine builds_expect.bind (fun _ => builds_of_and (fun _ => ?_))
  refine (builds_memberVariables h).bind (fun _ => builds_of_exists (fun ps hps => ?_))
  exact builds_expect.bind (fun _ => builds_of_and (fun _ => builds_close rfl (hadmits ps hps)))

theorem builds_scopeBlock : Builds (Drafts opened made) (scopeBlock inner)
    (fun a t => ∃ p : Payload, p.kind = .scope ∧ Drafts opened ((a, p) :: made) t) := by
  unfold scopeBlock
  refine builds_location.bind (fun start => ?_)
  refine builds_visibility.bind (fun seen => ?_)
  refine builds_take.bind (fun _ => ?_)
  refine builds_openNode.bind (fun scope => ?_)
  refine (builds_members (p := .scope seen) h (fun _ hps => hps)).mono ?_
  rintro a t ⟨_, rfl, ht⟩
  exact ⟨_, rfl, ht⟩

theorem builds_recordBlock : Builds (Drafts opened made) (recordBlock inner)
    (fun a t => ∃ p : Payload, p.kind = .recordBlock ∧ Drafts opened ((a, p) :: made) t) := by
  unfold recordBlock
  refine builds_location.bind (fun start => ?_)
  refine builds_expectKeyword.bind (fun _ => ?_)
  refine builds_identifier.bind (fun name => builds_of_and (fun _ => ?_))
  refine (builds_superclass h).bind (fun parent => ?_)
  refine builds_openNode.bind (fun record => ?_)
  refine (builds_members (p := .recordBlock name parent) h (fun _ hps => hps)).mono ?_
  rintro a t ⟨_, rfl, ht⟩
  exact ⟨_, rfl, ht⟩

theorem builds_classMember : Builds (Drafts opened made) (classMember inner)
    (fun a t => ∃ p : Payload, p.kind ∈ [Kind.scope, .messageBlock] ∧ Drafts opened ((a, p) :: made) t) := by
  have hscope : Builds (Drafts opened made) (inner.parse .scopeBlock)
      (fun a t => ∃ p : Payload, p.kind ∈ [Kind.scope, .messageBlock] ∧ Drafts opened ((a, p) :: made) t) :=
    builds_kind h .scopeBlock rfl (fun _ => rfl) (fun _ hp => hp) (by decide)
  have hmessage : Builds (Drafts opened made) (inner.parse .messageBlock)
      (fun a t => ∃ p : Payload, p.kind ∈ [Kind.scope, .messageBlock] ∧ Drafts opened ((a, p) :: made) t) :=
    builds_kind h .messageBlock rfl (fun _ => rfl) (fun _ hp => hp) (by decide)
  unfold classMember
  refine (builds_looks looks_look).bind (fun next => ?_)
  split
  · exact hscope
  · exact hscope
  · exact (builds_rule h .flags rfl).bind (fun _ => builds_of_exists (fun _ _ => hmessage))
  · exact hmessage
  · exact builds_failFound

theorem builds_classBlock : Builds (Drafts opened made) (classBlock inner)
    (fun a t => ∃ p : Payload, p.kind = .classBlock ∧ Drafts opened ((a, p) :: made) t) := by
  unfold classBlock
  refine builds_location.bind (fun start => ?_)
  refine builds_expectKeyword.bind (fun _ => ?_)
  refine builds_identifier.bind (fun name => builds_of_and (fun _ => ?_))
  refine (builds_superclass h).bind (fun parent => ?_)
  refine builds_openNode.bind (fun node => ?_)
  refine builds_expect.bind (fun _ => builds_of_and (fun _ => ?_))
  refine (builds_any_children looks_inBlock (fun below => (builds_classMember h).attach)).bind
    (fun _ => builds_of_exists (fun ps hps => ?_))
  exact builds_expect.bind (fun _ => builds_of_and (fun _ => builds_close rfl hps))

theorem builds_messageBlock : Builds (Drafts opened made) (messageBlock inner)
    (fun a t => ∃ p : Payload, p.kind = .messageBlock ∧ Drafts opened ((a, p) :: made) t) := by
  unfold messageBlock
  refine builds_location.bind (fun start => ?_)
  refine builds_openNode.bind (fun block => ?_)
  refine (builds_rule h .messageDeclaration rfl).bind (fun declaration => builds_of_exists ?_)
  rintro _ ⟨name, rfl⟩
  refine builds_attach.bind (fun _ => ?_)
  refine builds_expect.bind (fun _ => builds_of_and (fun _ => ?_))
  refine (builds_rule h .statements rfl).bind (fun statements => builds_of_exists ?_)
  rintro _ rfl
  refine builds_attach.bind (fun _ => ?_)
  exact builds_expect.bind (fun _ => builds_of_and (fun _ => builds_close rfl ⟨name, rfl⟩))

theorem builds_params : Builds (Drafts (⟨owner, p, []⟩ :: opened) made) (params inner owner)
    (fun _ t => ∃ ps, (∀ c ∈ ps, c.kind = .param) ∧ Drafts (⟨owner, p, ps⟩ :: opened) made t) := by
  unfold params
  refine (builds_rule h .param rfl).bind (fun first => builds_of_exists (fun q hq => ?_))
  refine builds_attach.bind (fun _ => ?_)
  refine (builds_any_children (G := fun c => c.kind = .param) (looks_atKind _) (fun below => ?_)).mono ?_
  · exact builds_take.bind (fun _ => (builds_rule h .param rfl).attach)
  · rintro _ t ⟨ps, hps, ht⟩
    exact ⟨[q] ++ ps, List.forall_mem_cons.2 ⟨hq, hps⟩, ht⟩

theorem builds_paramList : Builds (Drafts (⟨owner, p, []⟩ :: opened) made) (paramList inner owner)
    (fun _ t => ∃ ps, (∀ c ∈ ps, c.kind = .param) ∧ Drafts (⟨owner, p, ps⟩ :: opened) made t) := by
  have hnone : ∀ s, Drafts (⟨owner, p, []⟩ :: opened) made s →
      ∃ ps, (∀ c ∈ ps, c.kind = .param) ∧ Drafts (⟨owner, p, ps⟩ :: opened) made s :=
    fun _ hs => ⟨[], fun _ hc => (nomatch hc), hs⟩
  have hclose : Builds (fun s => ∃ ps, (∀ c ∈ ps, c.kind = .param) ∧ Drafts (⟨owner, p, ps⟩ :: opened) made s) (do
      let _ ← expect .rightParen "')' after parameters"
      return ()) (fun _ t => ∃ ps, (∀ c ∈ ps, c.kind = .param) ∧ Drafts (⟨owner, p, ps⟩ :: opened) made t) := by
    refine builds_of_exists (fun ps hps => ?_)
    exact builds_expect.bind (fun _ => builds_of_and (fun _ => builds_pure (fun _ hs => ⟨ps, hps, hs⟩)))
  unfold paramList
  refine (builds_looks looks_look).bind (fun next => ?_)
  split
  · exact builds_take.bind (fun _ => builds_params h)
  · refine builds_take.bind (fun _ => ?_)
    refine (builds_looks (looks_atKind _)).bind (fun empty => ?_)
    dsimp only
    split
    · exact (builds_params h).bind (fun _ => hclose)
    · exact hclose.weaken hnone
  · exact builds_pure hnone

theorem builds_messageDeclaration : Builds (Drafts opened made) (messageDeclaration inner)
    (fun a t => ∃ p : Payload, (∃ name, p = .messageDeclaration name) ∧ Drafts opened ((a, p) :: made) t) := by
  have hrest : ∀ (start : Location) (name : Option String), Builds (Drafts opened made) (do
      let declaration ← openNode (.messageDeclaration name) start
      paramList inner declaration
      if ← atKind .leftBracket then attach declaration (← inner.parse .returnType)
      return declaration)
      (fun a t => ∃ p : Payload, (∃ name, p = .messageDeclaration name) ∧ Drafts opened ((a, p) :: made) t) := by
    intro start name
    refine builds_openNode.bind (fun declaration => ?_)
    refine (builds_paramList h).bind (fun _ => builds_of_exists (fun ps hps => ?_))
    refine (builds_looks (looks_atKind _)).bind (fun returns => ?_)
    dsimp only
    split
    · refine (builds_rule h .returnType rfl).bind (fun returnType => builds_of_exists (fun q hq => ?_))
      refine builds_attach.bind (fun _ => builds_close ⟨name, rfl⟩ ⟨ps, [q], rfl, hps, Nat.le_refl _, fun c hc => ?_⟩)
      obtain rfl := List.mem_singleton.1 hc
      exact hq
    · exact builds_close ⟨name, rfl⟩ ⟨ps, [], (List.append_nil ps).symm, hps, Nat.zero_le _, fun _ hc => (nomatch hc)⟩
  have hname : Builds (Drafts opened made) (some <$> identifier "message name") (fun _ => Drafts opened made) :=
    Builds.map (R := fun _ => Drafts opened made) (builds_identifier.mono (fun _ _ ht => ht.2))
  unfold messageDeclaration
  refine builds_location.bind (fun start => ?_)
  refine builds_expectKeyword.bind (fun _ => ?_)
  refine (builds_looks (looks_atKind _)).bind (fun named => ?_)
  dsimp only
  split
  · exact hname.bind (fun name => hrest start name)
  · exact (builds_pure (Q := fun _ => Drafts opened made) (fun _ hs => hs)).bind (fun name => hrest start name)

omit h in
/-- Items with commas between them are not none. -/
theorem builds_separated {α : Type} {item : Parser α} (hitem : Builds (Drafts opened made) item (fun _ => Drafts opened made)) :
    Builds (Drafts opened made) (separated item) (fun items t => items ≠ [] ∧ Drafts opened made t) := by
  unfold separated
  refine hitem.bind (fun first => ?_)
  refine builds_loop (looks_atKind _) (fun items _ => ?_) [first] (List.cons_ne_nil _ _)
  exact builds_take.bind (fun _ => hitem.bind (fun next => builds_pure (fun _ hs => ⟨by simp, hs⟩)))

theorem builds_returnType : Builds (Drafts opened made) (returnType inner)
    (fun a t => ∃ p : Payload, p.IsReturnType ∧ Drafts opened ((a, p) :: made) t) := by
  have hclose : ∀ (start : Location) (p : Payload), p.IsReturnType → p.Admits [] → Builds (Drafts opened made) (do
      if ← atKind .rightBracket then
        let _ ← take
        openNode p start
      else failFound .unclosedReturnType)
      (fun a t => ∃ p : Payload, p.IsReturnType ∧ Drafts opened ((a, p) :: made) t) := by
    intro start p hp hadmits
    refine (builds_looks (looks_atKind _)).bind (fun closed => ?_)
    split
    · exact builds_take.bind (fun _ => builds_leaf hp hadmits)
    · exact builds_failFound
  unfold returnType
  refine builds_location.bind (fun start => ?_)
  refine builds_expect.bind (fun _ => builds_of_and (fun _ => ?_))
  unfold returnPayload
  rw [bind_assoc]
  refine (builds_probe (probes_lookAhead _)).bind (fun named => ?_)
  split
  · rw [bind_map_left]
    refine (builds_separated (builds_nameWithType h _)).bind (fun fields => builds_of_and (fun hfields => ?_))
    exact hclose start (.namedTuple fields) hfields rfl
  · rw [bind_map_left]
    refine (builds_separated (builds_typeName h)).bind (fun types => builds_of_and (fun htypes => ?_))
    exact hclose start (.tuple types) htypes rfl

/-! ## Expressions -/

theorem builds_primary : Builds (Drafts opened made) (primary inner)
    (fun a t => ∃ p : Payload, p.kind ∈ Kind.receivers ∧ Drafts opened ((a, p) :: made) t) := by
  have hliteral : Builds (Drafts opened made) (inner.parse .literal)
      (fun a t => ∃ p : Payload, p.kind ∈ Kind.receivers ∧ Drafts opened ((a, p) :: made) t) :=
    (builds_rule h .literal rfl).mono (fun a t ⟨p, hp, ht⟩ => ⟨p, List.mem_append_left _ hp, ht⟩)
  have hinst : Builds (Drafts opened made) (inner.parse .inst)
      (fun a t => ∃ p : Payload, p.kind ∈ Kind.receivers ∧ Drafts opened ((a, p) :: made) t) :=
    builds_kind h .inst rfl (fun _ => rfl) (fun _ hp => hp) (by decide)
  unfold primary
  refine (builds_looks looks_look).bind (fun next => ?_)
  split
  · exact builds_kind h .groupedExpression rfl (fun _ => rfl) (fun _ hp => hp) (by decide)
  · exact builds_kind h .arrayLiteral rfl (fun _ => rfl) (fun _ hp => hp) (by decide)
  · exact hinst
  · exact hliteral
  · exact builds_kind h .messageBlock rfl (fun _ => rfl) (fun _ hp => hp) (by decide)
  · exact hinst
  · exact hinst
  · split
    · exact hliteral
    · exact builds_failFound
  · exact builds_failFound

/-- What is no return is a receiver, or a message sent to one. -/
theorem builds_sent : Builds (Drafts opened made) (do
      let value ← primary inner
      if ← startsMessage then inner.parse (.sendMessage value) else return value)
    (fun a t => ∃ p : Payload, p.kind ∈ Kind.values ∧ Drafts opened ((a, p) :: made) t) := by
  refine (builds_primary h).bind (fun value => builds_of_exists (fun p hp => ?_))
  refine (builds_looks looks_startsMessage).bind (fun sends => ?_)
  split
  · refine (h.gives (.sendMessage value) opened ((value, p) :: made) (fun node hnode => ?_)).mono ?_
    · obtain rfl := List.mem_singleton.1 hnode
      exact ⟨p, List.mem_cons_self, hp⟩
    · rintro a t ⟨q, hq, ht⟩
      have hkind : q.kind = .sendMessage := hq
      have hsub : (a, q) :: made ⊆ (a, q) :: (value, p) :: made := List.cons_subset_cons _ (List.subset_cons_self _ _)
      exact ⟨q, by rw [hkind]; decide, ht.forget hsub⟩
  · exact builds_pure (fun _ hs => ⟨p, List.mem_append_left _ hp, hs⟩)

theorem builds_expression : Builds (Drafts opened made) (expression inner)
    (fun a t => ∃ p : Payload, p.kind ∈ Kind.expressions ∧ Drafts opened ((a, p) :: made) t) := by
  unfold expression
  refine (builds_looks (looks_atKeyword _)).bind (fun returns => ?_)
  split
  · exact builds_kind h .returnExpression rfl (fun _ => rfl) (fun _ hp => hp) (by decide)
  · exact (builds_sent h).mono (fun _ _ ⟨p, hp, ht⟩ => ⟨p, List.mem_append_left _ hp, ht⟩)

/-- Where no `return` is next, an expression is a value. -/
theorem builds_expression_value {next : Option Token} (hnext : next.bind Token.keyword? ≠ some .returnWord) :
    Builds (fun s => s.significant.head? = next ∧ Drafts opened made s) (expression inner)
      (fun a t => ∃ p : Payload, p.kind ∈ Kind.values ∧ Drafts opened ((a, p) :: made) t) := by
  intro s ⟨hs, hdrafts⟩
  have hno : ¬(s.significant.head?.bind Token.keyword? == some .returnWord) = true := by
    rw [hs]
    simpa using hnext
  unfold expression
  rw [yields_bind, yields_of_eq_ok (looks_atKeyword _ s), if_neg hno]
  exact builds_sent h s.settle hdrafts.settle

theorem builds_argument : Builds (Drafts opened made) (argument inner)
    (fun a t => ∃ p : Payload, p.kind ∈ Kind.values ∧ Drafts opened ((a, p) :: made) t) := by
  unfold argument
  refine builds_look_bind (looks_atKeyword _) (fun next => ?_)
  split
  · exact builds_fail
  · rename_i hnext
    exact h.value opened made (by simpa using hnext)

theorem builds_returned : Builds (Drafts opened made) (returned inner)
    (fun a t => ∃ p : Payload, p.kind ∈ Kind.values ∧ Drafts opened ((a, p) :: made) t) := by
  unfold returned
  refine (builds_looks (looks_atKind _)).bind (fun bare => ?_)
  split
  · exact builds_location.bind (fun l => builds_leaf (by decide) rfl)
  · exact builds_rule h .argument rfl

theorem builds_returnExpression : Builds (Drafts opened made) (returnExpression inner)
    (fun a t => ∃ p : Payload, p.kind = .returnExpression ∧ Drafts opened ((a, p) :: made) t) := by
  unfold returnExpression
  refine builds_location.bind (fun start => ?_)
  refine builds_expectKeyword.bind (fun _ => ?_)
  refine builds_openNode.bind (fun node => ?_)
  refine (builds_returned h).bind (fun value => builds_of_exists (fun q hq => ?_))
  exact builds_attach.bind (fun _ => builds_close rfl ⟨q, rfl, hq⟩)

theorem builds_groupedExpression : Builds (Drafts opened made) (groupedExpression inner)
    (fun a t => ∃ p : Payload, p.kind = .groupedExpression ∧ Drafts opened ((a, p) :: made) t) := by
  unfold groupedExpression
  refine builds_location.bind (fun start => ?_)
  refine builds_expect.bind (fun _ => builds_of_and (fun _ => ?_))
  refine builds_openNode.bind (fun group => ?_)
  refine (builds_rule h .expression rfl).bind (fun value => builds_of_exists (fun q hq => ?_))
  refine builds_attach.bind (fun _ => ?_)
  exact builds_expect.bind (fun _ => builds_of_and (fun _ => builds_close rfl ⟨q, rfl, hq⟩))

/-- The receiver was made before the send and is linked below it when the message is there. -/
theorem builds_sendMessage {receiver : NodeId} (hreceiver : ∃ p, (receiver, p) ∈ made ∧ p.kind ∈ Kind.receivers) :
    Builds (Drafts opened made) (sendMessage inner receiver)
      (fun a t => ∃ p : Payload, p.kind = .sendMessage ∧ Drafts opened ((a, p) :: made) t) := by
  obtain ⟨q, hq, hkind⟩ := hreceiver
  unfold sendMessage
  refine (builds_nodeLocation receiver).bind (fun l => ?_)
  refine builds_openNode.bind (fun send => ?_)
  refine (builds_rule h .message rfl).bind (fun message => builds_of_exists ?_)
  rintro _ ⟨name, rfl⟩
  have horder : (receiver, q) :: (message, .message name none) :: made ⊆ [(message, .message name none)] ++ made :=
    List.cons_subset.2 ⟨List.mem_append_right _ hq, fun _ hm => hm⟩
  refine Builds.forget ?_ horder
  refine builds_attach.bind (fun _ => ?_)
  exact builds_attach.bind (fun _ => builds_close rfl ⟨q, name, rfl, hkind⟩)

/-- A message with a name has any number of parameters, since no name is an operator; an operator has one. -/
theorem builds_message : Builds (Drafts opened made) (message inner)
    (fun a t => ∃ p : Payload, (∃ name, p = .message name none) ∧ Drafts opened ((a, p) :: made) t) := by
  unfold message
  refine builds_location.bind (fun start => ?_)
  refine (builds_looks looks_look).bind (fun next => ?_)
  split
  · split
    · refine builds_identifier.bind (fun name => builds_of_and (fun hname => ?_))
      refine builds_openNode.bind (fun node => ?_)
      refine (builds_any_children (G := fun c => c.kind ∈ Kind.values) (looks_atKind _) (fun below => ?_)).bind
        (fun _ => builds_of_exists (fun ps hps => ?_))
      · exact builds_take.bind (fun _ => (builds_rule h .argument rfl).attach)
      · exact builds_close ⟨name, rfl⟩ ⟨hps, fun hop => absurd hop hname⟩
    · split
      · refine builds_take.bind (fun operator => ?_)
        refine builds_openNode.bind (fun node => ?_)
        refine (builds_rule h .argument rfl).bind (fun value => builds_of_exists (fun q hq => ?_))
        refine builds_attach.bind (fun _ => builds_close ⟨operator.text, rfl⟩ ⟨fun c hc => ?_, fun _ => rfl⟩)
        obtain rfl := List.mem_singleton.1 hc
        exact hq
      · exact builds_failFound
  · exact builds_failFound

/-! ## Statements -/

/-- The target is made before the message that holds the value, and is linked before it. -/
theorem builds_assignment : Builds (Drafts opened made) (assignment inner)
    (fun a t => ∃ p : Payload, p.kind = .assignment ∧ Drafts opened ((a, p) :: made) t) := by
  have hrest : ∀ (node target : NodeId) (p : Payload), p.IsTyped ∨ p.kind = .inst →
      Builds (Drafts (⟨node, .assignment, []⟩ :: opened) ((target, p) :: made)) (do
        let operator ← expect .assignment "':='"
        let message ← openNode (.message ":=" none) operator.location
        let value ← inner.parse .argument
        attach message value
        attach node target
        attach node message
        return node) (fun a t => ∃ p : Payload, p.kind = .assignment ∧ Drafts opened ((a, p) :: made) t) := by
    intro node target p hp
    refine builds_expect.bind (fun operator => builds_of_and (fun _ => ?_))
    refine builds_openNode.bind (fun message => ?_)
    refine (builds_rule h .argument rfl).bind (fun value => builds_of_exists (fun q hq => ?_))
    refine builds_attach.bind (fun _ => ?_)
    refine Builds.closed ?_ ⟨List.forall_mem_cons.2 ⟨hq, fun _ hc => (nomatch hc)⟩, fun _ => rfl⟩
    refine Builds.forget ?_ (List.Perm.swap (message, .message ":=" none) (target, p) made).subset
    refine builds_attach.bind (fun _ => ?_)
    exact builds_attach.bind (fun _ => builds_close rfl ⟨p, rfl, hp⟩)
  unfold assignment
  refine builds_location.bind (fun start => ?_)
  refine builds_openNode.bind (fun node => ?_)
  refine (builds_probe (probes_lookAhead _)).bind (fun typed => ?_)
  dsimp only
  split
  · exact (builds_rule h .variableDefinition rfl).bind
      (fun target => builds_of_exists (fun p hp => hrest node target p (.inl hp)))
  · exact (builds_rule h .inst rfl).bind (fun target => builds_of_exists (fun p hp => hrest node target p (.inr hp)))

/-- A rule that yields a statement other than a variable. -/
theorem builds_statement_kind (rule : Rule NodeId) {k : Kind} (hused : rule.uses = []) (hmakes : ∀ a, rule.makes a = [a])
    (hgives : ∀ p, rule.Gives p → p.kind = k) (hk : k ∈ Kind.statements) : Builds (Drafts opened made) (inner.parse rule)
    (fun a t => ∃ p : Payload, (p.IsTyped ∨ p.kind ∈ Kind.statements) ∧ Drafts opened ((a, p) :: made) t) :=
  (builds_kind h rule hused hmakes hgives hk).mono (fun _ _ ⟨p, hp, ht⟩ => ⟨p, .inr hp, ht⟩)

theorem builds_closedStatement : Builds (Drafts opened made) (closedStatement inner)
    (fun a t => ∃ p : Payload, (p.IsTyped ∨ p.kind ∈ Kind.statements) ∧ Drafts opened ((a, p) :: made) t) := by
  have hexpression : Builds (Drafts opened made) (inner.parse .expression)
      (fun a t => ∃ p : Payload, (p.IsTyped ∨ p.kind ∈ Kind.statements) ∧ Drafts opened ((a, p) :: made) t) :=
    (builds_rule h .expression rfl).mono (fun _ _ ⟨p, hp, ht⟩ => ⟨p, .inr (List.mem_append_left _ hp), ht⟩)
  have hassignment : Builds (Drafts opened made) (inner.parse .assignment)
      (fun a t => ∃ p : Payload, (p.IsTyped ∨ p.kind ∈ Kind.statements) ∧ Drafts opened ((a, p) :: made) t) :=
    builds_statement_kind h .assignment rfl (fun _ => rfl) (fun _ hp => hp) (by decide)
  have hnamed : Builds (Drafts opened made) (namedStatement inner)
      (fun a t => ∃ p : Payload, (p.IsTyped ∨ p.kind ∈ Kind.statements) ∧ Drafts opened ((a, p) :: made) t) := by
    unfold namedStatement
    refine (builds_probe probes_looksLikeVariableDefinition).bind (fun defines => ?_)
    split
    · exact (builds_rule h .variableDefinition rfl).mono (fun _ _ ⟨p, hp, ht⟩ => ⟨p, .inl hp, ht⟩)
    refine (builds_probe (probes_lookAhead _)).bind (fun typed => ?_)
    split
    · exact hassignment
    refine (builds_probe probes_looksLikePlainAssignment).bind (fun assigns => ?_)
    split
    · exact hassignment
    · exact hexpression
  have hend : ∀ node : NodeId, Builds
      (fun s => ∃ p : Payload, (p.IsTyped ∨ p.kind ∈ Kind.statements) ∧ Drafts opened ((node, p) :: made) s)
      (expect .endOfStatement "';'" >>= fun _ => pure node)
      (fun a t => ∃ p : Payload, (p.IsTyped ∨ p.kind ∈ Kind.statements) ∧ Drafts opened ((a, p) :: made) t) := by
    refine fun node => builds_of_exists (fun p hp => ?_)
    exact builds_expect.bind (fun _ => builds_of_and (fun _ => builds_pure (fun _ hs => ⟨p, hp, hs⟩)))
  unfold closedStatement
  refine (builds_looks (looks_atKind _)).bind (fun named => ?_)
  dsimp only
  split
  · exact hnamed.bind hend
  · exact hexpression.bind hend

theorem builds_statement : Builds (Drafts opened made) (statement inner)
    (fun a t => ∃ p : Payload, (p.IsTyped ∨ p.kind ∈ Kind.statements) ∧ Drafts opened ((a, p) :: made) t) := by
  unfold statement
  refine (builds_looks looks_look).bind (fun next => ?_)
  split
  · exact builds_statement_kind h .classBlock rfl (fun _ => rfl) (fun _ hp => hp) (by decide)
  · exact builds_statement_kind h .recordBlock rfl (fun _ => rfl) (fun _ hp => hp) (by decide)
  · exact builds_closedStatement h

theorem builds_statements : Builds (Drafts opened made) (statements inner)
    (fun a t => ∃ p : Payload, p = .statementsBlock ∧ Drafts opened ((a, p) :: made) t) := by
  unfold statements
  refine builds_location.bind (fun start => ?_)
  refine builds_openNode.bind (fun block => ?_)
  refine (builds_any_children looks_inBlock (fun below => (builds_rule h .statement rfl).attach)).bind
    (fun _ => builds_of_exists (fun ps hps => ?_))
  exact builds_close rfl hps

/-! ## Units -/

omit h in
theorem builds_flags : Builds (Drafts opened made) flags (fun _ => Drafts opened made) := by
  have hname : Builds (Drafts opened made) flagName (fun _ => Drafts opened made) := by
    unfold flagName
    refine (builds_looks looks_look).bind (fun next => ?_)
    split
    · exact builds_take
    · exact builds_take
    · exact builds_failFound
  have hflag : ∀ fs : List String, True → Builds (Drafts opened made) (flag fs) (fun _ t => True ∧ Drafts opened made t) := by
    intro fs _
    unfold flag
    refine hname.bind (fun name => ?_)
    unfold flagEnd
    refine (builds_looks looks_look).bind (fun next => ?_)
    split
    · exact builds_take.bind (fun _ => builds_pure (fun _ hs => ⟨trivial, hs⟩))
    · exact builds_pure (fun _ hs => ⟨trivial, hs⟩)
    · exact builds_failFound
  have hlist : Builds (Drafts opened made) flagList (fun _ => Drafts opened made) := by
    unfold flagList
    refine (builds_looks (looks_atKind _)).bind (fun bracketed => ?_)
    split
    · refine builds_take.bind (fun _ => ?_)
      refine (builds_loop ((looks_atKind _).map not) hflag [] trivial).bind (fun fs => builds_of_and (fun _ => ?_))
      exact builds_take.bind (fun _ => builds_pure (fun _ hs => hs))
    · exact builds_pure (fun _ hs => hs)
  unfold flags
  refine builds_expect.bind (fun _ => builds_of_and (fun _ => ?_))
  exact hlist.bind (fun fs => builds_keepFlags fs)

/-- A body is one block of statements, or it is namespaces, of which the first is there when the loop begins. -/
theorem builds_blockBody : Builds (Drafts (⟨owner, p, []⟩ :: opened) made) (blockBody inner owner)
    (fun _ t => ∃ ps, (ps = [.statementsBlock] ∨ (ps ≠ [] ∧ ∀ c ∈ ps, c.kind = .namespaceBlock)) ∧
      Drafts (⟨owner, p, ps⟩ :: opened) made t) := by
  unfold blockBody
  refine builds_look_bind (looks_atKeyword _) (fun next => ?_)
  split
  · rename_i hnext
    refine (builds_children (G := fun c => c.kind = .namespaceBlock) (looks_atKeyword _) (fun below => ?_) next).bind
      (fun _ => builds_of_exists (fun ps hps => ?_))
    · exact (builds_rule h .namespaceBlock rfl).attach
    · refine (builds_looks looks_inBlock).bind (fun goesOn => ?_)
      split
      · exact builds_failFound
      · exact builds_pure (fun _ hs => ⟨ps, .inr ⟨hps.2 hnext, hps.1⟩, hs⟩)
  · refine Builds.weaken ?_ (fun s hs => hs.2)
    refine (builds_rule h .statements rfl).attach.mono ?_
    rintro _ t ⟨_, rfl, ht⟩
    exact ⟨[.statementsBlock], .inl rfl, ht⟩

theorem builds_namespaceBlock : Builds (Drafts opened made) (namespaceBlock inner)
    (fun a t => ∃ p : Payload, p.kind = .namespaceBlock ∧ Drafts opened ((a, p) :: made) t) := by
  unfold namespaceBlock
  refine builds_location.bind (fun start => ?_)
  refine builds_expectKeyword.bind (fun _ => ?_)
  refine builds_identifier.bind (fun name => builds_of_and (fun _ => ?_))
  refine builds_openNode.bind (fun node => ?_)
  refine builds_expect.bind (fun _ => builds_of_and (fun _ => ?_))
  refine (builds_blockBody h).bind (fun _ => builds_of_exists (fun ps hps => ?_))
  exact builds_expect.bind (fun _ => builds_of_and (fun _ => builds_close rfl hps))

theorem builds_codeFragment : Builds (Drafts opened made) (codeFragment inner)
    (fun a t => ∃ p : Payload, p = .codeFragmentBlock ∧ Drafts opened ((a, p) :: made) t) := by
  have hblock : ∀ start : Location, Builds (Drafts opened made) (do
      let fragment ← openNode .codeFragmentBlock start
      let _ ← expect .leftBrace "'\x7b'"
      blockBody inner fragment
      let _ ← expect .rightBrace "'\x7d'"
      return fragment) (fun a t => ∃ p : Payload, p = .codeFragmentBlock ∧ Drafts opened ((a, p) :: made) t) := by
    intro start
    refine builds_openNode.bind (fun fragment => ?_)
    refine builds_expect.bind (fun _ => builds_of_and (fun _ => ?_))
    refine (builds_blockBody h).bind (fun _ => builds_of_exists (fun ps hps => ?_))
    exact builds_expect.bind (fun _ => builds_of_and (fun _ => builds_close rfl hps))
  unfold codeFragment
  refine builds_location.bind (fun start => ?_)
  refine (builds_looks (looks_atKind _)).bind (fun flagged => ?_)
  dsimp only
  split
  · exact (builds_rule h .flags rfl).bind (fun _ => builds_of_exists (fun _ _ => hblock start))
  · exact hblock start

omit h in
theorem builds_moduleVersion : Builds (Drafts opened made) moduleVersion (fun _ => Drafts opened made) := by
  unfold moduleVersion
  refine (builds_looks (looks_atKind _)).bind (fun versioned => ?_)
  split
  · refine builds_take.bind (fun _ => ?_)
    refine (builds_looks looks_look).bind (fun next => ?_)
    split
    · exact builds_take.bind (fun _ => builds_pure (fun _ hs => hs))
    · exact builds_take.bind (fun _ => builds_pure (fun _ hs => hs))
    · exact builds_take.bind (fun _ => builds_pure (fun _ hs => hs))
    · exact builds_failFound
  · exact builds_pure (fun _ hs => hs)

theorem builds_moduleBlock : Builds (Drafts opened made) (moduleBlock inner)
    (fun a t => ∃ p : Payload, p.kind = .moduleBlock ∧ Drafts opened ((a, p) :: made) t) := by
  unfold moduleBlock
  refine builds_location.bind (fun start => ?_)
  refine builds_expectKeyword.bind (fun _ => ?_)
  refine builds_identifier.bind (fun name => builds_of_and (fun _ => ?_))
  refine builds_moduleVersion.bind (fun version => ?_)
  refine builds_openNode.bind (fun node => ?_)
  refine builds_expect.bind (fun _ => builds_of_and (fun _ => ?_))
  refine (builds_rule h .codeFragment rfl).bind (fun fragment => builds_of_exists ?_)
  rintro _ rfl
  refine builds_attach.bind (fun _ => ?_)
  exact builds_expect.bind (fun _ => builds_of_and (fun _ => builds_close rfl rfl))

theorem builds_unit : Builds (Drafts opened made) (unit inner)
    (fun a t => ∃ p : Payload, p.IsUnit ∧ Drafts opened ((a, p) :: made) t) := by
  have hfragment : Builds (Drafts opened made) (inner.parse .codeFragment)
      (fun a t => ∃ p : Payload, p.IsUnit ∧ Drafts opened ((a, p) :: made) t) :=
    builds_kind h .codeFragment rfl (fun _ => rfl) (fun _ hp => by rw [hp]) (by decide)
  have hblock : Builds (Drafts opened made) (unitBlock inner)
      (fun a t => ∃ p : Payload, p.IsUnit ∧ Drafts opened ((a, p) :: made) t) := by
    unfold unitBlock
    refine (builds_looks looks_look).bind (fun next => ?_)
    split
    · exact hfragment
    · exact hfragment
    · exact builds_kind h .moduleBlock rfl (fun _ => rfl) (fun _ hp => hp) (by decide)
    · exact builds_fail
    · exact builds_fail
    · exact builds_fail
    · exact builds_failFound
  unfold Grammar.unit
  refine hblock.bind (fun root => builds_of_exists (fun p hp => ?_))
  refine (builds_looks looks_current?).bind (fun next => ?_)
  split
  · exact builds_failFound
  · exact builds_pure (fun _ hs => ⟨p, hp, hs⟩)

end

end Parser

end Courier
