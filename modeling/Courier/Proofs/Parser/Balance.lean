import Courier.Proofs.Parser.Acts
import Courier.Proofs.Parser.Ledger

/-!
# Productions keep the ledger

Every production leaves what is counted as it was, if the productions inside it do (`Inner.Balances`): each token that is taken counts for
nothing, or for the node that is made at once. Only the production of flags leaves something due, and only a code fragment and a message
block of a class are made next, so the flags go there. At the end no token is ahead, so the nodes of a unit that parses count for what its
tokens do, and its flags are in place (`Ledger.nodes_of_unit`).
-/

namespace Courier

/-- What a rule leaves: flags wait for the next node, a type is a name, and behind any other rule no flags are due. -/
def Rule.Balanced {β : Type} (L : Ledger β) (total : List β) (loose classes : List NodeId) :
    {α : Type} → Rule α → α → ParserState → Prop
  | _, .flags, _, s => ∃ fs, L.Owing total fs loose classes s
  | _, .typeDeclaration, name, s => L.Name name ∧ L.Even total loose classes s
  | _, _, _, s => L.Even total loose classes s

/-- The productions inside a production keep the ledger. A message block takes the flags that wait, and is loose. -/
structure Inner.Balances {β : Type} (inner : Inner) (L : Ledger β) (total : List β) : Prop where
  rule {α : Type} (r : Rule α) (loose classes : List NodeId) :
    Parser.Builds (L.Even total loose classes) (inner.parse r) (r.Balanced L total loose classes)
  flagged (fs : List String) (loose classes : List NodeId) :
    Parser.Builds (L.Owing total fs loose classes) (inner.parse .messageBlock) (fun block => L.Even total (block :: loose) classes)

namespace Parser

open Courier.Grammar

section

variable {β : Type} {L : Ledger β} {total : List β} {loose classes : List NodeId} {owner : NodeId}

/-! ## Names, types and literals -/

theorem balanced_dottedRest (what : String) {name : String} (hname : L.Name name) :
    Builds (L.Even total loose classes) (dottedRest what name) (fun name t => L.Name name ∧ L.Even total loose classes t) := by
  unfold dottedRest
  refine kept_while (looks_atKind _) (fun name next hdot hname => ?_) hname
  refine (kept_take (fun t ht => by simp [kind_of_atKind hdot t ht])).bind (fun _ => builds_of_and (fun _ => ?_))
  exact kept_identifier.bind (fun last => builds_of_and (fun hlast => builds_pure (fun _ hs => ⟨L.dotted hname hlast, hs⟩)))

theorem balanced_typeDeclaration :
    Builds (L.Even total loose classes) typeDeclaration (fun name t => L.Name name ∧ L.Even total loose classes t) := by
  unfold typeDeclaration
  exact kept_identifier.bind (fun name => builds_of_and (fun hname => balanced_dottedRest _ hname))

theorem balanced_instanceHead :
    Builds (L.Even total loose classes) instanceHead (fun name t => L.Name name ∧ L.Even total loose classes t) := by
  have htake : ∀ {next : Option Token}, (∀ t ∈ next, t.kind = .identifier ∨ t.kind = .keyword) →
      Builds (fun s => s.significant.head? = next ∧ L.Even total loose classes s) (Token.text <$> take)
        (fun name t => L.Name name ∧ L.Even total loose classes t) := by
    intro next hnext
    refine Builds.map (R := fun name t => L.Name name ∧ L.Even total loose classes t) (kept_take (fun t ht => ?_))
    rcases hnext t ht with hkind | hkind <;> simp [hkind]
  unfold instanceHead
  refine kept_look_bind looks_look (fun next => ?_)
  split
  · rename_i hlook
    exact htake (fun t ht => .inl (kind_of_look hlook t ht))
  · rename_i hlook
    exact htake (fun t ht => .inr (Token.kind_of_keyword? (keyword_of_look hlook t ht)))
  · rename_i hlook
    exact htake (fun t ht => .inr (Token.kind_of_keyword? (keyword_of_look hlook t ht)))
  · exact builds_failFound

theorem balanced_inst : Builds (L.Even total loose classes) Grammar.inst (fun _ => L.Even total loose classes) := by
  unfold Grammar.inst
  refine kept_location.bind (fun start => ?_)
  refine balanced_instanceHead.bind (fun first => builds_of_and (fun hfirst => ?_))
  refine (balanced_dottedRest _ hfirst).bind (fun name => builds_of_and (fun hname => ?_))
  exact kept_openNode (p := .inst name none) ⟨hname, fun _ ht => (nomatch ht)⟩ start

/-- A literal is taken and made at once: between the two, the ledger is not even. -/
theorem balanced_literal : Builds (L.Even total loose classes) Grammar.literal (fun _ => L.Even total loose classes) := by
  intro s hs
  unfold Grammar.literal
  rw [yields_bind]
  cases hsig : s.significant with
  | nil =>
    obtain ⟨e, he, -⟩ := take_eq_error hsig
    exact (yields_of_eq_error he).2 trivial
  | cons t v =>
    refine (yields_of_eq_ok (take_eq hsig)).2 ?_
    split
    · rename_i p hp
      exact hs.literal hsig hp _
    · trivial

/-! ## Arrays -/

variable {inner : Inner} (h : inner.Balances L total)

include h

theorem balanced_typeName : Builds (L.Even total loose classes) (inner.parse .typeDeclaration)
    (fun name t => L.Name name ∧ L.Even total loose classes t) :=
  h.rule .typeDeclaration loose classes

theorem balanced_element : Builds (L.Even total loose classes) (element inner) (fun _ => L.Even total loose classes) := by
  unfold element
  refine (kept_looks looks_look).bind (fun next => ?_)
  split
  · exact h.rule .inst loose classes
  · exact h.rule .literal loose classes
  · split
    · exact h.rule .literal loose classes
    · exact builds_failFound
  · exact builds_failFound

omit h in
/-- A list of nodes that are linked below another, with commas between them. -/
theorem balanced_separatedNodes {item : Parser NodeId}
    (hitem : Builds (L.Even total loose classes) item (fun _ => L.Even total loose classes)) :
    Builds (L.Even total loose classes) (do
      attach owner (← item)
      repeatWhile (atKind .comma) (fun _ => do
        let _ ← take
        attach owner (← item)) ()) (fun _ => L.Even total loose classes) := by
  refine hitem.bind (fun first => (kept_attach owner first).bind (fun _ => ?_))
  refine kept_repeat (looks_atKind _) (fun next hcomma => ?_)
  refine (kept_take (fun t ht => by simp [kind_of_atKind hcomma t ht])).bind (fun _ => builds_of_and (fun _ => ?_))
  exact hitem.bind (fun next => kept_attach owner next)

theorem balanced_arrayLiteral : Builds (L.Even total loose classes) (Grammar.arrayLiteral inner) (fun _ => L.Even total loose classes) := by
  have hclose : ∀ (start : Location) (array : NodeId), Builds (L.Even total loose classes) (do
      if ← atKind .rightBracket then
        let _ ← take
        return array
      else failAt start .unterminatedArray) (fun _ => L.Even total loose classes) := by
    intro start array
    refine kept_look_bind (looks_atKind _) (fun next => ?_)
    split
    · rename_i hclosed
      refine (kept_take (fun t ht => by simp [kind_of_atKind hclosed t ht])).bind (fun _ => builds_of_and (fun _ => ?_))
      exact builds_pure (fun _ hs => hs)
    · exact builds_failAt
  unfold Grammar.arrayLiteral
  refine kept_location.bind (fun start => ?_)
  refine (kept_expect (by decide)).bind (fun _ => builds_of_and (fun _ => ?_))
  refine (kept_openNode (p := .arrayLiteral) trivial start).bind (fun array => ?_)
  refine (kept_looks (looks_atKind _)).bind (fun empty => ?_)
  dsimp only
  split
  · exact (balanced_separatedNodes (balanced_element h)).bind (fun _ => hclose start array)
  · exact hclose start array

/-! ## Declarations -/

theorem balanced_nameWithType (what : String) : Builds (L.Even total loose classes) (nameWithType inner what)
    (fun named t => (L.Name named.1 ∧ L.Name named.2) ∧ L.Even total loose classes t) := by
  unfold nameWithType
  refine kept_identifier.bind (fun name => builds_of_and (fun hname => ?_))
  refine (kept_expect (by decide)).bind (fun _ => builds_of_and (fun _ => ?_))
  exact (balanced_typeName h).bind (fun typeName => builds_of_and (fun htype => builds_pure (fun _ hs => ⟨⟨hname, htype⟩, hs⟩)))

theorem balanced_typedNode {payload : String → String → Payload} (what : String)
    (hpayload : ∀ name typeName, L.Name name → L.Name typeName → (payload name typeName).Named L.Name) :
    Builds (L.Even total loose classes) (typedNode inner what payload) (fun _ => L.Even total loose classes) := by
  unfold typedNode
  refine kept_location.bind (fun start => ?_)
  refine (balanced_nameWithType h what).bind (fun named => builds_of_and (fun hnamed => ?_))
  exact kept_openNode (hpayload _ _ hnamed.1 hnamed.2) start

theorem balanced_variableDefinition :
    Builds (L.Even total loose classes) (variableDefinition inner) (fun _ => L.Even total loose classes) := by
  refine balanced_typedNode h _ (fun name typeName hname htype => ⟨hname, fun t ht => ?_⟩)
  obtain rfl := Option.some.inj ht
  exact htype

theorem balanced_param : Builds (L.Even total loose classes) (param inner) (fun _ => L.Even total loose classes) :=
  balanced_typedNode h _ (fun _ _ hname htype => ⟨hname, htype⟩)

theorem balanced_superclass : Builds (L.Even total loose classes) (superclass inner)
    (fun parent t => (∀ p ∈ parent, L.Name p) ∧ L.Even total loose classes t) := by
  unfold superclass
  refine kept_look_bind (looks_atKeyword _) (fun next => ?_)
  split
  · rename_i hinherits
    have hkeyword := fun t ht => Token.kind_of_keyword? (keyword_of_atKeyword hinherits t ht)
    refine (kept_take (fun t ht => by simp [hkeyword t ht])).bind (fun _ => builds_of_and (fun _ => ?_))
    refine (balanced_typeName h).bind (fun name => builds_of_and (fun hname => builds_pure (fun _ hs => ⟨fun p hp => ?_, hs⟩)))
    obtain rfl := Option.some.inj hp
    exact hname
  · exact builds_pure (fun _ hs => ⟨fun _ hp => (nomatch hp), hs.2⟩)

/-- The end of a block whose members are variables with types. -/
theorem balanced_members : Builds (L.Even total loose classes) (do
      let _ ← expect .leftBrace "'\x7b'"
      memberVariables inner owner
      let _ ← expect .rightBrace "'\x7d'"
      return owner) (fun _ => L.Even total loose classes) := by
  refine (kept_expect (by decide)).bind (fun _ => builds_of_and (fun _ => ?_))
  unfold memberVariables
  refine (kept_repeat looks_inBlock (fun next _ => Builds.weaken ?_ (fun _ hs => hs.2))).bind (fun _ => ?_)
  · refine Builds.bind (h.rule .variableDefinition loose classes) (fun member => ?_)
    exact (kept_expect (by decide)).bind (fun _ => builds_of_and (fun _ => kept_attach owner member))
  · exact (kept_expect (by decide)).bind (fun _ => builds_of_and (fun _ => builds_pure (fun _ hs => hs)))

/-- The word of a visibility is seen first and taken then. -/
theorem balanced_scopeBlock : Builds (L.Even total loose classes) (scopeBlock inner) (fun _ => L.Even total loose classes) := by
  have hrest : ∀ (start : Location) (seen : Visibility) {next : Option Token}, (∀ t ∈ next, t.kind = .keyword) →
      Builds (fun s => s.significant.head? = next ∧ L.Even total loose classes s) (do
        let _ ← take
        let scope ← openNode (.scope seen) start
        let _ ← expect .leftBrace "'\x7b'"
        memberVariables inner scope
        let _ ← expect .rightBrace "'\x7d'"
        return scope) (fun _ => L.Even total loose classes) := by
    intro start seen next hnext
    refine (kept_take (fun t ht => by simp [hnext t ht])).bind (fun _ => builds_of_and (fun _ => ?_))
    exact (kept_openNode (p := .scope seen) trivial start).bind (fun scope => balanced_members h)
  unfold scopeBlock visibility
  refine kept_location.bind (fun start => ?_)
  rw [bind_assoc]
  refine kept_look_bind looks_look (fun next => ?_)
  split
  · rename_i hlook
    exact hrest start .publicly (fun t ht => Token.kind_of_keyword? (keyword_of_look hlook t ht))
  · rename_i hlook
    exact hrest start .privately (fun t ht => Token.kind_of_keyword? (keyword_of_look hlook t ht))
  · exact builds_failFound

theorem balanced_recordBlock : Builds (L.Even total loose classes) (recordBlock inner) (fun _ => L.Even total loose classes) := by
  unfold recordBlock
  refine kept_location.bind (fun start => ?_)
  refine kept_expectKeyword.bind (fun _ => ?_)
  refine kept_identifier.bind (fun name => builds_of_and (fun hname => ?_))
  refine (balanced_superclass h).bind (fun parent => builds_of_and (fun hparent => ?_))
  exact (kept_openNode (p := .recordBlock name parent) ⟨hname, hparent⟩ start).bind (fun record => balanced_members h)

/-- A member of a class is loose until the class lists it. -/
theorem balanced_classMember : Builds (L.Even total loose classes) (classMember inner)
    (fun member => L.Even total (member :: loose) classes) := by
  unfold classMember
  refine (kept_looks looks_look).bind (fun next => ?_)
  split
  · exact Builds.mono (h.rule .scopeBlock loose classes) (fun _ _ ht => ht.loosen (List.subset_cons_self _ _))
  · exact Builds.mono (h.rule .scopeBlock loose classes) (fun _ _ ht => ht.loosen (List.subset_cons_self _ _))
  · exact Builds.bind (h.rule .flags loose classes) (fun _ s ⟨fs, hs⟩ => h.flagged fs loose classes s hs)
  · exact Builds.mono (h.rule .messageBlock loose classes) (fun _ _ ht => ht.loosen (List.subset_cons_self _ _))
  · exact builds_failFound

theorem balanced_classBlock : Builds (L.Even total loose classes) (classBlock inner) (fun _ => L.Even total loose classes) := by
  unfold classBlock
  refine kept_location.bind (fun start => ?_)
  refine kept_expectKeyword.bind (fun _ => ?_)
  refine kept_identifier.bind (fun name => builds_of_and (fun hname => ?_))
  refine (balanced_superclass h).bind (fun parent => builds_of_and (fun hparent => ?_))
  refine (kept_openClass (p := .classBlock name parent) ⟨hname, hparent⟩ rfl start).bind (fun node => ?_)
  refine (kept_expect (by decide)).bind (fun _ => builds_of_and (fun _ => ?_))
  refine (kept_repeat looks_inBlock (fun next _ => Builds.weaken ?_ (fun _ hs => hs.2))).bind (fun _ => ?_)
  · exact (balanced_classMember h).bind (fun member s hs => hs.attach_class _)
  · refine (kept_expect (by decide)).bind (fun _ => builds_of_and (fun _ => builds_pure (fun _ hs => ?_)))
    exact hs.forget_class

/-- What a message block is made of, once its node is there. -/
theorem balanced_messageParts (block : NodeId) : Builds (L.Even total loose classes) (do
      attach block (← inner.parse .messageDeclaration)
      let _ ← expect .leftBrace "'\x7b'"
      attach block (← inner.parse .statements)
      let _ ← expect .rightBrace "'\x7d'"
      return block) (fun a t => a = block ∧ L.Even total loose classes t) := by
  refine Builds.bind (h.rule .messageDeclaration loose classes) (fun declaration => ?_)
  refine Builds.bind (kept_attach block declaration) (fun _ => ?_)
  refine (kept_expect (by decide)).bind (fun _ => builds_of_and (fun _ => ?_))
  refine Builds.bind (h.rule .statements loose classes) (fun statements => ?_)
  refine Builds.bind (kept_attach block statements) (fun _ => ?_)
  exact (kept_expect (by decide)).bind (fun _ => builds_of_and (fun _ => builds_pure (fun _ hs => ⟨rfl, hs⟩)))

theorem balanced_messageBlock : Builds (L.Even total loose classes) (messageBlock inner) (fun _ => L.Even total loose classes) := by
  unfold messageBlock
  refine kept_location.bind (fun start => ?_)
  refine (kept_openNode (p := .messageBlock) trivial start).bind (fun block => ?_)
  exact (balanced_messageParts h block).mono (fun _ _ ht => ht.2)

/-- A message block behind flags takes them. -/
theorem balanced_messageBlock_flagged (fs : List String) : Builds (L.Owing total fs loose classes) (messageBlock inner)
    (fun block => L.Even total (block :: loose) classes) := by
  unfold messageBlock
  refine kept_location.bind (fun start => ?_)
  refine (kept_openMessageBlock start).bind (fun block => ?_)
  refine (balanced_messageParts h block).mono ?_
  rintro _ t ⟨rfl, ht⟩
  exact ht

theorem balanced_params : Builds (L.Even total loose classes) (params inner owner) (fun _ => L.Even total loose classes) :=
  balanced_separatedNodes (h.rule .param loose classes)

theorem balanced_paramList : Builds (L.Even total loose classes) (paramList inner owner) (fun _ => L.Even total loose classes) := by
  have hclose : Builds (L.Even total loose classes) (do
      let _ ← expect .rightParen "')' after parameters"
      return ()) (fun _ => L.Even total loose classes) :=
    (kept_expect (by decide)).bind (fun _ => builds_of_and (fun _ => builds_pure (fun _ hs => hs)))
  unfold paramList
  refine kept_look_bind looks_look (fun next => ?_)
  split
  · rename_i hlook
    refine (kept_take (fun t ht => by simp [kind_of_look hlook t ht])).bind (fun _ => builds_of_and (fun _ => ?_))
    exact balanced_params h
  · rename_i hlook
    refine (kept_take (fun t ht => by simp [kind_of_look hlook t ht])).bind (fun _ => builds_of_and (fun _ => ?_))
    refine (kept_looks (looks_atKind _)).bind (fun empty => ?_)
    dsimp only
    split
    · exact (balanced_params h).bind (fun _ => hclose)
    · exact hclose
  · exact builds_pure (fun _ hs => hs.2)

theorem balanced_messageDeclaration :
    Builds (L.Even total loose classes) (messageDeclaration inner) (fun _ => L.Even total loose classes) := by
  have hrest : ∀ (start : Location) (name : Option String), (∀ n ∈ name, L.Name n) → Builds (L.Even total loose classes) (do
      let declaration ← openNode (.messageDeclaration name) start
      paramList inner declaration
      if ← atKind .leftBracket then attach declaration (← inner.parse .returnType)
      return declaration) (fun _ => L.Even total loose classes) := by
    intro start name hname
    refine (kept_openNode (p := .messageDeclaration name) hname start).bind (fun declaration => ?_)
    refine (balanced_paramList h).bind (fun _ => ?_)
    refine (kept_looks (looks_atKind _)).bind (fun returns => ?_)
    dsimp only
    split
    · refine Builds.bind (h.rule .returnType loose classes) (fun returnType => ?_)
      exact Builds.bind (kept_attach declaration returnType) (fun _ => builds_pure (fun _ hs => hs))
    · exact builds_pure (fun _ hs => hs)
  have hname : Builds (L.Even total loose classes) (some <$> identifier "message name")
      (fun name t => (∀ n ∈ name, L.Name n) ∧ L.Even total loose classes t) := by
    refine Builds.map (R := fun name t => (∀ n ∈ name, L.Name n) ∧ L.Even total loose classes t) (kept_identifier.mono ?_)
    rintro name t ⟨hname, ht⟩
    exact ⟨fun n hn => Option.some.inj hn ▸ hname, ht⟩
  unfold messageDeclaration
  refine kept_location.bind (fun start => ?_)
  refine kept_expectKeyword.bind (fun _ => ?_)
  refine (kept_looks (looks_atKind _)).bind (fun named => ?_)
  dsimp only
  split
  · exact hname.bind (fun name => builds_of_and (fun hname => hrest start name hname))
  · exact hrest start none (fun _ hn => (nomatch hn))

omit h in
/-- Items with commas between them. -/
theorem balanced_separated {α : Type} {item : Parser α} {G : α → Prop}
    (hitem : Builds (L.Even total loose classes) item (fun a t => G a ∧ L.Even total loose classes t)) :
    Builds (L.Even total loose classes) (separated item) (fun items t => (∀ a ∈ items, G a) ∧ L.Even total loose classes t) := by
  unfold separated
  refine hitem.bind (fun first => builds_of_and (fun hfirst => ?_))
  refine kept_while (looks_atKind _) (fun items next hcomma hitems => ?_) (List.forall_mem_singleton.2 hfirst)
  refine (kept_take (fun t ht => by simp [kind_of_atKind hcomma t ht])).bind (fun _ => builds_of_and (fun _ => ?_))
  refine hitem.bind (fun last => builds_of_and (fun hlast => builds_pure (fun _ hs => ⟨?_, hs⟩)))
  exact List.forall_mem_append.2 ⟨hitems, List.forall_mem_singleton.2 hlast⟩

theorem balanced_returnPayload : Builds (L.Even total loose classes) (returnPayload inner)
    (fun p t => p.Named L.Name ∧ L.Even total loose classes t) := by
  unfold returnPayload
  refine (kept_probe (probes_lookAhead _)).bind (fun named => ?_)
  split
  · exact Builds.map (R := fun (p : Payload) t => p.Named L.Name ∧ L.Even total loose classes t)
      (balanced_separated (balanced_nameWithType h _))
  · exact Builds.map (R := fun (p : Payload) t => p.Named L.Name ∧ L.Even total loose classes t)
      (balanced_separated (balanced_typeName h))

theorem balanced_returnType : Builds (L.Even total loose classes) (returnType inner) (fun _ => L.Even total loose classes) := by
  unfold returnType
  refine kept_location.bind (fun start => ?_)
  refine (kept_expect (by decide)).bind (fun _ => builds_of_and (fun _ => ?_))
  refine (balanced_returnPayload h).bind (fun payload => builds_of_and (fun hpayload => ?_))
  refine kept_look_bind (looks_atKind _) (fun next => ?_)
  split
  · rename_i hclosed
    refine (kept_take (fun t ht => by simp [kind_of_atKind hclosed t ht])).bind (fun _ => builds_of_and (fun _ => ?_))
    exact kept_openNode hpayload start
  · exact builds_failFound

/-! ## Expressions -/

theorem balanced_primary : Builds (L.Even total loose classes) (primary inner) (fun _ => L.Even total loose classes) := by
  unfold primary
  refine (kept_looks looks_look).bind (fun next => ?_)
  split
  · exact h.rule .groupedExpression loose classes
  · exact h.rule .arrayLiteral loose classes
  · exact h.rule .inst loose classes
  · exact h.rule .literal loose classes
  · exact h.rule .messageBlock loose classes
  · exact h.rule .inst loose classes
  · exact h.rule .inst loose classes
  · split
    · exact h.rule .literal loose classes
    · exact builds_failFound
  · exact builds_failFound

theorem balanced_expression : Builds (L.Even total loose classes) (expression inner) (fun _ => L.Even total loose classes) := by
  unfold expression
  refine (kept_looks (looks_atKeyword _)).bind (fun returns => ?_)
  split
  · exact h.rule .returnExpression loose classes
  · refine (balanced_primary h).bind (fun value => ?_)
    refine (kept_looks looks_startsMessage).bind (fun sends => ?_)
    split
    · exact h.rule (.sendMessage value) loose classes
    · exact builds_pure (fun _ hs => hs)

theorem balanced_argument : Builds (L.Even total loose classes) (argument inner) (fun _ => L.Even total loose classes) := by
  unfold argument
  refine (kept_looks (looks_atKeyword _)).bind (fun returns => ?_)
  split
  · exact builds_fail
  · exact h.rule .expression loose classes

theorem balanced_returned : Builds (L.Even total loose classes) (returned inner) (fun _ => L.Even total loose classes) := by
  unfold returned
  refine (kept_looks (looks_atKind _)).bind (fun bare => ?_)
  split
  · exact kept_location.bind (fun l => kept_openNode (p := .nil) trivial l)
  · exact h.rule .argument loose classes

theorem balanced_returnExpression :
    Builds (L.Even total loose classes) (returnExpression inner) (fun _ => L.Even total loose classes) := by
  unfold returnExpression
  refine kept_location.bind (fun start => ?_)
  refine kept_expectKeyword.bind (fun _ => ?_)
  refine (kept_openNode (p := .returnExpression) trivial start).bind (fun node => ?_)
  refine (balanced_returned h).bind (fun value => ?_)
  exact Builds.bind (kept_attach node value) (fun _ => builds_pure (fun _ hs => hs))

theorem balanced_groupedExpression :
    Builds (L.Even total loose classes) (groupedExpression inner) (fun _ => L.Even total loose classes) := by
  unfold groupedExpression
  refine kept_location.bind (fun start => ?_)
  refine (kept_expect (by decide)).bind (fun _ => builds_of_and (fun _ => ?_))
  refine (kept_openNode (p := .groupedExpression) trivial start).bind (fun group => ?_)
  refine Builds.bind (h.rule .expression loose classes) (fun value => ?_)
  refine Builds.bind (kept_attach group value) (fun _ => ?_)
  exact (kept_expect (by decide)).bind (fun _ => builds_of_and (fun _ => builds_pure (fun _ hs => hs)))

theorem balanced_sendMessage (receiver : NodeId) :
    Builds (L.Even total loose classes) (sendMessage inner receiver) (fun _ => L.Even total loose classes) := by
  unfold sendMessage
  refine (kept_nodeLocation receiver).bind (fun l => ?_)
  refine (kept_openNode (p := .sendMessage) trivial l).bind (fun send => ?_)
  refine Builds.bind (h.rule .message loose classes) (fun message => ?_)
  refine Builds.bind (kept_attach send receiver) (fun _ => ?_)
  exact Builds.bind (kept_attach send message) (fun _ => builds_pure (fun _ hs => hs))

/-- The text of an operator is a name to the ledger, as it is no string. -/
theorem balanced_message : Builds (L.Even total loose classes) (message inner) (fun _ => L.Even total loose classes) := by
  unfold message
  refine kept_location.bind (fun start => ?_)
  refine kept_look_bind looks_look (fun next => ?_)
  split
  · rename_i kind _ hlook
    split
    · refine Builds.weaken ?_ (fun _ hs => hs.2)
      refine kept_identifier.bind (fun name => builds_of_and (fun hname => ?_))
      refine (kept_openNode (p := .message name none) hname start).bind (fun node => ?_)
      refine (kept_repeat (looks_atKind _) (fun next hcolon => ?_)).bind (fun _ => builds_pure (fun _ hs => hs))
      refine (kept_take (fun t ht => by simp [kind_of_atKind hcolon t ht])).bind (fun _ => builds_of_and (fun _ => ?_))
      exact Builds.bind (h.rule .argument loose classes) (fun value => kept_attach node value)
    · split
      · rename_i hoperator
        have hkind : kind ≠ .atSign ∧ kind ≠ .stringLiteral := by
          constructor
          all_goals
            rintro rfl
            nomatch hoperator
        refine (kept_take (fun t ht => by rwa [kind_of_look hlook t ht])).bind (fun operator => builds_of_and (fun hname => ?_))
        refine (kept_openNode (p := .message operator.text none) hname start).bind (fun node => ?_)
        refine Builds.bind (h.rule .argument loose classes) (fun value => ?_)
        exact Builds.bind (kept_attach node value) (fun _ => builds_pure (fun _ hs => hs))
      · exact builds_failFound
  · exact builds_failFound

/-! ## Statements -/

theorem balanced_assignment : Builds (L.Even total loose classes) (assignment inner) (fun _ => L.Even total loose classes) := by
  have hrest : ∀ node target : NodeId, Builds (L.Even total loose classes) (do
      let operator ← expect .assignment "':='"
      let message ← openNode (.message ":=" none) operator.location
      let value ← inner.parse .argument
      attach message value
      attach node target
      attach node message
      return node) (fun _ => L.Even total loose classes) := by
    intro node target
    refine (kept_expect (by decide)).bind (fun operator => builds_of_and (fun _ => ?_))
    refine (kept_openNode (p := .message ":=" none) L.assigns _).bind (fun message => ?_)
    refine Builds.bind (h.rule .argument loose classes) (fun value => ?_)
    refine Builds.bind (kept_attach message value) (fun _ => ?_)
    refine Builds.bind (kept_attach node target) (fun _ => ?_)
    exact Builds.bind (kept_attach node message) (fun _ => builds_pure (fun _ hs => hs))
  unfold assignment
  refine kept_location.bind (fun start => ?_)
  refine (kept_openNode (p := .assignment) trivial start).bind (fun node => ?_)
  refine (kept_probe (probes_lookAhead _)).bind (fun typed => ?_)
  dsimp only
  split
  · exact Builds.bind (h.rule .variableDefinition loose classes) (fun target => hrest node target)
  · exact Builds.bind (h.rule .inst loose classes) (fun target => hrest node target)

theorem balanced_namedStatement : Builds (L.Even total loose classes) (namedStatement inner) (fun _ => L.Even total loose classes) := by
  unfold namedStatement
  refine (kept_probe probes_looksLikeVariableDefinition).bind (fun defines => ?_)
  split
  · exact h.rule .variableDefinition loose classes
  refine (kept_probe (probes_lookAhead _)).bind (fun typed => ?_)
  split
  · exact h.rule .assignment loose classes
  refine (kept_probe probes_looksLikePlainAssignment).bind (fun assigns => ?_)
  split
  · exact h.rule .assignment loose classes
  · exact h.rule .expression loose classes

theorem balanced_closedStatement : Builds (L.Even total loose classes) (closedStatement inner) (fun _ => L.Even total loose classes) := by
  have hend : ∀ node : NodeId, Builds (L.Even total loose classes) (expect .endOfStatement "';'" >>= fun _ => pure node)
      (fun _ => L.Even total loose classes) :=
    fun node => (kept_expect (by decide)).bind (fun _ => builds_of_and (fun _ => builds_pure (fun _ hs => hs)))
  unfold closedStatement
  refine (kept_looks (looks_atKind _)).bind (fun named => ?_)
  dsimp only
  split
  · exact (balanced_namedStatement h).bind hend
  · exact Builds.bind (h.rule .expression loose classes) hend

theorem balanced_statement : Builds (L.Even total loose classes) (statement inner) (fun _ => L.Even total loose classes) := by
  unfold statement
  refine (kept_looks looks_look).bind (fun next => ?_)
  split
  · exact h.rule .classBlock loose classes
  · exact h.rule .recordBlock loose classes
  · exact balanced_closedStatement h

theorem balanced_statements : Builds (L.Even total loose classes) (statements inner) (fun _ => L.Even total loose classes) := by
  unfold statements
  refine kept_location.bind (fun start => ?_)
  refine (kept_openNode (p := .statementsBlock) trivial start).bind (fun block => ?_)
  refine (kept_repeat looks_inBlock (fun next _ => Builds.weaken ?_ (fun _ hs => hs.2))).bind (fun _ => builds_pure (fun _ hs => hs))
  exact Builds.bind (h.rule .statement loose classes) (fun statement => kept_attach block statement)

/-! ## Flags -/

omit h in
/-- While flags are read, they are due but not pending. -/
theorem balanced_flag {fs : List String} (names : List String) : Builds (L.Kept total (some fs) none loose classes) (flag names)
    (fun _ => L.Kept total (some fs) none loose classes) := by
  have hname : Builds (L.Kept total (some fs) none loose classes) flagName (fun _ => L.Kept total (some fs) none loose classes) := by
    unfold flagName
    refine kept_look_bind looks_look (fun next => ?_)
    split
    · rename_i hlook
      exact (kept_take (fun t ht => by simp [kind_of_look hlook t ht])).mono (fun _ _ ht => ht.2)
    · rename_i hlook
      exact (kept_take (fun t ht => by simp [kind_of_look hlook t ht])).mono (fun _ _ ht => ht.2)
    · exact builds_failFound
  unfold flag flagEnd
  refine hname.bind (fun name => kept_look_bind looks_look (fun next => ?_))
  split
  · rename_i hlook
    exact (kept_take (fun t ht => by simp [kind_of_look hlook t ht])).bind (fun _ => builds_pure (fun _ hs => hs.2))
  · exact builds_pure (fun _ hs => hs.2)
  · exact builds_failFound

omit h in
/-- Every round of the list takes a token, so the list ends at the bracket that closes it. -/
theorem balanced_flagList {fs : List String} : Builds (L.Kept total (some fs) none loose classes) flagList
    (fun _ => L.Kept total (some fs) none loose classes) := by
  have hloop : Builds (L.Kept total (some fs) none loose classes) (repeatWhile (not <$> atKind .rightBracket) flag [])
      (fun _ s => (∀ t ∈ s.significant.head?, t.kind = .rightBracket) ∧ L.Kept total (some fs) none loose classes s) := by
    intro s hs
    refine yields_repeatWhile (I := fun _ => L.Kept total (some fs) none loose classes) (fun u => u.significant.length)
      (fun u => length_significant_le _) (fun names u hu => ?_) [] hs
    rw [yields_of_eq_ok ((looks_atKind .rightBracket).map not u)]
    refine ⟨Nat.le_of_eq (congrArg List.length (ParserState.significant_settle u)), ?_⟩
    split
    · have hround := (balanced_flag names u.settle hu.settle).both (makes_flag u.settle (.refl _) hu.settle.unmarked rfl)
      refine hround.mono ?_ (fun _ _ _ => trivial)
      rintro _ t ⟨ht, -, -, items, hitems, hne, -⟩
      refine ⟨ht, ?_⟩
      rw [hitems, List.length_append]
      exact Nat.lt_add_of_pos_left (List.length_pos_iff.2 hne)
    · rename_i hclosed
      rw [ParserState.significant_settle]
      exact ⟨kind_of_atKind (by simpa using hclosed), hu.settle⟩
  unfold flagList
  refine kept_look_bind (looks_atKind _) (fun next => ?_)
  split
  · rename_i hopened
    refine (kept_take (fun t ht => by simp [kind_of_atKind hopened t ht])).bind (fun _ => builds_of_and (fun _ => ?_))
    refine hloop.bind (fun names s ⟨hclosing, hs⟩ => ?_)
    have hend : Builds (fun u => u.significant.head? = s.significant.head? ∧ L.Kept total (some fs) none loose classes u)
        (take >>= fun _ => pure names) (fun _ => L.Kept total (some fs) none loose classes) :=
      (kept_take (fun t ht => by simp [hclosing t ht])).bind (fun _ => builds_pure (fun _ ht => ht.2))
    exact hend s ⟨rfl, hs⟩
  · exact builds_pure (fun _ hs => hs.2)

omit h in
/-- The flags that wait are those that the tokens behind the at sign name. -/
theorem balanced_flags : Builds (L.Even total loose classes) flags (fun _ t => ∃ fs, L.Owing total fs loose classes t) := by
  have hsign : Builds (L.Even total loose classes) (expect .atSign "'@'")
      (fun _ u => L.Kept total (some (flagsBehind u.significant)) none loose classes u) := by
    intro s hs
    cases hexpect : expect .atSign "'@'" s with
    | error e u => exact (yields_of_eq_error hexpect).2 trivial
    | ok t u =>
      obtain ⟨v, hv, rfl⟩ := exists_of_expect hexpect
      exact (yields_of_eq_ok hexpect).2 (hs.taken_atSign hv (kind_of_expect hexpect))
  have hlist : Builds (fun u => L.Kept total (some (flagsBehind u.significant)) none loose classes u) flagList
      (fun fs => L.Kept total (some fs) none loose classes) := by
    intro u hu
    refine ((balanced_flagList u hu).both (makes_flagList u (.refl _) hu.unmarked rfl)).mono ?_ (fun _ _ _ => trivial)
    rintro fs t ⟨ht, -, -, hfs⟩
    have hbehind : fs = flagsBehind u.significant := by
      rcases hfs with ⟨rfl, hnone⟩ | hlisted
      · exact (flagsBehind_of_not_bracket hnone).symm
      · exact hlisted.eq_flagsBehind
    rwa [hbehind]
  unfold flags
  exact hsign.bind (fun _ => hlist.bind (fun fs s hs => ⟨fs, { hs with pending := rfl }⟩))

/-! ## Units -/

theorem balanced_blockBody : Builds (L.Even total loose classes) (blockBody inner owner) (fun _ => L.Even total loose classes) := by
  unfold blockBody
  refine (kept_looks (looks_atKeyword _)).bind (fun nested => ?_)
  split
  · refine (kept_repeat (looks_atKeyword _) (fun next _ => Builds.weaken ?_ (fun _ hs => hs.2))).bind (fun _ => ?_)
    · exact Builds.bind (h.rule .namespaceBlock loose classes) (fun block => kept_attach owner block)
    · refine (kept_looks looks_inBlock).bind (fun goesOn => ?_)
      split
      · exact builds_failFound
      · exact builds_pure (fun _ hs => hs)
  · exact Builds.bind (h.rule .statements loose classes) (fun statements => kept_attach owner statements)

/-- A body between its braces. -/
theorem balanced_bodyOf (node : NodeId) : Builds (L.Even total loose classes) (do
      let _ ← expect .leftBrace "'\x7b'"
      blockBody inner node
      let _ ← expect .rightBrace "'\x7d'"
      return node) (fun _ => L.Even total loose classes) := by
  refine (kept_expect (by decide)).bind (fun _ => builds_of_and (fun _ => ?_))
  refine (balanced_blockBody h).bind (fun _ => ?_)
  exact (kept_expect (by decide)).bind (fun _ => builds_of_and (fun _ => builds_pure (fun _ hs => hs)))

theorem balanced_namespaceBlock : Builds (L.Even total loose classes) (namespaceBlock inner) (fun _ => L.Even total loose classes) := by
  unfold namespaceBlock
  refine kept_location.bind (fun start => ?_)
  refine kept_expectKeyword.bind (fun _ => ?_)
  refine kept_identifier.bind (fun name => builds_of_and (fun hname => ?_))
  exact (kept_openNode (p := .namespaceBlock name) hname start).bind (fun node => balanced_bodyOf h node)

/-- A code fragment takes the flags before it. -/
theorem balanced_codeFragment : Builds (L.Even total loose classes) (codeFragment inner) (fun _ => L.Even total loose classes) := by
  have hblock : ∀ (start : Location) (flags : Option (List String)), Builds (L.Kept total flags flags loose classes) (do
      let fragment ← openNode .codeFragmentBlock start
      let _ ← expect .leftBrace "'\x7b'"
      blockBody inner fragment
      let _ ← expect .rightBrace "'\x7d'"
      return fragment) (fun _ => L.Even total loose classes) := by
    intro start flags
    refine Builds.bind (Q := fun _ => L.Even total loose classes) (fun s hs => ?_) (fun fragment => balanced_bodyOf h fragment)
    exact hs.openNode (p := .codeFragmentBlock) trivial (.inr (.inl rfl)) start
  unfold codeFragment
  refine kept_location.bind (fun start => ?_)
  refine (kept_looks (looks_atKind _)).bind (fun flagged => ?_)
  dsimp only
  split
  · exact Builds.bind (h.rule .flags loose classes) (fun _ s ⟨fs, hs⟩ => hblock start (some fs) s hs)
  · exact hblock start none

omit h in
theorem balanced_moduleVersion : Builds (L.Even total loose classes) moduleVersion
    (fun version t => (∀ v ∈ version, L.Name v) ∧ L.Even total loose classes t) := by
  have htake : ∀ {next : Option Token} {k : TokenKind} {o : Option Keyword}, k ≠ .atSign ∧ k ≠ .stringLiteral →
      (next.map Token.kind, next.bind Token.keyword?) = (some k, o) →
      Builds (fun s => s.significant.head? = next ∧ L.Even total loose classes s) (do return some (← take).text)
        (fun version t => (∀ v ∈ version, L.Name v) ∧ L.Even total loose classes t) := by
    intro next k o hk hlook
    refine (kept_take (fun t ht => by rwa [kind_of_look hlook t ht])).bind (fun t => builds_of_and (fun hname => ?_))
    exact builds_pure (fun _ hs => ⟨fun v hv => Option.some.inj hv ▸ hname, hs⟩)
  unfold moduleVersion
  refine kept_look_bind (looks_atKind _) (fun next => ?_)
  split
  · rename_i hcomma
    refine (kept_take (fun t ht => by simp [kind_of_atKind hcomma t ht])).bind (fun _ => builds_of_and (fun _ => ?_))
    refine kept_look_bind looks_look (fun next => ?_)
    split
    · rename_i hlook
      exact htake (by decide) hlook
    · rename_i hlook
      exact htake (by decide) hlook
    · rename_i hlook
      exact htake (by decide) hlook
    · exact builds_failFound
  · exact builds_pure (fun _ hs => ⟨fun _ hv => (nomatch hv), hs.2⟩)

theorem balanced_moduleBlock : Builds (L.Even total loose classes) (moduleBlock inner) (fun _ => L.Even total loose classes) := by
  unfold moduleBlock
  refine kept_location.bind (fun start => ?_)
  refine kept_expectKeyword.bind (fun _ => ?_)
  refine kept_identifier.bind (fun name => builds_of_and (fun hname => ?_))
  refine balanced_moduleVersion.bind (fun version => builds_of_and (fun hversion => ?_))
  refine (kept_openNode (p := .moduleBlock name version) ⟨hname, hversion⟩ start).bind (fun node => ?_)
  refine (kept_expect (by decide)).bind (fun _ => builds_of_and (fun _ => ?_))
  refine Builds.bind (h.rule .codeFragment loose classes) (fun fragment => ?_)
  refine Builds.bind (kept_attach node fragment) (fun _ => ?_)
  exact (kept_expect (by decide)).bind (fun _ => builds_of_and (fun _ => builds_pure (fun _ hs => hs)))

theorem balanced_unit : Builds (L.Even total loose classes) (unit inner) (fun _ => L.Even total loose classes) := by
  have hblock : Builds (L.Even total loose classes) (unitBlock inner) (fun _ => L.Even total loose classes) := by
    unfold unitBlock
    refine (kept_looks looks_look).bind (fun next => ?_)
    split
    · exact h.rule .codeFragment loose classes
    · exact h.rule .codeFragment loose classes
    · exact h.rule .moduleBlock loose classes
    · exact builds_fail
    · exact builds_fail
    · exact builds_fail
    · exact builds_failFound
  unfold Grammar.unit
  refine hblock.bind (fun root => ?_)
  refine (kept_looks looks_current?).bind (fun next => ?_)
  split
  · exact builds_failFound
  · exact builds_pure (fun _ hs => hs)

end

end Parser

/-! ## Whole parses -/

namespace Ledger

open Courier.Parser

variable {β : Type} {L : Ledger β} {total : List β} {owed pending : Option (List String)} {loose classes : List NodeId}

theorem Kept.enter {s : ParserState} (h : L.Kept total owed pending loose classes s) (construct : Construct) :
    L.Kept total owed pending loose classes (s.enter construct) :=
  ⟨h.unmarked, h.pending, h.balance, h.clean, h.named, h.placed, h.classes⟩

theorem Kept.leave {s : ParserState} (h : L.Kept total owed pending loose classes s) (before : Checkpoint) :
    L.Kept total owed pending loose classes (s.leave before) :=
  ⟨h.unmarked, h.pending, h.balance, h.clean, h.named, h.placed, h.classes⟩

theorem balanced_leave {α : Type} {rule : Rule α} {a : α} {s : ParserState} (h : rule.Balanced L total loose classes a s)
    (before : Checkpoint) : rule.Balanced L total loose classes a (s.leave before) := by
  cases rule with
  | flags =>
    obtain ⟨fs, hs⟩ := h
    exact ⟨fs, hs.leave before⟩
  | typeDeclaration => exact ⟨h.1, h.2.leave before⟩
  | _ => exact Kept.leave h before

theorem balanced_parse (L : Ledger β) (total : List β) (room : Nat) : Inner.Balances ⟨fun rule => Rule.parse room rule⟩ L total := by
  induction room with
  | zero => exact ⟨fun _ _ _ => builds_fail, fun _ _ _ => builds_fail⟩
  | succ room ih =>
    constructor
    · intro α rule loose classes
      refine Builds.guarded (m := rule.body _) ?_ (fun _ hs => hs.enter _) (fun _ _ before ht => balanced_leave ht before)
      cases rule with
      | unit => exact balanced_unit ih
      | codeFragment => exact balanced_codeFragment ih
      | flags => exact balanced_flags
      | moduleBlock => exact balanced_moduleBlock ih
      | namespaceBlock => exact balanced_namespaceBlock ih
      | statements => exact balanced_statements ih
      | statement => exact balanced_statement ih
      | classBlock => exact balanced_classBlock ih
      | scopeBlock => exact balanced_scopeBlock ih
      | recordBlock => exact balanced_recordBlock ih
      | messageBlock => exact balanced_messageBlock ih
      | messageDeclaration => exact balanced_messageDeclaration ih
      | param => exact balanced_param ih
      | returnType => exact balanced_returnType ih
      | typeDeclaration => exact balanced_typeDeclaration
      | variableDefinition => exact balanced_variableDefinition ih
      | assignment => exact balanced_assignment ih
      | expression => exact balanced_expression ih
      | returnExpression => exact balanced_returnExpression ih
      | groupedExpression => exact balanced_groupedExpression ih
      | sendMessage receiver => exact balanced_sendMessage ih receiver
      | message => exact balanced_message ih
      | argument => exact balanced_argument ih
      | literal => exact balanced_literal
      | arrayLiteral => exact balanced_arrayLiteral ih
      | inst => exact balanced_inst
    · intro fs loose classes
      exact Builds.guarded (balanced_messageBlock_flagged ih fs) (fun _ hs => hs.enter _) (fun _ _ before ht => ht.leave before)

/-- At the beginning all tokens are ahead and there is no node. -/
theorem even_initial {s : Stream} (hclean : ∀ t ∈ s.tokens, t.Clean L.Name) (trace : Bool) :
    L.Even (L.tokens s.tokens) [] [] (.initial s trace) :=
  ⟨rfl, rfl, rfl, hclean, fun _ hfs => (nomatch hfs), fun _ _ _ hi => (nomatch hi), fun _ hc => (nomatch hc)⟩

/-- The nodes of a unit that was parsed count for what the tokens do, and the flags are in place. -/
theorem nodes_of_unit {s : Stream} {trace : Bool} {root : NodeId} {t : ParserState} (hclean : ∀ t ∈ s.tokens, t.Clean L.Name)
    (ht : Rule.unit.parse maxNesting (.initial s trace) = .ok root t) :
    L.nodes (t.finish root) = L.tokens s.tokens ∧ (t.finish root).Placed [] := by
  have hunit := (balanced_parse L (L.tokens s.tokens) maxNesting).rule .unit [] []
  have heven := (hunit (.initial s trace) (even_initial hclean trace)).ok ht
  obtain ⟨u, hbody, hu⟩ := exists_of_guarded ht
  have hahead : u.stream.ahead = [] := Stream.ahead_of_unit hbody
  have hbalance := heven.balance
  rw [show t.stream.ahead = [] by rw [hu]; exact hahead, tokens, due, List.append_nil, List.append_nil] at hbalance
  exact ⟨(nodes_eq (t.stock_finish root)).trans hbalance, heven.placed.later (t.keeps_finish root).extends (t.stock_finish root)⟩

end Ledger

end Courier
