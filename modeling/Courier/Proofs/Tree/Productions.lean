import Courier.Proofs.Tree.Growth

/-!
# What the productions grow

A rule that yields a node makes it and links every other node it makes, once; the rules of flags and types make none
(`Rule.makes`). The one rule that is handed a node, the receiver of a message, links that too (`Rule.uses`). Each production does
so if the productions inside it do (`Inner.Grows`).
-/

namespace Courier

/-- The nodes that a rule is handed to link them. -/
def Rule.uses {α : Type} : Rule α → List NodeId
  | .sendMessage receiver => [receiver]
  | _ => []

/-- The nodes that a rule leaves for the production around it to link. -/
def Rule.makes : {α : Type} → Rule α → α → List NodeId
  | _, .flags, _ | _, .typeDeclaration, _ => []
  | _, .unit, node | _, .codeFragment, node | _, .moduleBlock, node | _, .namespaceBlock, node | _, .statements, node
  | _, .statement, node | _, .classBlock, node | _, .scopeBlock, node | _, .recordBlock, node | _, .messageBlock, node
  | _, .messageDeclaration, node | _, .param, node | _, .returnType, node | _, .variableDefinition, node
  | _, .assignment, node | _, .expression, node | _, .returnExpression, node | _, .groupedExpression, node
  | _, .sendMessage _, node | _, .message, node | _, .argument, node | _, .literal, node | _, .arrayLiteral, node
  | _, .inst, node => [node]

/-- The parsers inside a production leave no node behind but those their rules make. -/
def Inner.Grows (inner : Inner) : Prop :=
  ∀ {α : Type} (rule : Rule α) (held made : List NodeId),
    Parser.Grows held (rule.uses ++ made) (inner.parse rule) (fun a => Parser.Holds held (rule.makes a ++ made))

namespace Parser

open Courier.Grammar

section

variable {held made : List NodeId} {owner : NodeId}

/-! ## Names, types and literals -/

theorem grows_dottedRest (what name : String) : Grows held made (dottedRest what name) (fun _ => Holds held made) := by
  unfold dottedRest
  refine grows_repeatWhile (grows_looks (looks_atKind _)) (fun name => ?_) name
  refine grows_take.bind (fun _ => ?_)
  exact grows_identifier.bind (fun _ => grows_pure)

theorem grows_typeDeclaration : Grows held made typeDeclaration (fun _ => Holds held made) := by
  unfold typeDeclaration
  exact grows_identifier.bind (fun name => grows_dottedRest _ name)

theorem grows_instanceHead : Grows held made instanceHead (fun _ => Holds held made) := by
  unfold instanceHead
  refine (grows_looks looks_look).bind (fun next => ?_)
  split
  · exact grows_take.bind (fun _ => grows_pure)
  · exact grows_take.bind (fun _ => grows_pure)
  · exact grows_take.bind (fun _ => grows_pure)
  · exact grows_failFound

theorem grows_inst : Grows held made Grammar.inst (fun node => Holds held (node :: made)) := by
  unfold Grammar.inst
  refine grows_location.bind (fun start => ?_)
  refine grows_instanceHead.bind (fun first => ?_)
  refine (grows_dottedRest _ first).bind (fun name => ?_)
  exact grows_openNode rfl rfl

/-- A literal is no block and no message. -/
theorem plain_of_literalPayload? {t : Token} {payload : Payload} (h : literalPayload? t = some payload) :
    payload.kind.isContainer = false ∧ payload.returnValue = none := by
  unfold literalPayload? at h
  split at h
  case h_7 =>
    split at h
    · obtain rfl := Option.some.inj h
      exact ⟨rfl, rfl⟩
    · nomatch h
  case h_8 => nomatch h
  all_goals
    obtain rfl := Option.some.inj h
    exact ⟨rfl, rfl⟩

theorem grows_literal : Grows held made Grammar.literal (fun node => Holds held (node :: made)) := by
  unfold Grammar.literal
  refine grows_take.bind (fun t => ?_)
  split
  · rename_i payload hpayload
    obtain ⟨hkind, hvalue⟩ := plain_of_literalPayload? hpayload
    exact grows_openNode hkind hvalue
  · exact grows_failAt

/-! ## Arrays -/

variable {inner : Inner} (h : inner.Grows)

include h

theorem grows_element : Grows held made (element inner) (fun node => Holds held (node :: made)) := by
  unfold element
  refine (grows_looks looks_look).bind (fun next => ?_)
  split
  · exact h .inst held made
  · exact h .literal held made
  · split
    · exact h .literal held made
    · exact grows_failFound
  · exact grows_failFound

theorem grows_elements (hp : owner ∈ held ++ made) : Grows held made (elements inner owner) (fun _ => Holds held made) := by
  unfold elements
  refine (grows_element h).bind (fun first => (grows_attach hp).bind (fun _ => ?_))
  refine grows_repeatWhile (grows_looks (looks_atKind _)) (fun _ => ?_) ()
  exact grows_take.bind (fun _ => (grows_element h).attach hp)

theorem grows_arrayLiteral : Grows held made (Grammar.arrayLiteral inner) (fun node => Grown held (node :: made)) := by
  have hclose : ∀ (start : Location) (array : NodeId), Grows held (array :: made) (do
      if ← atKind .rightBracket then
        let _ ← take
        return array
      else failAt start .unterminatedArray) (fun node => Grown held (node :: made)) := by
    intro start array
    refine (grows_looks (looks_atKind _)).bind (fun closed => ?_)
    split
    · exact grows_take.bind (fun _ => grows_yield.grown)
    · exact grows_failAt
  unfold Grammar.arrayLiteral
  refine grows_location.bind (fun start => ?_)
  refine grows_expect.bind (fun _ => ?_)
  refine (grows_openNode rfl rfl).bind (fun array => ?_)
  refine (grows_looks (looks_atKind _)).bind (fun empty => ?_)
  dsimp only
  split
  · exact (grows_elements h (by simp)).bind (fun _ => hclose start array)
  · exact hclose start array

/-! ## Declarations -/

theorem grows_nameWithType (what : String) :
    Grows held made (nameWithType inner what) (fun _ => Holds held made) := by
  unfold nameWithType
  refine grows_identifier.bind (fun name => ?_)
  refine grows_expect.bind (fun _ => ?_)
  exact (h .typeDeclaration held made).bind (fun typeName => grows_pure)

theorem grows_typedNode {payload : String → String → Payload} (what : String)
    (hkind : ∀ name typeName, (payload name typeName).kind.isContainer = false)
    (hvalue : ∀ name typeName, (payload name typeName).returnValue = none) :
    Grows held made (typedNode inner what payload) (fun node => Grown held (node :: made)) := by
  unfold typedNode
  refine grows_location.bind (fun start => ?_)
  refine (grows_nameWithType h what).bind (fun named => ?_)
  exact (grows_openNode (hkind _ _) (hvalue _ _)).grown

theorem grows_variableDefinition :
    Grows held made (variableDefinition inner) (fun node => Grown held (node :: made)) :=
  grows_typedNode h _ (fun _ _ => rfl) (fun _ _ => rfl)

theorem grows_param : Grows held made (param inner) (fun node => Grown held (node :: made)) :=
  grows_typedNode h _ (fun _ _ => rfl) (fun _ _ => rfl)

theorem grows_superclass : Grows held made (superclass inner) (fun _ => Holds held made) := by
  unfold superclass
  refine (grows_looks (looks_atKeyword _)).bind (fun inherits => ?_)
  split
  · refine grows_take.bind (fun _ => ?_)
    exact (h .typeDeclaration held made).bind (fun typeName => grows_pure)
  · exact grows_pure

theorem grows_memberVariables (hp : owner ∈ held ++ made) :
    Grows held made (memberVariables inner owner) (fun _ => Holds held made) := by
  unfold memberVariables
  refine grows_repeatWhile (grows_looks looks_inBlock) (fun _ => ?_) ()
  refine (h .variableDefinition held made).bind (fun member => ?_)
  exact grows_expect.bind (fun _ => grows_attach hp)

omit h in
theorem grows_visibility : Grows held made visibility (fun _ => Holds held made) := by
  unfold visibility
  refine (grows_looks looks_look).bind (fun next => ?_)
  split
  · exact grows_pure
  · exact grows_pure
  · exact grows_failFound

theorem grows_scopeBlock : Grows held made (scopeBlock inner) (fun node => Grown held (node :: made)) := by
  unfold scopeBlock
  refine grows_location.bind (fun start => ?_)
  refine grows_visibility.bind (fun seen => ?_)
  refine grows_take.bind (fun _ => ?_)
  refine (grows_openBlock rfl).bind (fun scope => ?_)
  refine grows_expect.bind (fun _ => ?_)
  refine (grows_memberVariables h (by simp)).bind (fun _ => ?_)
  exact grows_expect.bind (fun _ => grows_release)

theorem grows_recordBlock : Grows held made (recordBlock inner) (fun node => Grown held (node :: made)) := by
  unfold recordBlock
  refine grows_location.bind (fun start => ?_)
  refine grows_expectKeyword.bind (fun _ => ?_)
  refine grows_identifier.bind (fun name => ?_)
  refine (grows_superclass h).bind (fun parent => ?_)
  refine (grows_openBlock rfl).bind (fun record => ?_)
  refine grows_expect.bind (fun _ => ?_)
  refine (grows_memberVariables h (by simp)).bind (fun _ => ?_)
  exact grows_expect.bind (fun _ => grows_release)

theorem grows_classMember : Grows held made (classMember inner) (fun node => Holds held (node :: made)) := by
  unfold classMember
  refine (grows_looks looks_look).bind (fun next => ?_)
  split
  · exact h .scopeBlock held made
  · exact h .scopeBlock held made
  · exact (h .flags held made).bind (fun _ => h .messageBlock held made)
  · exact h .messageBlock held made
  · exact grows_failFound

theorem grows_classBlock : Grows held made (classBlock inner) (fun node => Grown held (node :: made)) := by
  unfold classBlock
  refine grows_location.bind (fun start => ?_)
  refine grows_expectKeyword.bind (fun _ => ?_)
  refine grows_identifier.bind (fun name => ?_)
  refine (grows_superclass h).bind (fun parent => ?_)
  refine (grows_openBlock rfl).bind (fun node => ?_)
  refine grows_expect.bind (fun _ => ?_)
  refine (grows_repeatWhile (grows_looks looks_inBlock) (fun _ => ?_) ()).bind (fun _ => ?_)
  · exact (grows_classMember h).attach (by simp)
  · exact grows_expect.bind (fun _ => grows_release)

theorem grows_messageBlock : Grows held made (messageBlock inner) (fun node => Grown held (node :: made)) := by
  unfold messageBlock
  refine grows_location.bind (fun start => ?_)
  refine (grows_openBlock rfl).bind (fun block => ?_)
  refine (h .messageDeclaration (block :: held) made).bind (fun declaration => ?_)
  refine (grows_attach (by simp)).bind (fun _ => ?_)
  refine grows_expect.bind (fun _ => ?_)
  refine (h .statements (block :: held) made).bind (fun statements => ?_)
  refine (grows_attach (by simp)).bind (fun _ => ?_)
  exact grows_expect.bind (fun _ => grows_release)

theorem grows_params (hp : owner ∈ held ++ made) : Grows held made (params inner owner) (fun _ => Holds held made) := by
  unfold params
  refine (h .param held made).bind (fun first => (grows_attach hp).bind (fun _ => ?_))
  refine grows_repeatWhile (grows_looks (looks_atKind _)) (fun _ => ?_) ()
  exact grows_take.bind (fun _ => (h .param held made).attach hp)

theorem grows_paramList (hp : owner ∈ held ++ made) :
    Grows held made (paramList inner owner) (fun _ => Holds held made) := by
  have hclose : Grows held made (do
      let _ ← expect .rightParen "')' after parameters"
      return ()) (fun _ => Holds held made) := grows_expect.bind (fun _ => grows_pure)
  unfold paramList
  refine (grows_looks looks_look).bind (fun next => ?_)
  split
  · exact grows_take.bind (fun _ => grows_params h hp)
  · refine grows_take.bind (fun _ => ?_)
    refine (grows_looks (looks_atKind _)).bind (fun empty => ?_)
    dsimp only
    split
    · exact (grows_params h hp).bind (fun _ => hclose)
    · exact hclose
  · exact grows_pure

theorem grows_messageDeclaration :
    Grows held made (messageDeclaration inner) (fun node => Grown held (node :: made)) := by
  have hrest : ∀ (start : Location) (name : Option String), Grows held made (do
      let declaration ← openNode (.messageDeclaration name) start
      paramList inner declaration
      if ← atKind .leftBracket then attach declaration (← inner.parse .returnType)
      return declaration) (fun node => Grown held (node :: made)) := by
    intro start name
    refine (grows_openNode rfl rfl).bind (fun declaration => ?_)
    refine (grows_paramList h (by simp)).bind (fun _ => ?_)
    refine (grows_looks (looks_atKind _)).bind (fun returns => ?_)
    dsimp only
    split
    · refine (h .returnType held (declaration :: made)).bind (fun returnType => ?_)
      exact (grows_attach (by simp)).bind (fun _ => grows_yield.grown)
    · exact grows_yield.grown
  unfold messageDeclaration
  refine grows_location.bind (fun start => ?_)
  refine grows_expectKeyword.bind (fun _ => ?_)
  refine (grows_looks (looks_atKind _)).bind (fun named => ?_)
  dsimp only
  split
  · exact (grows_identifier.map).bind (fun name => hrest start name)
  · exact grows_pure.bind (fun name => hrest start name)

omit h in
theorem grows_separated {α : Type} {item : Parser α} (hitem : Grows held made item (fun _ => Holds held made)) :
    Grows held made (separated item) (fun _ => Holds held made) := by
  unfold separated
  refine hitem.bind (fun first => ?_)
  refine grows_repeatWhile (grows_looks (looks_atKind _)) (fun items => ?_) [first]
  exact grows_take.bind (fun _ => hitem.bind (fun next => grows_pure))

theorem grows_returnType : Grows held made (returnType inner) (fun node => Grown held (node :: made)) := by
  have hclose : ∀ (start : Location) (payload : Payload), payload.kind.isContainer = false → payload.returnValue = none →
      Grows held made (do
        if ← atKind .rightBracket then
          let _ ← take
          openNode payload start
        else failFound .unclosedReturnType) (fun node => Grown held (node :: made)) := by
    intro start payload hkind hvalue
    refine (grows_looks (looks_atKind _)).bind (fun closed => ?_)
    split
    · exact grows_take.bind (fun _ => (grows_openNode hkind hvalue).grown)
    · exact grows_failFound
  unfold returnType
  refine grows_location.bind (fun start => ?_)
  refine grows_expect.bind (fun _ => ?_)
  unfold returnPayload
  rw [bind_assoc]
  refine grows_speculate.bind (fun named => ?_)
  split
  · rw [bind_map_left]
    exact (grows_separated (grows_nameWithType h _)).bind (fun fields => hclose start (.namedTuple fields) rfl rfl)
  · rw [bind_map_left]
    exact (grows_separated (h .typeDeclaration held made)).bind (fun types => hclose start (.tuple types) rfl rfl)

/-! ## Expressions -/

theorem grows_primary : Grows held made (primary inner) (fun node => Holds held (node :: made)) := by
  unfold primary
  refine (grows_looks looks_look).bind (fun next => ?_)
  split
  · exact h .groupedExpression held made
  · exact h .arrayLiteral held made
  · exact h .inst held made
  · exact h .literal held made
  · exact h .messageBlock held made
  · exact h .inst held made
  · exact h .inst held made
  · split
    · exact h .literal held made
    · exact grows_failFound
  · exact grows_failFound

/-- The value of an expression is yielded, or it is handed to the message that is sent to it. -/
theorem grows_expression : Grows held made (expression inner) (fun node => Holds held (node :: made)) := by
  unfold expression
  refine (grows_looks (looks_atKeyword _)).bind (fun returns => ?_)
  split
  · exact h .returnExpression held made
  · refine (grows_primary h).bind (fun value => ?_)
    refine (grows_looks looks_startsMessage).bind (fun sends => ?_)
    split
    · exact h (.sendMessage value) held made
    · exact grows_yield

theorem grows_argument : Grows held made (argument inner) (fun node => Holds held (node :: made)) := by
  unfold argument
  refine (grows_looks (looks_atKeyword _)).bind (fun returns => ?_)
  split
  · exact grows_fail
  · exact h .expression held made

theorem grows_returned : Grows held made (returned inner) (fun node => Holds held (node :: made)) := by
  unfold returned
  refine (grows_looks (looks_atKind _)).bind (fun bare => ?_)
  split
  · exact grows_location.bind (fun l => grows_openNode rfl rfl)
  · exact h .argument held made

theorem grows_returnExpression :
    Grows held made (returnExpression inner) (fun node => Grown held (node :: made)) := by
  unfold returnExpression
  refine grows_location.bind (fun start => ?_)
  refine grows_expectKeyword.bind (fun _ => ?_)
  refine (grows_openNode rfl rfl).bind (fun node => ?_)
  refine (grows_returned h).bind (fun value => ?_)
  exact (grows_attach (by simp)).bind (fun _ => grows_yield.grown)

theorem grows_groupedExpression :
    Grows held made (groupedExpression inner) (fun node => Grown held (node :: made)) := by
  unfold groupedExpression
  refine grows_location.bind (fun start => ?_)
  refine grows_expect.bind (fun _ => ?_)
  refine (grows_openNode rfl rfl).bind (fun group => ?_)
  refine (h .expression held (group :: made)).bind (fun value => ?_)
  refine (grows_attach (by simp)).bind (fun _ => ?_)
  exact grows_expect.bind (fun _ => grows_yield.grown)

/-- The receiver was made before the send and waits below it until the message is there. -/
theorem grows_sendMessage (receiver : NodeId) :
    Grows held (receiver :: made) (sendMessage inner receiver) (fun node => Grown held (node :: made)) := by
  unfold sendMessage
  refine (grows_nodeLocation receiver).bind (fun l => ?_)
  refine (grows_openNode rfl rfl).bind (fun send => ?_)
  refine (h .message held (send :: receiver :: made)).bind (fun message => ?_)
  have horder : ([message, send] ++ receiver :: made).Perm (receiver :: ([message, send] ++ made)) := List.perm_middle
  refine Grows.perm ?_ horder
  refine (grows_attach (by simp)).bind (fun _ => ?_)
  exact (grows_attach (by simp)).bind (fun _ => grows_yield.grown)

theorem grows_message : Grows held made (message inner) (fun node => Grown held (node :: made)) := by
  unfold message
  refine grows_location.bind (fun start => ?_)
  refine (grows_looks looks_look).bind (fun next => ?_)
  split
  · split
    · refine grows_identifier.bind (fun name => ?_)
      refine (grows_openNode rfl rfl).bind (fun node => ?_)
      refine (grows_repeatWhile (grows_looks (looks_atKind _)) (fun _ => ?_) ()).bind (fun _ => grows_yield.grown)
      exact grows_take.bind (fun _ => (h .argument held (node :: made)).attach (by simp))
    · split
      · refine grows_take.bind (fun operator => ?_)
        refine (grows_openNode rfl rfl).bind (fun node => ?_)
        refine (h .argument held (node :: made)).bind (fun value => ?_)
        exact (grows_attach (by simp)).bind (fun _ => grows_yield.grown)
      · exact grows_failFound
  · exact grows_failFound

/-! ## Statements -/

omit h in
theorem grows_atTypedName : Grows held made atTypedName (fun _ => Holds held made) := by
  unfold atTypedName
  exact grows_speculate

/-- The target is made before the message that holds the value, and is linked before it. -/
theorem grows_assignment : Grows held made (assignment inner) (fun node => Grown held (node :: made)) := by
  have hrest : ∀ node target : NodeId, Grows held (target :: node :: made) (do
      let operator ← expect .assignment "':='"
      let message ← openNode (.message ":=" none) operator.location
      let value ← inner.parse .argument
      attach message value
      attach node target
      attach node message
      return node) (fun node => Grown held (node :: made)) := by
    intro node target
    refine grows_expect.bind (fun operator => ?_)
    refine (grows_openNode rfl rfl).bind (fun message => ?_)
    refine (h .argument held (message :: target :: node :: made)).bind (fun value => ?_)
    refine (grows_attach (by simp)).bind (fun _ => ?_)
    refine Grows.perm ?_ (List.Perm.swap target message (node :: made))
    refine (grows_attach (by simp)).bind (fun _ => ?_)
    exact (grows_attach (by simp)).bind (fun _ => grows_yield.grown)
  unfold assignment
  refine grows_location.bind (fun start => ?_)
  refine (grows_openNode rfl rfl).bind (fun node => ?_)
  refine grows_atTypedName.bind (fun typed => ?_)
  dsimp only
  split
  · exact (h .variableDefinition held (node :: made)).bind (fun target => hrest node target)
  · exact (h .inst held (node :: made)).bind (fun target => hrest node target)

theorem grows_namedStatement : Grows held made (namedStatement inner) (fun node => Holds held (node :: made)) := by
  unfold namedStatement
  refine grows_speculate.bind (fun defines => ?_)
  split
  · exact h .variableDefinition held made
  refine grows_atTypedName.bind (fun typed => ?_)
  split
  · exact h .assignment held made
  refine grows_speculate.bind (fun assigns => ?_)
  split
  · exact h .assignment held made
  · exact h .expression held made

theorem grows_closedStatement : Grows held made (closedStatement inner) (fun node => Holds held (node :: made)) := by
  have hend : ∀ node : NodeId, Grows held (node :: made) (expect .endOfStatement "';'" >>= fun _ => pure node)
      (fun node => Holds held (node :: made)) :=
    fun node => grows_expect.bind (fun _ => grows_yield)
  unfold closedStatement
  refine (grows_looks (looks_atKind _)).bind (fun named => ?_)
  dsimp only
  split
  · exact (grows_namedStatement h).bind hend
  · exact (h .expression held made).bind hend

theorem grows_statement : Grows held made (statement inner) (fun node => Holds held (node :: made)) := by
  unfold statement
  refine (grows_looks looks_look).bind (fun next => ?_)
  split
  · exact h .classBlock held made
  · exact h .recordBlock held made
  · exact grows_closedStatement h

theorem grows_statements : Grows held made (statements inner) (fun node => Grown held (node :: made)) := by
  unfold statements
  refine grows_location.bind (fun start => ?_)
  refine (grows_openBlock rfl).bind (fun block => ?_)
  refine (grows_repeatWhile (grows_looks looks_inBlock) (fun _ => ?_) ()).bind (fun _ => grows_release)
  exact (h .statement (block :: held) made).attach (by simp)

/-! ## Units -/

omit h in
theorem grows_flag (flags : List String) : Grows held made (flag flags) (fun _ => Holds held made) := by
  have hname : Grows held made flagName (fun _ => Holds held made) := by
    unfold flagName
    refine (grows_looks looks_look).bind (fun next => ?_)
    split
    · exact grows_take
    · exact grows_take
    · exact grows_failFound
  unfold flag
  refine hname.bind (fun name => ?_)
  unfold flagEnd
  refine (grows_looks looks_look).bind (fun next => ?_)
  split
  · exact grows_take.bind (fun _ => grows_pure)
  · exact grows_pure
  · exact grows_failFound

omit h in
theorem grows_flags : Grows held made flags (fun _ => Holds held made) := by
  have hlist : Grows held made flagList (fun _ => Holds held made) := by
    unfold flagList
    refine (grows_looks (looks_atKind _)).bind (fun opened => ?_)
    split
    · refine grows_take.bind (fun _ => ?_)
      refine (grows_repeatWhile (grows_looks ((looks_atKind _).map not)) (fun fs => grows_flag fs) []).bind (fun fs => ?_)
      exact grows_take.bind (fun _ => grows_pure)
    · exact grows_pure
  unfold flags
  refine grows_expect.bind (fun _ => ?_)
  exact hlist.bind (fun fs => grows_keepFlags fs)

theorem grows_blockBody (hp : owner ∈ held ++ made) :
    Grows held made (blockBody inner owner) (fun _ => Holds held made) := by
  unfold blockBody
  refine (grows_looks (looks_atKeyword _)).bind (fun nested => ?_)
  split
  · refine (grows_repeatWhile (grows_looks (looks_atKeyword _)) (fun _ => ?_) ()).bind (fun _ => ?_)
    · exact (h .namespaceBlock held made).attach hp
    · refine (grows_looks looks_inBlock).bind (fun goesOn => ?_)
      split
      · exact grows_failFound
      · exact grows_pure
  · exact (h .statements held made).attach hp

theorem grows_namespaceBlock : Grows held made (namespaceBlock inner) (fun node => Grown held (node :: made)) := by
  unfold namespaceBlock
  refine grows_location.bind (fun start => ?_)
  refine grows_expectKeyword.bind (fun _ => ?_)
  refine grows_identifier.bind (fun name => ?_)
  refine (grows_openBlock rfl).bind (fun node => ?_)
  refine grows_expect.bind (fun _ => ?_)
  refine (grows_blockBody h (by simp)).bind (fun _ => ?_)
  exact grows_expect.bind (fun _ => grows_release)

theorem grows_codeFragment : Grows held made (codeFragment inner) (fun node => Grown held (node :: made)) := by
  have hblock : ∀ start : Location, Grows held made (do
      let fragment ← openNode .codeFragmentBlock start
      let _ ← expect .leftBrace "'\x7b'"
      blockBody inner fragment
      let _ ← expect .rightBrace "'\x7d'"
      return fragment) (fun node => Grown held (node :: made)) := by
    intro start
    refine (grows_openBlock rfl).bind (fun fragment => ?_)
    refine grows_expect.bind (fun _ => ?_)
    refine (grows_blockBody h (by simp)).bind (fun _ => ?_)
    exact grows_expect.bind (fun _ => grows_release)
  unfold codeFragment
  refine grows_location.bind (fun start => ?_)
  refine (grows_looks (looks_atKind _)).bind (fun flagged => ?_)
  dsimp only
  split
  · exact (h .flags held made).bind (fun _ => hblock start)
  · exact hblock start

omit h in
theorem grows_moduleVersion : Grows held made moduleVersion (fun _ => Holds held made) := by
  unfold moduleVersion
  refine (grows_looks (looks_atKind _)).bind (fun versioned => ?_)
  split
  · refine grows_take.bind (fun _ => ?_)
    refine (grows_looks looks_look).bind (fun next => ?_)
    split
    · exact grows_take.bind (fun _ => grows_pure)
    · exact grows_take.bind (fun _ => grows_pure)
    · exact grows_take.bind (fun _ => grows_pure)
    · exact grows_failFound
  · exact grows_pure

theorem grows_moduleBlock : Grows held made (moduleBlock inner) (fun node => Grown held (node :: made)) := by
  unfold moduleBlock
  refine grows_location.bind (fun start => ?_)
  refine grows_expectKeyword.bind (fun _ => ?_)
  refine grows_identifier.bind (fun name => ?_)
  refine grows_moduleVersion.bind (fun version => ?_)
  refine (grows_openBlock rfl).bind (fun node => ?_)
  refine grows_expect.bind (fun _ => ?_)
  refine (h .codeFragment (node :: held) made).bind (fun fragment => ?_)
  refine (grows_attach (by simp)).bind (fun _ => ?_)
  exact grows_expect.bind (fun _ => grows_release)

theorem grows_unit : Grows held made (unit inner) (fun node => Holds held (node :: made)) := by
  have hblock : Grows held made (unitBlock inner) (fun node => Holds held (node :: made)) := by
    unfold unitBlock
    refine (grows_looks looks_look).bind (fun next => ?_)
    split
    · exact h .codeFragment held made
    · exact h .codeFragment held made
    · exact h .moduleBlock held made
    · exact grows_fail
    · exact grows_fail
    · exact grows_fail
    · exact grows_failFound
  unfold Grammar.unit
  refine hblock.bind (fun root => ?_)
  refine (grows_looks looks_current?).bind (fun next => ?_)
  split
  · exact grows_failFound
  · exact grows_yield

end

end Parser

end Courier
