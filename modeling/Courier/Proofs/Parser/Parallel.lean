import Courier.Proofs.Parser.Coupling
import Courier.Proofs.Tree.Productions

/-!
# Productions in coupled runs

Every production runs in parallel with itself: if the operations keep a correspondence, so does each production whose inner
productions do (`Inner.Coupled`), and so does the whole grammar (`coupled_parse`). Nothing here looks at what corresponds. The order
follows the grammar; what a production is handed, a node or a place, may differ in the two runs as long as both correspond.
-/

namespace Courier

open Courier.Parser in
/-- What corresponds in the values that two runs of a rule yield: the nodes, or the names, which are the same. -/
@[simp] def Rule.bonds : {α : Type} → Rule α → α → α → List Bond
  | _, .flags, _, _ => []
  | _, .typeDeclaration, a, b => [.plain (a = b)]
  | _, .unit, i, j | _, .codeFragment, i, j | _, .moduleBlock, i, j | _, .namespaceBlock, i, j | _, .statements, i, j
  | _, .statement, i, j | _, .classBlock, i, j | _, .scopeBlock, i, j | _, .recordBlock, i, j | _, .messageBlock, i, j
  | _, .messageDeclaration, i, j | _, .param, i, j | _, .returnType, i, j | _, .variableDefinition, i, j
  | _, .assignment, i, j | _, .expression, i, j | _, .returnExpression, i, j | _, .groupedExpression, i, j
  | _, .sendMessage _, i, j | _, .message, i, j | _, .argument, i, j | _, .literal, i, j | _, .arrayLiteral, i, j
  | _, .inst, i, j => [.node i j]

/-- The rules that two runs share, and what they take. A block of statements may be empty; every other rule takes a token. A message
that is sent is no such rule: the runs send it to nodes of their own. -/
def Rule.Shared (moves : Bool) : {α : Type} → Rule α → Prop
  | _, .sendMessage _ => False
  | _, .statements => moves = false
  | _, _ => True

open Courier.Parser in
/-- The productions inside a production run in parallel. -/
structure Inner.Coupled (C : Coupling) (inner : Inner) : Prop where
  rule {α : Type} {moves : Bool} {Γ : List Bond} (r : Rule α) (hr : Rule.Shared moves r) :
    C.Parallel moves Γ (inner.parse r) (inner.parse r) (Rule.bonds r)
  send {moves : Bool} {Γ : List Bond} {i j : NodeId} (h : .node i j ∈ Γ) :
    C.Parallel moves Γ (inner.parse (.sendMessage i)) (inner.parse (.sendMessage j)) (fun i j => [.node i j])

namespace Parser

open Courier.Grammar

/-- A code fragment behind its flags, which starts at a place. -/
def fragmentBlock (inner : Inner) (start : Location) : Parser NodeId := do
  let fragment ← openNode .codeFragmentBlock start
  let _ ← expect .leftBrace "'\x7b'"
  blockBody inner fragment
  let _ ← expect .rightBrace "'\x7d'"
  return fragment

theorem codeFragment_eq (inner : Inner) : codeFragment inner = (do
    let start ← location
    let flagged ← atKind .atSign
    if flagged then
      inner.parse .flags
      fragmentBlock inner start
    else fragmentBlock inner start) := rfl

variable {C : Coupling} {Γ : List Bond} {moves : Bool} {inner : Inner} {owner owner' : NodeId}

/-! ## Names and types -/

section

variable [hC : C.Reads]

/-- Whatever the names begin with, the runs read the same behind their dots. -/
theorem parallel_dottedRest_append (what first first' : String) : C.Parallel false Γ (dottedRest what first) (dottedRest what first')
    (fun a b => [.plain (∃ rest, a = first ++ rest ∧ b = first' ++ rest)]) := by
  have hround : ∀ a b, C.Parallel true ([.plain (∃ rest, a = first ++ rest ∧ b = first' ++ rest)] ++ Γ) (do
        let _ ← take
        return a ++ "." ++ (← identifier what)) (do
        let _ ← take
        return b ++ "." ++ (← identifier what))
      (fun a b => [.plain (∃ rest, a = first ++ rest ∧ b = first' ++ rest)]) := by
    refine fun a b => parallel_plain (fun ⟨rest, ha, hb⟩ => ?_)
    subst ha hb
    refine parallel_take.bind (fun _ _ => parallel_identifier.bind_eq (fun next => ?_))
    exact parallel_yield ⟨rest ++ "." ++ next, by simp only [String.append_assoc], by simp only [String.append_assoc]⟩
  unfold dottedRest
  exact parallel_repeatWhile_from ⟨"", String.append_empty.symm, String.append_empty.symm⟩ (fun _ => parallel_atKind _) hround

theorem parallel_dottedRest (what name : String) :
    C.Parallel false Γ (dottedRest what name) (dottedRest what name) (fun a b => [.plain (a = b)]) :=
  (parallel_dottedRest_append what name name).weaken (fun w a b hab c hc => by
    obtain ⟨rest, ha, hb⟩ : ∃ rest, a = name ++ rest ∧ b = name ++ rest := hab _ List.mem_cons_self
    obtain rfl := List.mem_singleton.1 hc
    exact ha.trans hb.symm)

theorem parallel_typeDeclaration : C.Parallel moves Γ typeDeclaration typeDeclaration (fun a b => [.plain (a = b)]) := by
  unfold typeDeclaration
  exact parallel_identifier.bind_eq (fun name => parallel_dottedRest _ name)

omit hC in
theorem parallel_instanceHead [hE : C.Exact] : C.Parallel moves Γ instanceHead instanceHead (fun a b => [.plain (a = b)]) := by
  unfold instanceHead
  refine parallel_look.after_eq (fun next => ?_)
  split
  · exact parallel_takeText
  · exact parallel_takeText
  · exact parallel_takeText
  · exact parallel_failFound

theorem parallel_nameWithType (h : inner.Coupled C) (what : String) :
    C.Parallel moves Γ (nameWithType inner what) (nameWithType inner what) (fun a b => [.plain (a = b)]) := by
  unfold nameWithType
  refine parallel_identifier.bind_eq (fun name => ?_)
  refine parallel_expect.bind (fun _ _ => ?_)
  exact (h.rule .typeDeclaration trivial).bind_eq (fun typeName => parallel_same _)

theorem parallel_superclass (h : inner.Coupled C) :
    C.Parallel false Γ (superclass inner) (superclass inner) (fun a b => [.plain (a = b)]) := by
  unfold superclass
  refine (parallel_atKeyword _).bind_eq (fun inherits => ?_)
  split
  · refine parallel_take.bind (fun _ _ => ?_)
    exact (h.rule .typeDeclaration trivial).bind_eq (fun typeName => parallel_same _)
  · exact parallel_same _

theorem parallel_visibility : C.Parallel false Γ visibility visibility (fun a b => [.plain (a = b)]) := by
  unfold visibility
  refine parallel_look.bind_eq (fun next => ?_)
  split
  · exact parallel_same _
  · exact parallel_same _
  · exact parallel_failFound

theorem parallel_separated {α : Type} {item : Parser α}
    (hitem : ∀ moves Γ, C.Parallel moves Γ item item (fun a b => [.plain (a = b)])) :
    C.Parallel false Γ (separated item) (separated item) (fun a b => [.plain (a = b)]) := by
  unfold separated
  refine (hitem _ _).bind_eq (fun first => ?_)
  refine parallel_loop_eq (fun _ => parallel_atKind _) (fun items => ?_) [first]
  refine parallel_take.bind (fun _ _ => ?_)
  exact (hitem _ _).bind_eq (fun next => parallel_same _)

/-! ## Flags and versions -/

/-- The names of flags look alike. -/
theorem parallel_flagName :
    C.Parallel moves Γ flagName flagName (fun t t' => [.plain (C.sign t = C.sign t'), .place t.location t'.location]) := by
  unfold flagName
  refine parallel_look.after_eq (fun next => ?_)
  split
  · exact parallel_take
  · exact parallel_take
  · exact parallel_failFound

theorem parallel_flagEnd {R : List String → List String → Prop} {fs fs' : List String} {t t' : Token}
    (h : R (fs ++ [t.text]) (fs' ++ [t'.text])) :
    C.Parallel false Γ (flagEnd fs t) (flagEnd fs' t') (fun a b => [.plain (R a b)]) := by
  unfold flagEnd
  refine parallel_look.bind_eq (fun next => ?_)
  split
  · exact parallel_take.bind (fun _ _ => parallel_yield h)
  · exact parallel_yield h
  · exact parallel_failFound

/-- The lists of flags are related, if lists stay so that get names which look alike. -/
theorem parallel_flagList {R : List String → List String → Prop} (hnil : R [] [])
    (hR : ∀ fs fs' t t', R fs fs' → C.sign t = C.sign t' → R (fs ++ [t.text]) (fs' ++ [t'.text])) :
    C.Parallel false Γ flagList flagList (fun a b => [.plain (R a b)]) := by
  have hround : ∀ {Γ : List Bond} (fs fs' : List String), C.Parallel true ([.plain (R fs fs')] ++ Γ) (flag fs) (flag fs')
      (fun a b => [.plain (R a b)]) := by
    refine fun fs fs' => parallel_plain (fun h => ?_)
    exact parallel_flagName.bind (fun t t' => parallel_plain (fun hsign => parallel_flagEnd (hR fs fs' t t' h hsign)))
  unfold flagList
  refine (parallel_atKind _).bind_eq (fun opened => ?_)
  split
  · refine parallel_take.bind (fun _ _ => ?_)
    refine (parallel_repeatWhile_from hnil (fun _ => (parallel_atKind _).map_eq) hround).bind (fun fs fs' => ?_)
    exact parallel_plain (fun h => parallel_take.bind (fun _ _ => parallel_yield h))
  · exact parallel_yield hnil

omit hC in
theorem parallel_flags [hE : C.Exact] : C.Parallel moves Γ flags flags (fun _ _ => []) := by
  unfold flags
  refine parallel_expect.bind (fun _ _ => ?_)
  have happend : ∀ (fs fs' : List String) (t t' : Token), fs = fs' → C.sign t = C.sign t' → fs ++ [t.text] = fs' ++ [t'.text] :=
    fun fs fs' t t' h hsign => by rw [h, hE.text hsign]
  exact (parallel_flagList rfl happend).bind_eq (fun fs => parallel_keepFlags fs)

theorem parallel_moduleVersion : C.Parallel false Γ moduleVersion moduleVersion (fun a b => [.plain (a = b)]) := by
  have htext : ∀ (Γ : List Bond) {k : TokenKind}, k.isReserved = false →
      C.ParallelFrom (fun s => s.significant.head?.map Token.kind = some k) false Γ (do return some (← take).text)
        (do return some (← take).text) (fun a b => [.plain (a = b)]) := by
    intro Γ k hk
    refine parallelFrom_take.bind (fun t t' => parallel_plain (fun hsame => ?_))
    rw [text_eq hsame hk]
    exact parallel_same _
  unfold moduleVersion
  refine (parallel_atKind _).bind_eq (fun versioned => ?_)
  split
  · refine parallel_take.bind (fun _ _ => parallel_look_bind (fun next => ?_))
    split
    · exact htext _ rfl
    · exact htext _ rfl
    · exact htext _ rfl
    · exact parallel_failFound.from
  · exact parallel_same _

end

section

variable [hC : C.Builds]

/-! ## Literals and arrays -/

theorem parallel_inst [hE : C.Exact] : C.Parallel moves Γ Grammar.inst Grammar.inst (fun i j => [.node i j]) := by
  unfold Grammar.inst
  refine parallel_location.after (fun start start' => ?_)
  refine parallel_instanceHead.bind_eq (fun first => ?_)
  refine (parallel_dottedRest _ first).bind_eq (fun name => ?_)
  exact parallel_openShared (by simp) (hE.shared_any _) nofun rfl

/-- A literal is no comment and no instance. -/
theorem kind_of_literalPayload? {t : Token} {payload : Payload} (h : literalPayload? t = some payload) :
    payload.kind ≠ .comment ∧ payload.kind ≠ .inst := by
  unfold literalPayload? at h
  split at h
  case h_7 =>
    split at h
    · obtain rfl := Option.some.inj h
      exact ⟨nofun, nofun⟩
    · nomatch h
  case h_8 => nomatch h
  all_goals
    obtain rfl := Option.some.inj h
    exact ⟨nofun, nofun⟩

/-- A literal is made of what the grammar sees of its token: a boolean is told in lower case. -/
theorem literalPayload?_eq {t t' : Token} (h : t.folded = t'.folded) : literalPayload? t = literalPayload? t' := by
  obtain ⟨hkind, htext⟩ := Prod.mk.inj h
  cases hreserved : t.kind.isReserved with
  | false => rw [literalPayload?, literalPayload?, ← hkind, Token.text_of_folded h hreserved, keyword?_eq h]
  | true =>
    rw [← hkind, hreserved] at htext
    have hlower : t.text.toList.map Char.toLower = t'.text.toList.map Char.toLower := htext
    rcases Bool.or_eq_true_iff.1 hreserved with hword | hword
    · rw [literalPayload?, literalPayload?, ← hkind, eq_of_beq hword, keyword?_eq h]
    · rw [literalPayload?, literalPayload?, ← hkind, eq_of_beq hword, hlower]

theorem parallel_literal : C.Parallel moves Γ Grammar.literal Grammar.literal (fun i j => [.node i j]) := by
  unfold Grammar.literal
  refine parallel_take.bind (fun t t' => parallel_plain (fun hsign => ?_))
  rw [literalPayload?_eq (hC.folded hsign)]
  split
  · rename_i payload hpayload
    exact parallel_openNode (by simp) (kind_of_literalPayload? hpayload) (plain_of_literalPayload? hpayload).2
  · exact parallel_failAt (by simp) (hC.fault_text hsign _)

variable (h : inner.Coupled C)

include h

theorem parallel_element : C.Parallel moves Γ (element inner) (element inner) (fun i j => [.node i j]) := by
  unfold element
  refine parallel_look.after_eq (fun next => ?_)
  split
  · exact h.rule .inst trivial
  · exact h.rule .literal trivial
  · split
    · exact h.rule .literal trivial
    · exact parallel_failFound
  · exact parallel_failFound

theorem parallel_elements (howner : .owner owner owner' ∈ Γ) :
    C.Parallel false Γ (elements inner owner) (elements inner owner') (fun _ _ => []) := by
  unfold elements
  refine (parallel_element h).bind (fun first first' => ?_)
  refine (parallel_attach (by simp [howner]) (by simp)).bind (fun _ _ => ?_)
  refine parallel_loop (fun _ => parallel_atKind _) ?_
  exact parallel_take.bind (fun _ _ => (parallel_element h).attach (by simp [howner]))

theorem parallel_arrayLiteral :
    C.Parallel moves Γ (Grammar.arrayLiteral inner) (Grammar.arrayLiteral inner) (fun i j => [.node i j]) := by
  have hclose : ∀ {Γ : List Bond} {start start' : Location} {array array' : NodeId}, .place start start' ∈ Γ →
      .node array array' ∈ Γ → C.Parallel false Γ (do
        if ← atKind .rightBracket then
          let _ ← take
          return array
        else failAt start .unterminatedArray) (do
        if ← atKind .rightBracket then
          let _ ← take
          return array'
        else failAt start' .unterminatedArray) (fun i j => [.node i j]) := by
    intro Γ start start' array array' hstart harray
    refine (parallel_atKind _).bind_eq (fun closed => ?_)
    split
    · exact parallel_take.bind (fun _ _ => parallel_pure (by simp [harray]))
    · exact parallel_failAt hstart (hC.fault_refl _)
  unfold Grammar.arrayLiteral
  refine parallel_location.after (fun start start' => ?_)
  refine parallel_expect.bind (fun _ _ => ?_)
  refine (parallel_openOwner (by simp) ⟨by nofun, by nofun⟩ (by nofun) rfl).bind (fun array array' => ?_)
  refine (parallel_atKind _).bind_eq (fun empty => ?_)
  dsimp only
  split
  · exact (parallel_elements h (by simp)).bind (fun _ _ => hclose (by simp) (by simp))
  · exact hclose (by simp) (by simp)

/-! ## Declarations -/

theorem parallel_typedNode {payload : String → String → Payload} (what : String)
    (hkind : ∀ name typeName, (payload name typeName).kind ≠ .comment ∧ (payload name typeName).kind ≠ .inst)
    (hvalue : ∀ name typeName, (payload name typeName).returnValue = none) :
    C.Parallel moves Γ (typedNode inner what payload) (typedNode inner what payload) (fun i j => [.node i j]) := by
  unfold typedNode
  refine parallel_location.after (fun start start' => ?_)
  refine (parallel_nameWithType h what).bind_eq (fun named => ?_)
  exact parallel_openNode (by simp) (hkind _ _) (hvalue _ _)

theorem parallel_variableDefinition :
    C.Parallel moves Γ (variableDefinition inner) (variableDefinition inner) (fun i j => [.node i j]) :=
  parallel_typedNode h _ (fun _ _ => ⟨nofun, nofun⟩) (fun _ _ => rfl)

theorem parallel_param : C.Parallel moves Γ (param inner) (param inner) (fun i j => [.node i j]) :=
  parallel_typedNode h _ (fun _ _ => ⟨nofun, nofun⟩) (fun _ _ => rfl)

theorem parallel_memberVariables (howner : .owner owner owner' ∈ Γ) :
    C.Parallel false Γ (memberVariables inner owner) (memberVariables inner owner') (fun _ _ => []) := by
  unfold memberVariables
  refine parallel_loop (fun _ => parallel_inBlock) ?_
  refine (h.rule .variableDefinition trivial).bind (fun member member' => ?_)
  exact parallel_expect.bind (fun _ _ => parallel_attach (by simp [howner]) (by simp))

theorem parallel_scopeBlock : C.Parallel moves Γ (scopeBlock inner) (scopeBlock inner) (fun i j => [.node i j]) := by
  unfold scopeBlock
  refine parallel_location.after (fun start start' => ?_)
  refine parallel_visibility.after_eq (fun seen => ?_)
  refine parallel_take.bind (fun _ _ => ?_)
  refine (parallel_openOwner (by simp) ⟨by nofun, by nofun⟩ (by nofun) rfl).bind (fun scope scope' => ?_)
  refine parallel_expect.bind (fun _ _ => ?_)
  refine (parallel_memberVariables h (by simp)).bind (fun _ _ => ?_)
  exact parallel_expect.bind (fun _ _ => parallel_pure (by simp))

theorem parallel_recordBlock : C.Parallel moves Γ (recordBlock inner) (recordBlock inner) (fun i j => [.node i j]) := by
  unfold recordBlock
  refine parallel_location.after (fun start start' => ?_)
  refine parallel_expectKeyword.bind (fun _ _ => ?_)
  refine parallel_identifier.bind_eq (fun name => ?_)
  refine (parallel_superclass h).bind_eq (fun parent => ?_)
  refine (parallel_openOwner (by simp) ⟨by nofun, by nofun⟩ (by nofun) rfl).bind (fun record record' => ?_)
  refine parallel_expect.bind (fun _ _ => ?_)
  refine (parallel_memberVariables h (by simp)).bind (fun _ _ => ?_)
  exact parallel_expect.bind (fun _ _ => parallel_pure (by simp))

theorem parallel_classMember : C.Parallel moves Γ (classMember inner) (classMember inner) (fun i j => [.node i j]) := by
  unfold classMember
  refine parallel_look.after_eq (fun next => ?_)
  split
  · exact h.rule .scopeBlock trivial
  · exact h.rule .scopeBlock trivial
  · exact (h.rule .flags trivial).bind (fun _ _ => h.rule .messageBlock trivial)
  · exact h.rule .messageBlock trivial
  · exact parallel_failFound

theorem parallel_classBlock : C.Parallel moves Γ (classBlock inner) (classBlock inner) (fun i j => [.node i j]) := by
  unfold classBlock
  refine parallel_location.after (fun start start' => ?_)
  refine parallel_expectKeyword.bind (fun _ _ => ?_)
  refine parallel_identifier.bind_eq (fun name => ?_)
  refine (parallel_superclass h).bind_eq (fun parent => ?_)
  refine (parallel_openOwner (by simp) ⟨by nofun, by nofun⟩ (by nofun) rfl).bind (fun node node' => ?_)
  refine parallel_expect.bind (fun _ _ => ?_)
  refine (parallel_loop (fun _ => parallel_inBlock) ?_).bind (fun _ _ => ?_)
  · exact (parallel_classMember h).attach (by simp)
  · exact parallel_expect.bind (fun _ _ => parallel_pure (by simp))

theorem parallel_messageBlock : C.Parallel moves Γ (messageBlock inner) (messageBlock inner) (fun i j => [.node i j]) := by
  unfold messageBlock
  refine parallel_location.after (fun start start' => ?_)
  refine (parallel_openOwner (by simp) ⟨by nofun, by nofun⟩ (by nofun) rfl).after (fun block block' => ?_)
  refine (h.rule .messageDeclaration trivial).bind (fun declaration declaration' => ?_)
  refine (parallel_attach (by simp) (by simp)).bind (fun _ _ => ?_)
  refine parallel_expect.bind (fun _ _ => ?_)
  refine (h.rule .statements rfl).bind (fun statements statements' => ?_)
  refine (parallel_attach (by simp) (by simp)).bind (fun _ _ => ?_)
  exact parallel_expect.bind (fun _ _ => parallel_pure (by simp))

theorem parallel_params (howner : .owner owner owner' ∈ Γ) :
    C.Parallel false Γ (params inner owner) (params inner owner') (fun _ _ => []) := by
  unfold params
  refine (h.rule .param trivial).bind (fun first first' => ?_)
  refine (parallel_attach (by simp [howner]) (by simp)).bind (fun _ _ => ?_)
  refine parallel_loop (fun _ => parallel_atKind _) ?_
  exact parallel_take.bind (fun _ _ => (h.rule .param trivial).attach (by simp [howner]))

theorem parallel_paramList (howner : .owner owner owner' ∈ Γ) :
    C.Parallel false Γ (paramList inner owner) (paramList inner owner') (fun _ _ => []) := by
  have hclose : ∀ Γ, C.Parallel false Γ (do
      let _ ← expect .rightParen "')' after parameters"
      return ()) (do
      let _ ← expect .rightParen "')' after parameters"
      return ()) (fun _ _ => []) := fun _ => parallel_expect.bind (fun _ _ => parallel_pure (by simp))
  unfold paramList
  refine parallel_look.bind_eq (fun next => ?_)
  split
  · exact parallel_take.bind (fun _ _ => parallel_params h (by simp [howner]))
  · refine parallel_take.bind (fun _ _ => ?_)
    refine (parallel_atKind _).bind_eq (fun empty => ?_)
    dsimp only
    split
    · exact (parallel_params h (by simp [howner])).bind (fun _ _ => hclose _)
    · exact hclose _
  · exact parallel_pure (by simp)

theorem parallel_messageDeclaration :
    C.Parallel moves Γ (messageDeclaration inner) (messageDeclaration inner) (fun i j => [.node i j]) := by
  have hrest : ∀ {Γ : List Bond} {start start' : Location} (name : Option String), .place start start' ∈ Γ →
      C.Parallel false Γ (do
        let declaration ← openNode (.messageDeclaration name) start
        paramList inner declaration
        if ← atKind .leftBracket then attach declaration (← inner.parse .returnType)
        return declaration) (do
        let declaration ← openNode (.messageDeclaration name) start'
        paramList inner declaration
        if ← atKind .leftBracket then attach declaration (← inner.parse .returnType)
        return declaration) (fun i j => [.node i j]) := by
    intro Γ start start' name hstart
    refine (parallel_openOwner hstart ⟨by nofun, by nofun⟩ (by nofun) rfl).bind (fun declaration declaration' => ?_)
    refine (parallel_paramList h (by simp)).bind (fun _ _ => ?_)
    refine (parallel_atKind _).bind_eq (fun returns => ?_)
    dsimp only
    split
    · refine (h.rule .returnType trivial).bind (fun returnType returnType' => ?_)
      exact (parallel_attach (by simp) (by simp)).bind (fun _ _ => parallel_pure (by simp))
    · exact parallel_pure (by simp)
  unfold messageDeclaration
  refine parallel_location.after (fun start start' => ?_)
  refine parallel_expectKeyword.bind (fun _ _ => ?_)
  refine (parallel_atKind _).bind_eq (fun named => ?_)
  dsimp only
  split
  · exact parallel_identifier.map_eq.bind_eq (fun name => hrest name (by simp))
  · exact (parallel_same _).bind_eq (fun name => hrest name (by simp))

theorem parallel_returnType : C.Parallel moves Γ (returnType inner) (returnType inner) (fun i j => [.node i j]) := by
  have hclose : ∀ {Γ : List Bond} {start start' : Location} (payload : Payload), .place start start' ∈ Γ →
      payload.kind ≠ .comment ∧ payload.kind ≠ .inst → payload.returnValue = none → C.Parallel false Γ (do
        if ← atKind .rightBracket then
          let _ ← take
          openNode payload start
        else failFound .unclosedReturnType) (do
        if ← atKind .rightBracket then
          let _ ← take
          openNode payload start'
        else failFound .unclosedReturnType) (fun i j => [.node i j]) := by
    intro Γ start start' payload hstart hkind hvalue
    refine (parallel_atKind _).bind_eq (fun closed => ?_)
    split
    · exact parallel_take.bind (fun _ _ => parallel_openNode (by simp [hstart]) hkind hvalue)
    · exact parallel_failFound
  unfold returnType
  refine parallel_location.after (fun start start' => ?_)
  refine parallel_expect.bind (fun _ _ => ?_)
  unfold returnPayload
  rw [bind_assoc, bind_assoc]
  refine (parallel_lookAhead _).bind_eq (fun named => ?_)
  split
  · rw [bind_map_left, bind_map_left]
    refine (parallel_separated (fun _ _ => parallel_nameWithType h _)).bind_eq (fun fields => ?_)
    exact hclose (.namedTuple fields) (by simp) ⟨by nofun, by nofun⟩ rfl
  · rw [bind_map_left, bind_map_left]
    refine (parallel_separated (fun _ _ => h.rule .typeDeclaration trivial)).bind_eq (fun types => ?_)
    exact hclose (.tuple types) (by simp) ⟨by nofun, by nofun⟩ rfl

/-! ## Expressions -/

theorem parallel_primary : C.Parallel moves Γ (primary inner) (primary inner) (fun i j => [.node i j]) := by
  unfold primary
  refine parallel_look.after_eq (fun next => ?_)
  split
  · exact h.rule .groupedExpression trivial
  · exact h.rule .arrayLiteral trivial
  · exact h.rule .inst trivial
  · exact h.rule .literal trivial
  · exact h.rule .messageBlock trivial
  · exact h.rule .inst trivial
  · exact h.rule .inst trivial
  · split
    · exact h.rule .literal trivial
    · exact parallel_failFound
  · exact parallel_failFound

/-- The values of the two runs correspond, and so do the messages that are sent to them. -/
theorem parallel_expression : C.Parallel moves Γ (expression inner) (expression inner) (fun i j => [.node i j]) := by
  unfold expression
  refine (parallel_atKeyword _).after_eq (fun returns => ?_)
  split
  · exact h.rule .returnExpression trivial
  · refine (parallel_primary h).bind (fun value value' => ?_)
    refine parallel_startsMessage.bind_eq (fun sends => ?_)
    split
    · exact h.send (by simp)
    · exact parallel_pure (by simp)

theorem parallel_argument : C.Parallel moves Γ (argument inner) (argument inner) (fun i j => [.node i j]) := by
  unfold argument
  refine (parallel_atKeyword _).after_eq (fun returns => ?_)
  split
  · exact parallel_fail
  · exact h.rule .expression trivial

theorem parallel_returned : C.Parallel false Γ (returned inner) (returned inner) (fun i j => [.node i j]) := by
  unfold returned
  refine (parallel_atKind _).bind_eq (fun bare => ?_)
  split
  · exact parallel_location.bind (fun l l' => parallel_openNode (by simp) ⟨by nofun, by nofun⟩ rfl)
  · exact h.rule .argument trivial

theorem parallel_returnExpression :
    C.Parallel moves Γ (returnExpression inner) (returnExpression inner) (fun i j => [.node i j]) := by
  unfold returnExpression
  refine parallel_location.after (fun start start' => ?_)
  refine parallel_expectKeyword.bind (fun _ _ => ?_)
  refine (parallel_openOwner (by simp) ⟨by nofun, by nofun⟩ (by nofun) rfl).bind (fun node node' => ?_)
  refine (parallel_returned h).bind (fun value value' => ?_)
  exact (parallel_attach (by simp) (by simp)).bind (fun _ _ => parallel_pure (by simp))

theorem parallel_groupedExpression :
    C.Parallel moves Γ (groupedExpression inner) (groupedExpression inner) (fun i j => [.node i j]) := by
  unfold groupedExpression
  refine parallel_location.after (fun start start' => ?_)
  refine parallel_expect.bind (fun _ _ => ?_)
  refine (parallel_openOwner (by simp) ⟨by nofun, by nofun⟩ (by nofun) rfl).bind (fun group group' => ?_)
  refine (h.rule .expression trivial).bind (fun value value' => ?_)
  refine (parallel_attach (by simp) (by simp)).bind (fun _ _ => ?_)
  exact parallel_expect.bind (fun _ _ => parallel_pure (by simp))

/-- The sends start where their receivers do, and those places correspond. -/
theorem parallel_sendMessage {i j : NodeId} (hreceiver : .node i j ∈ Γ) :
    C.Parallel moves Γ (sendMessage inner i) (sendMessage inner j) (fun i j => [.node i j]) := by
  unfold sendMessage
  refine (parallel_nodeLocation hreceiver).after (fun l l' => ?_)
  refine (parallel_openOwner (by simp) ⟨by nofun, by nofun⟩ (by nofun) rfl).after (fun send send' => ?_)
  refine (h.rule .message trivial).bind (fun message message' => ?_)
  refine (parallel_attach (by simp) (by simp [hreceiver])).bind (fun _ _ => ?_)
  exact (parallel_attach (by simp) (by simp)).bind (fun _ _ => parallel_pure (by simp))

omit hC h in
theorem isReserved_of_isMessageOperator {k : TokenKind} (h : k.isMessageOperator = true) : k.isReserved = false := by
  cases k <;> first | rfl | nomatch h

theorem parallel_message : C.Parallel moves Γ (message inner) (message inner) (fun i j => [.node i j]) := by
  unfold message
  refine parallel_location.after (fun start start' => parallel_look_bind (fun next => ?_))
  split
  · split
    · refine Coupling.Parallel.from ?_
      refine parallel_identifier.bind_eq (fun name => ?_)
      refine (parallel_openOwner (by simp) ⟨by nofun, by nofun⟩ (by nofun) rfl).bind (fun node node' => ?_)
      refine (parallel_loop (fun _ => parallel_atKind _) ?_).bind (fun _ _ => parallel_pure (by simp))
      exact parallel_take.bind (fun _ _ => (h.rule .argument trivial).attach (by simp))
    · split
      · rename_i hoperator
        refine parallelFrom_take.bind (fun operator operator' => parallel_plain (fun hsame => ?_))
        rw [text_eq hsame (isReserved_of_isMessageOperator hoperator)]
        refine (parallel_openOwner (by simp) ⟨by nofun, by nofun⟩ (by nofun) rfl).bind (fun node node' => ?_)
        refine (h.rule .argument trivial).bind (fun value value' => ?_)
        exact (parallel_attach (by simp) (by simp)).bind (fun _ _ => parallel_pure (by simp))
      · exact parallel_failFound.from
  · exact parallel_failFound.from

/-! ## Statements -/

theorem parallel_assignment : C.Parallel moves Γ (assignment inner) (assignment inner) (fun i j => [.node i j]) := by
  have hrest : ∀ {Γ : List Bond} {node node' target target' : NodeId}, .owner node node' ∈ Γ → .node node node' ∈ Γ →
      .node target target' ∈ Γ → C.Parallel false Γ (do
        let operator ← expect .assignment "':='"
        let message ← openNode (.message ":=" none) operator.location
        let value ← inner.parse .argument
        attach message value
        attach node target
        attach node message
        return node) (do
        let operator ← expect .assignment "':='"
        let message ← openNode (.message ":=" none) operator.location
        let value ← inner.parse .argument
        attach message value
        attach node' target'
        attach node' message
        return node') (fun i j => [.node i j]) := by
    intro Γ node node' target target' howner hnode htarget
    refine parallel_expect.bind (fun operator operator' => ?_)
    refine (parallel_openOwner (by simp) ⟨by nofun, by nofun⟩ (by nofun) rfl).bind (fun message message' => ?_)
    refine (h.rule .argument trivial).bind (fun value value' => ?_)
    refine (parallel_attach (by simp) (by simp)).bind (fun _ _ => ?_)
    refine (parallel_attach (by simp [howner]) (by simp [htarget])).bind (fun _ _ => ?_)
    exact (parallel_attach (by simp [howner]) (by simp)).bind (fun _ _ => parallel_pure (by simp [hnode]))
  unfold assignment
  refine parallel_location.after (fun start start' => ?_)
  refine (parallel_openOwner (by simp) ⟨by nofun, by nofun⟩ (by nofun) rfl).after (fun node node' => ?_)
  unfold atTypedName
  refine (parallel_lookAhead _).after_eq (fun typed => ?_)
  dsimp only
  split
  · exact (h.rule .variableDefinition trivial).bind (fun target target' => hrest (by simp) (by simp) (by simp))
  · exact (h.rule .inst trivial).bind (fun target target' => hrest (by simp) (by simp) (by simp))

theorem parallel_namedStatement :
    C.Parallel moves Γ (namedStatement inner) (namedStatement inner) (fun i j => [.node i j]) := by
  unfold namedStatement
  refine parallel_looksLikeVariableDefinition.after_eq (fun defines => ?_)
  split
  · exact h.rule .variableDefinition trivial
  unfold atTypedName
  refine (parallel_lookAhead _).after_eq (fun typed => ?_)
  split
  · exact h.rule .assignment trivial
  refine parallel_looksLikePlainAssignment.after_eq (fun assigns => ?_)
  split
  · exact h.rule .assignment trivial
  · exact h.rule .expression trivial

theorem parallel_closedStatement :
    C.Parallel moves Γ (closedStatement inner) (closedStatement inner) (fun i j => [.node i j]) := by
  have hend : ∀ {Γ : List Bond} {node node' : NodeId}, .node node node' ∈ Γ →
      C.Parallel false Γ (expect .endOfStatement "';'" >>= fun _ => pure node) (expect .endOfStatement "';'" >>= fun _ => pure node')
        (fun i j => [.node i j]) :=
    fun hnode => parallel_expect.bind (fun _ _ => parallel_pure (by simp [hnode]))
  unfold closedStatement
  refine (parallel_atKind _).after_eq (fun named => ?_)
  dsimp only
  split
  · exact (parallel_namedStatement h).bind (fun node node' => hend (by simp))
  · exact (h.rule .expression trivial).bind (fun node node' => hend (by simp))

theorem parallel_statement : C.Parallel moves Γ (statement inner) (statement inner) (fun i j => [.node i j]) := by
  unfold statement
  refine parallel_look.after_eq (fun next => ?_)
  split
  · exact h.rule .classBlock trivial
  · exact h.rule .recordBlock trivial
  · exact parallel_closedStatement h

omit hC in
/-- A block of statements may be empty, so it need not take a token. -/
theorem parallel_statements [hL : C.Loose] : C.Parallel false Γ (statements inner) (statements inner) (fun i j => [.node i j]) := by
  unfold statements
  refine parallel_location.bind (fun start start' => ?_)
  refine (parallel_openAny (by simp) ⟨by nofun, by nofun⟩ rfl).bind (fun block block' => ?_)
  refine (parallel_loop (fun _ => parallel_inBlock) ?_).bind (fun _ _ => parallel_pure (by simp))
  exact (h.rule .statement trivial).attach (by simp)

/-! ## Units -/

theorem parallel_blockBody (howner : .owner owner owner' ∈ Γ) :
    C.Parallel false Γ (blockBody inner owner) (blockBody inner owner') (fun _ _ => []) := by
  unfold blockBody
  refine (parallel_atKeyword _).bind_eq (fun nested => ?_)
  split
  · refine (parallel_loop (fun _ => parallel_atKeyword _) ?_).bind (fun _ _ => ?_)
    · exact (h.rule .namespaceBlock trivial).attach howner
    · refine parallel_inBlock.bind_eq (fun goesOn => ?_)
      split
      · exact parallel_failFound
      · exact parallel_pure (by simp)
  · exact (h.rule .statements rfl).attach howner

theorem parallel_namespaceBlock :
    C.Parallel moves Γ (namespaceBlock inner) (namespaceBlock inner) (fun i j => [.node i j]) := by
  unfold namespaceBlock
  refine parallel_location.after (fun start start' => ?_)
  refine parallel_expectKeyword.bind (fun _ _ => ?_)
  refine parallel_identifier.bind_eq (fun name => ?_)
  refine (parallel_openOwner (by simp) ⟨by nofun, by nofun⟩ (by nofun) rfl).bind (fun node node' => ?_)
  refine parallel_expect.bind (fun _ _ => ?_)
  refine (parallel_blockBody h (by simp)).bind (fun _ _ => ?_)
  exact parallel_expect.bind (fun _ _ => parallel_pure (by simp))

theorem parallel_fragmentBlock {start start' : Location} (hstart : .place start start' ∈ Γ) :
    C.Parallel moves Γ (fragmentBlock inner start) (fragmentBlock inner start') (fun i j => [.node i j]) := by
  unfold fragmentBlock
  refine (parallel_openOwner hstart ⟨by nofun, by nofun⟩ (by nofun) rfl).after (fun fragment fragment' => ?_)
  refine parallel_expect.bind (fun _ _ => ?_)
  refine (parallel_blockBody h (by simp)).bind (fun _ _ => ?_)
  exact parallel_expect.bind (fun _ _ => parallel_pure (by simp))

theorem parallel_codeFragment :
    C.Parallel moves Γ (codeFragment inner) (codeFragment inner) (fun i j => [.node i j]) := by
  rw [codeFragment_eq]
  refine parallel_location.after (fun start start' => ?_)
  refine (parallel_atKind _).after_eq (fun flagged => ?_)
  split
  · exact (h.rule .flags trivial).bind (fun _ _ => parallel_fragmentBlock h (by simp))
  · exact parallel_fragmentBlock h (by simp)

theorem parallel_moduleBlock : C.Parallel moves Γ (moduleBlock inner) (moduleBlock inner) (fun i j => [.node i j]) := by
  unfold moduleBlock
  refine parallel_location.after (fun start start' => ?_)
  refine parallel_expectKeyword.bind (fun _ _ => ?_)
  refine parallel_identifier.bind_eq (fun name => ?_)
  refine parallel_moduleVersion.bind_eq (fun version => ?_)
  refine (parallel_openOwner (by simp) ⟨by nofun, by nofun⟩ (by nofun) rfl).bind (fun node node' => ?_)
  refine parallel_expect.bind (fun _ _ => ?_)
  refine (h.rule .codeFragment trivial).bind (fun fragment fragment' => ?_)
  refine (parallel_attach (by simp) (by simp)).bind (fun _ _ => ?_)
  exact parallel_expect.bind (fun _ _ => parallel_pure (by simp))

theorem parallel_unitBlock : C.Parallel moves Γ (unitBlock inner) (unitBlock inner) (fun i j => [.node i j]) := by
  unfold unitBlock
  refine parallel_look.after_eq (fun next => ?_)
  split
  · exact h.rule .codeFragment trivial
  · exact h.rule .codeFragment trivial
  · exact h.rule .moduleBlock trivial
  · exact parallel_fail
  · exact parallel_fail
  · exact parallel_fail
  · exact parallel_failFound

theorem parallel_unit : C.Parallel moves Γ (unit inner) (unit inner) (fun i j => [.node i j]) := by
  unfold Grammar.unit
  refine (parallel_unitBlock h).bind (fun root root' => ?_)
  have hend : C.Parallel false ([.node root root'] ++ Γ)
      ((Option.isSome <$> current?) >>= fun more => if more = true then failFound .trailing else pure root)
      ((Option.isSome <$> current?) >>= fun more => if more = true then failFound .trailing else pure root')
      (fun i j => [.node i j]) := by
    refine parallel_current?.bind_eq (fun more => ?_)
    split
    · exact parallel_failFound
    · exact parallel_pure (by simp)
  rwa [bind_map_left, bind_map_left] at hend

end

/-! ## The grammar -/

/-- The bodies of the rules that two runs share run in parallel if the productions inside them do, and if flags, instances and blocks of
statements do: the two that keep the text of a reserved word as it is written, and the one whose node gets statements. -/
theorem coupled_body [hC : C.Builds] (h : inner.Coupled C)
    (hflags : ∀ moves Γ, C.Parallel moves Γ flags flags (fun _ _ => []))
    (hinst : ∀ moves Γ, C.Parallel moves Γ Grammar.inst Grammar.inst (fun i j => [.node i j]))
    (hstatements : ∀ Γ, C.Parallel false Γ (statements inner) (statements inner) (fun i j => [.node i j]))
    {α : Type} (rule : Rule α) (hrule : rule.Shared moves) :
    C.Parallel moves Γ (rule.body inner) (rule.body inner) (Rule.bonds rule) := by
  cases rule with
  | unit => exact parallel_unit h
  | codeFragment => exact parallel_codeFragment h
  | flags => exact hflags _ _
  | moduleBlock => exact parallel_moduleBlock h
  | namespaceBlock => exact parallel_namespaceBlock h
  | statements =>
    obtain rfl : moves = false := hrule
    exact hstatements _
  | statement => exact parallel_statement h
  | classBlock => exact parallel_classBlock h
  | scopeBlock => exact parallel_scopeBlock h
  | recordBlock => exact parallel_recordBlock h
  | messageBlock => exact parallel_messageBlock h
  | messageDeclaration => exact parallel_messageDeclaration h
  | param => exact parallel_param h
  | returnType => exact parallel_returnType h
  | typeDeclaration => exact parallel_typeDeclaration
  | variableDefinition => exact parallel_variableDefinition h
  | assignment => exact parallel_assignment h
  | expression => exact parallel_expression h
  | returnExpression => exact parallel_returnExpression h
  | groupedExpression => exact parallel_groupedExpression h
  | sendMessage receiver => exact hrule.elim
  | message => exact parallel_message h
  | argument => exact parallel_argument h
  | literal => exact parallel_literal
  | arrayLiteral => exact parallel_arrayLiteral h
  | inst => exact hinst _ _

/-- Every rule runs in parallel with itself, whatever the room, if flags, instances and blocks of statements do. -/
theorem coupled_parse_of (C : Coupling) [hC : C.Builds]
    (hflags : ∀ moves Γ, C.Parallel moves Γ flags flags (fun _ _ => []))
    (hinst : ∀ moves Γ, C.Parallel moves Γ Grammar.inst Grammar.inst (fun i j => [.node i j]))
    (hstatements : ∀ room Γ, Inner.Coupled C ⟨fun rule => Rule.parse room rule⟩ →
      C.Parallel false Γ (statements ⟨fun rule => Rule.parse room rule⟩) (statements ⟨fun rule => Rule.parse room rule⟩)
        (fun i j => [.node i j])) (room : Nat) : Inner.Coupled C ⟨fun rule => Rule.parse room rule⟩ := by
  induction room with
  | zero => exact ⟨fun _ _ => parallel_fail, fun _ => parallel_fail⟩
  | succ room ih =>
    refine ⟨fun {α moves Γ} rule hrule => ?_, fun h => (parallel_sendMessage ih h).guarded⟩
    exact Coupling.Parallel.guarded (m := rule.body _) (n := rule.body _)
      (coupled_body ih hflags hinst (fun Γ => hstatements room Γ ih) rule hrule)

/-- In a free coupling, every rule runs in parallel with itself. -/
theorem coupled_parse (C : Coupling) [hF : C.Free] (room : Nat) : Inner.Coupled C ⟨fun rule => Rule.parse room rule⟩ :=
  coupled_parse_of C (fun _ _ => parallel_flags) (fun _ _ => parallel_inst) (fun _ _ ih => parallel_statements ih) room

end Parser

end Courier
