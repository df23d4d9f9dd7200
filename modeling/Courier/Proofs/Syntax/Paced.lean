import Courier.Proofs.Syntax.Choices

/-!
# The productions keep pace

Every production is in lockstep with itself, if the productions inside it are (`lockstep_body`). Most of them look one token ahead, and
two runs that have tokens in common see the same one. Four look further: a statement that begins with a name, an assignment, the head
of a return type and a literal, which is taken before it is told from other tokens. The first three may choose differently, and then
`clears_of_heads` passes the tokens in common whichever way is chosen. By induction on the room, every rule keeps pace (`paced_parse`).
-/

namespace Courier

namespace Syntax

open Courier.Parser Courier.Grammar

/-- The parsers inside a production keep pace, and they take the runs of their forms. -/
structure Paced (inner : Inner) : Prop where
  accepts (n : Nat) : Accepts Deep n inner
  rule {α : Type} (r : Rule α) : Lockstep r.least (inner.parse r) (inner.parse r)
  sent (receiver receiver' : NodeId) : Lockstep 1 (inner.parse (.sendMessage receiver)) (inner.parse (.sendMessage receiver'))

/-! ## Names, types and literals -/

theorem lockstep_dottedRest (what name name' : String) :
    Lockstep 0 (Grammar.dottedRest what name) (Grammar.dottedRest what name') := by
  refine lockstep_repeatWhile (looks_atKind _) (fun name name' => ?_) name name'
  exact lockstep_take.bind (fun _ _ => (lockstep_identifier.bind (fun _ _ => lockstep_pure)).loose)

theorem lockstep_typeDeclaration : Lockstep 1 typeDeclaration typeDeclaration :=
  lockstep_identifier.bind (fun name name' => lockstep_dottedRest _ name name')

theorem lockstep_instanceHead : Lockstep 1 instanceHead instanceHead := by
  unfold instanceHead
  refine lockstep_look_bind looks_look (fun o => ?_)
  split
  · exact lockstep_take.bind (fun _ _ => lockstep_pure)
  · exact lockstep_take.bind (fun _ _ => lockstep_pure)
  · exact lockstep_take.bind (fun _ _ => lockstep_pure)
  · exact lockstep_failFound

theorem lockstep_inst : Lockstep 1 Grammar.inst Grammar.inst := by
  unfold Grammar.inst
  refine lockstep_silent_bind silent_location silent_location (fun start start' => ?_)
  refine lockstep_instanceHead.bind (fun name name' => ?_)
  refine (lockstep_dottedRest _ name name').bind (fun name name' => ?_)
  exact lockstep_silent (silent_openNode _ _) (silent_openNode _ _)

/-- A literal is the next token, whatever it is. -/
theorem literal_eq {s : ParserState} {t : Token} {v : List Token} (h : s.significant = t :: v) :
    Grammar.literal s = (match literalPayload? t with
      | some payload => openNode payload t.location
      | none => failAt t.location (.notAValue t.text) : Parser NodeId) s.taken := by
  unfold Grammar.literal
  exact take_bind h

theorem literal_eq_error {s : ParserState} {t : Token} {v : List Token} (h : s.significant = t :: v)
    (ht : literalPayload? t = none) :
    ∃ e u, Grammar.literal s = .error e u ∧ e.fault = .notAValue t.text ∧ e.Blames s.stream.source (t :: v) := by
  rw [literal_eq h, ht]
  exact ⟨_, _, rfl, rfl, .inr rfl⟩

/-- A token that is no literal is blamed itself: it was taken, but nothing before it is to blame. -/
theorem lockstep_literal : Lockstep 1 Grammar.literal Grammar.literal := by
  intro c x x' s s' hs
  cases hv : s.significant with
  | nil =>
    obtain ⟨rfl, rfl⟩ := List.append_eq_nil_iff.1 (hs.ahead.symm.trans hv)
    obtain ⟨e, he, -, hplace⟩ := take_eq_error hv
    unfold Grammar.literal LockstepAt
    rw [yields_bind, yields_of_eq_error he]
    exact .inl (.inr ⟨[], .inr (hv ▸ hplace), List.suffix_refl []⟩)
  | cons t v =>
    have hcommon : c ≠ [] → ∃ v', s'.significant = t :: v' := by
      intro hc
      have hhead := hs.head?_eq hc
      rw [hv, List.head?_cons] at hhead
      exact List.head?_eq_some_iff.1 hhead
    cases hpayload : literalPayload? t with
    | some payload =>
      have hopen : Lockstep 1 (take >>= fun _ => openNode payload t.location) (take >>= fun _ => openNode payload t.location) :=
        lockstep_take.bind (fun _ _ => lockstep_silent (silent_openNode _ _) (silent_openNode _ _))
      have hrun : ∀ (s : ParserState) v, s.significant = t :: v →
          Grammar.literal s = (take >>= fun _ => openNode payload t.location) s := by
        intro s v hv
        rw [literal_eq hv, hpayload, take_bind hv]
      by_cases hc : c = []
      · subst hc
        exact (((hopen [] x x' s s' hs).clears hs.ahead).congr (hrun s v hv)).lockstepAt
      · obtain ⟨v', hv'⟩ := hcommon hc
        exact (hopen c x x' s s' hs).congr (hrun s v hv) (hrun s' v' hv')
    | none =>
      obtain ⟨e, u, he, hfault, hblames⟩ := literal_eq_error hv hpayload
      refine (yields_of_eq_error he).2 ?_
      by_cases hc : c = []
      · subst hc
        have hx : t :: v = x := hv.symm.trans hs.ahead
        exact .inl (.inr ⟨t :: v, hblames, hx ▸ List.suffix_refl x⟩)
      · obtain ⟨v', hv'⟩ := hcommon hc
        obtain ⟨e', u', he', hfault', -⟩ := literal_eq_error hv' hpayload
        exact .inr ⟨hc, e', u', he', hfault'.trans hfault.symm⟩

section

variable {inner : Inner} (h : Paced inner)

include h

/-! ## Arrays -/

theorem lockstep_element : Lockstep 1 (element inner) (element inner) := by
  unfold element
  refine lockstep_look_bind looks_look (fun o => ?_)
  split
  · exact h.rule .inst
  · exact h.rule .literal
  · split
    · exact h.rule .literal
    · exact lockstep_failFound
  · exact lockstep_failFound

theorem lockstep_elements (array array' : NodeId) : Lockstep 1 (elements inner array) (elements inner array') := by
  unfold elements
  refine (lockstep_element h).bind (fun node node' => ?_)
  refine lockstep_silent_bind (silent_attach _ _) (silent_attach _ _) (fun _ _ => ?_)
  refine lockstep_repeatWhile (looks_atKind _) (fun _ _ => ?_) () ()
  refine lockstep_take.bind (fun _ _ => ((lockstep_element h).bind (fun _ _ => ?_)).loose)
  exact lockstep_silent (silent_attach _ _) (silent_attach _ _)

theorem lockstep_arrayLiteral : Lockstep 1 (Grammar.arrayLiteral inner) (Grammar.arrayLiteral inner) := by
  unfold Grammar.arrayLiteral
  refine lockstep_silent_bind silent_location silent_location (fun start start' => ?_)
  refine lockstep_expect.bind (fun _ _ => ?_)
  refine lockstep_silent_bind (silent_openNode _ _) (silent_openNode _ _) (fun array array' => ?_)
  refine lockstep_look_bind (looks_atKind _) (fun o => ?_)
  refine lockstep_opt (lockstep_elements h array array').loose ?_
  refine lockstep_look_bind (looks_atKind _) (fun o => ?_)
  split
  · exact (lockstep_take.bind (fun _ _ => lockstep_pure)).loose
  · exact lockstep_unterminatedArray

/-! ## Declarations -/

theorem lockstep_nameWithType (what : String) : Lockstep 1 (nameWithType inner what) (nameWithType inner what) := by
  unfold nameWithType
  refine lockstep_identifier.bind (fun name name' => ?_)
  refine (lockstep_expect.bind (fun _ _ => ?_)).loose
  exact ((h.rule .typeDeclaration).bind (fun _ _ => lockstep_pure)).loose

theorem lockstep_typedNode (what : String) (payload : String → String → Payload) :
    Lockstep 1 (typedNode inner what payload) (typedNode inner what payload) := by
  unfold typedNode
  refine lockstep_silent_bind silent_location silent_location (fun start start' => ?_)
  exact (lockstep_nameWithType h what).bind (fun _ _ => lockstep_silent (silent_openNode _ _) (silent_openNode _ _))

theorem lockstep_variableDefinition : Lockstep 1 (variableDefinition inner) (variableDefinition inner) :=
  lockstep_typedNode h _ _

theorem lockstep_param : Lockstep 1 (param inner) (param inner) :=
  lockstep_typedNode h _ _

theorem lockstep_superclass : Lockstep 0 (Grammar.superclass inner) (Grammar.superclass inner) := by
  unfold Grammar.superclass
  refine lockstep_look_bind (looks_atKeyword _) (fun o => ?_)
  split
  · exact (lockstep_take.bind (fun _ _ => ((h.rule .typeDeclaration).bind (fun _ _ => lockstep_pure)).loose)).loose
  · exact lockstep_pure

theorem lockstep_memberVariables (owner owner' : NodeId) :
    Lockstep 0 (memberVariables inner owner) (memberVariables inner owner') := by
  unfold memberVariables
  refine lockstep_repeatWhile looks_inBlock (fun _ _ => ?_) () ()
  refine (h.rule .variableDefinition).bind (fun member member' => ?_)
  exact (lockstep_expect.bind (fun _ _ => lockstep_silent (silent_attach _ _) (silent_attach _ _))).loose

omit h in
theorem lockstep_visibility : Lockstep 0 visibility visibility := by
  unfold visibility
  refine lockstep_look_bind looks_look (fun o => ?_)
  split
  · exact lockstep_pure
  · exact lockstep_pure
  · exact lockstep_failFound

theorem lockstep_scopeBlock : Lockstep 1 (scopeBlock inner) (scopeBlock inner) := by
  unfold scopeBlock
  refine lockstep_silent_bind silent_location silent_location (fun start start' => ?_)
  refine lockstep_visibility.bind_right (fun seen seen' => ?_)
  refine lockstep_take.bind (fun _ _ => ?_)
  refine lockstep_silent_bind (silent_openNode _ _) (silent_openNode _ _) (fun scope scope' => ?_)
  refine (lockstep_expect.bind (fun _ _ => ?_)).loose
  refine (lockstep_memberVariables h scope scope').bind (fun _ _ => ?_)
  exact (lockstep_expect.bind (fun _ _ => lockstep_pure)).loose

theorem lockstep_recordBlock : Lockstep 1 (recordBlock inner) (recordBlock inner) := by
  unfold recordBlock
  refine lockstep_silent_bind silent_location silent_location (fun start start' => ?_)
  refine lockstep_expectKeyword.bind (fun _ _ => ?_)
  refine (lockstep_identifier.bind (fun name name' => ?_)).loose
  refine (lockstep_superclass h).bind (fun parent parent' => ?_)
  refine lockstep_silent_bind (silent_openNode _ _) (silent_openNode _ _) (fun record record' => ?_)
  refine (lockstep_expect.bind (fun _ _ => ?_)).loose
  refine (lockstep_memberVariables h record record').bind (fun _ _ => ?_)
  exact (lockstep_expect.bind (fun _ _ => lockstep_pure)).loose

theorem lockstep_classMember : Lockstep 1 (Grammar.classMember inner) (Grammar.classMember inner) := by
  unfold Grammar.classMember
  refine lockstep_look_bind looks_look (fun o => ?_)
  split
  · exact h.rule .scopeBlock
  · exact h.rule .scopeBlock
  · exact (h.rule .flags).bind (fun _ _ => (h.rule .messageBlock).loose)
  · exact h.rule .messageBlock
  · exact lockstep_failFound

theorem lockstep_classBlock : Lockstep 1 (classBlock inner) (classBlock inner) := by
  unfold classBlock
  refine lockstep_silent_bind silent_location silent_location (fun start start' => ?_)
  refine lockstep_expectKeyword.bind (fun _ _ => ?_)
  refine (lockstep_identifier.bind (fun name name' => ?_)).loose
  refine (lockstep_superclass h).bind (fun parent parent' => ?_)
  refine lockstep_silent_bind (silent_openNode _ _) (silent_openNode _ _) (fun node node' => ?_)
  refine (lockstep_expect.bind (fun _ _ => ?_)).loose
  refine (lockstep_repeatWhile looks_inBlock (fun _ _ => ?_) () ()).bind (fun _ _ => ?_)
  · exact (lockstep_classMember h).bind (fun _ _ => lockstep_silent (silent_attach _ _) (silent_attach _ _))
  · exact (lockstep_expect.bind (fun _ _ => lockstep_pure)).loose

theorem lockstep_params (declaration declaration' : NodeId) :
    Lockstep 1 (params inner declaration) (params inner declaration') := by
  unfold params
  refine (h.rule .param).bind (fun node node' => ?_)
  refine lockstep_silent_bind (silent_attach _ _) (silent_attach _ _) (fun _ _ => ?_)
  refine lockstep_repeatWhile (looks_atKind _) (fun _ _ => ?_) () ()
  refine lockstep_take.bind (fun _ _ => ((h.rule .param).bind (fun _ _ => ?_)).loose)
  exact lockstep_silent (silent_attach _ _) (silent_attach _ _)

theorem lockstep_paramList (declaration declaration' : NodeId) :
    Lockstep 0 (paramList inner declaration) (paramList inner declaration') := by
  have hparams := lockstep_params h declaration declaration'
  unfold paramList
  refine lockstep_look_bind looks_look (fun o => ?_)
  split
  · exact (lockstep_take.bind (fun _ _ => hparams.loose)).loose
  · refine (lockstep_take.bind (fun _ _ => ?_)).loose
    refine lockstep_look_bind (looks_atKind _) (fun o => ?_)
    exact lockstep_opt hparams.loose (lockstep_expect.bind (fun _ _ => lockstep_pure)).loose
  · exact lockstep_pure

theorem lockstep_messageDeclaration : Lockstep 1 (messageDeclaration inner) (messageDeclaration inner) := by
  unfold messageDeclaration
  refine lockstep_silent_bind silent_location silent_location (fun start start' => ?_)
  refine lockstep_expectKeyword.bind (fun _ _ => ?_)
  refine lockstep_look_bind (looks_atKind _) (fun o => ?_)
  refine lockstep_ite lockstep_identifier.map.loose lockstep_pure (fun name name' => ?_)
  refine lockstep_silent_bind (silent_openNode _ _) (silent_openNode _ _) (fun declaration declaration' => ?_)
  refine (lockstep_paramList h declaration declaration').bind (fun _ _ => ?_)
  refine lockstep_look_bind (looks_atKind _) (fun o => ?_)
  split
  · refine ((h.rule .returnType).bind (fun _ _ => ?_)).loose
    exact lockstep_silent_bind (silent_attach _ _) (silent_attach _ _) (fun _ _ => lockstep_pure)
  · exact lockstep_pure

theorem lockstep_messageBlock : Lockstep 1 (messageBlock inner) (messageBlock inner) := by
  unfold messageBlock
  refine lockstep_silent_bind silent_location silent_location (fun start start' => ?_)
  refine lockstep_silent_bind (silent_openNode _ _) (silent_openNode _ _) (fun block block' => ?_)
  refine (h.rule .messageDeclaration).bind (fun declaration declaration' => ?_)
  refine lockstep_silent_bind (silent_attach _ _) (silent_attach _ _) (fun _ _ => ?_)
  refine (lockstep_expect.bind (fun _ _ => ?_)).loose
  refine (h.rule .statements).bind (fun statements statements' => ?_)
  refine lockstep_silent_bind (silent_attach _ _) (silent_attach _ _) (fun _ _ => ?_)
  exact (lockstep_expect.bind (fun _ _ => lockstep_pure)).loose

omit h in
theorem lockstep_separated {α : Type} {item item' : Parser α} (hitem : Lockstep 1 item item') :
    Lockstep 1 (separated item) (separated item') := by
  unfold separated
  refine hitem.bind (fun first first' => ?_)
  refine lockstep_repeatWhile (looks_atKind _) (fun items items' => ?_) [first] [first']
  exact lockstep_take.bind (fun _ _ => (hitem.bind (fun _ _ => lockstep_pure)).loose)

omit h in
/-- Items with commas between them pass what the first of them begins with. -/
theorem clears_separated {α : Type} {item : Parser α} (hitem : Lockstep 1 item item) {f : Form Symbol}
    (htakes : ∀ u v, Spells f u → Unlike .dot v → Takes Deep item u v) (hf : ∀ c ∈ f.terminals, c.isComment = false)
    {c x : List Token} (hc : Starts f c) {s : ParserState} (hsaved : s.stream.saved = none) (hs : s.significant = c ++ x) :
    Clears 1 (separated item) x s := by
  obtain ⟨y, hy⟩ := hc
  have hw : Spells (.commaList f) ((c ++ y) ++ []) := .seq hy .starNil
  rw [List.append_nil] at hw
  have hrun : Takes Deep (separated item) (c ++ y) [(Terminal.kind .rightBracket).sample] :=
    takes_separated hw (fun u v hu _ hv => htakes u v hu hv) (next_cons.2 rfl)
  have hall : ∀ t ∈ (c ++ y) ++ [(Terminal.kind .rightBracket).sample], t.isComment = false :=
    List.forall_mem_append.2 ⟨isComment_of_derives hy hf, by decide⟩
  rw [List.append_assoc] at hall
  exact clears_of_takes (lockstep_separated hitem) hrun hall hsaved hs

theorem lockstep_returnPayload : Lockstep 1 (returnPayload inner) (returnPayload inner) := by
  have hfield : Lockstep 1 (returnField inner) (returnField inner) := lockstep_nameWithType h _
  have htype : Lockstep 1 (inner.parse .typeDeclaration) (inner.parse .typeDeclaration) := h.rule .typeDeclaration
  intro c x x' s s' hs
  refine LockstepAt.probe_if hs (probes_lookAhead _) (lockstep_separated hfield).map (lockstep_separated htype).map (fun hc hne => ?_)
  obtain ⟨t, ht, rfl⟩ := eq_name_of_behindKinds_ne hc hne
  refine ⟨Clears.map ?_, Clears.map ?_⟩
  · refine clears_separated hfield (fun u v hu hv => ?_) (by decide) (starts_typedName_of_kind ht) hs.saved hs.ahead
    exact takes_nameWithType hu (fun y hy _ => (h.accepts _).form rfl hy hv (Nat.lt_succ_self _)) _
  · refine clears_separated htype (fun u v hu hv => ?_) (by simp [Form.terminals]) (starts_typeName_of_kind ht) hs.saved hs.ahead
    exact (h.accepts _).form rfl hu hv (Nat.lt_succ_self _)

theorem lockstep_returnType : Lockstep 1 (returnType inner) (returnType inner) := by
  unfold returnType
  refine lockstep_silent_bind silent_location silent_location (fun start start' => ?_)
  refine lockstep_expect.bind (fun _ _ => ?_)
  refine ((lockstep_returnPayload h).bind (fun payload payload' => ?_)).loose
  refine lockstep_look_bind (looks_atKind _) (fun o => ?_)
  split
  · exact (lockstep_take.bind (fun _ _ => lockstep_silent (silent_openNode _ _) (silent_openNode _ _))).loose
  · exact lockstep_failFound

/-! ## Expressions -/

theorem lockstep_primary : Lockstep 1 (primary inner) (primary inner) := by
  unfold primary
  refine lockstep_look_bind looks_look (fun o => ?_)
  split
  · exact h.rule .groupedExpression
  · exact h.rule .arrayLiteral
  · exact h.rule .inst
  · exact h.rule .literal
  · exact h.rule .messageBlock
  · exact h.rule .inst
  · exact h.rule .inst
  · split
    · exact h.rule .literal
    · exact lockstep_failFound
  · exact lockstep_failFound

theorem lockstep_expression : Lockstep 1 (Grammar.expression inner) (Grammar.expression inner) := by
  unfold Grammar.expression
  refine lockstep_look_bind (looks_atKeyword _) (fun o => ?_)
  split
  · exact h.rule .returnExpression
  · refine (lockstep_primary h).bind (fun value value' => ?_)
    refine lockstep_look_bind looks_startsMessage (fun o => ?_)
    split
    · exact (h.sent value value').loose
    · exact lockstep_pure

theorem lockstep_argument : Lockstep 1 (Grammar.argument inner) (Grammar.argument inner) := by
  unfold Grammar.argument
  refine lockstep_look_bind (looks_atKeyword _) (fun o => ?_)
  split
  · exact lockstep_fail
  · exact h.rule .expression

theorem lockstep_returned : Lockstep 0 (returned inner) (returned inner) := by
  unfold returned
  refine lockstep_look_bind (looks_atKind _) (fun o => ?_)
  split
  · exact lockstep_silent_bind silent_location silent_location (fun _ _ => lockstep_silent (silent_openNode _ _) (silent_openNode _ _))
  · exact (h.rule .argument).loose

theorem lockstep_returnExpression : Lockstep 1 (Grammar.returnExpression inner) (Grammar.returnExpression inner) := by
  unfold Grammar.returnExpression
  refine lockstep_silent_bind silent_location silent_location (fun start start' => ?_)
  refine lockstep_expectKeyword.bind (fun _ _ => ?_)
  refine lockstep_silent_bind (silent_openNode _ _) (silent_openNode _ _) (fun node node' => ?_)
  refine (lockstep_returned h).bind (fun value value' => ?_)
  exact lockstep_silent_bind (silent_attach _ _) (silent_attach _ _) (fun _ _ => lockstep_pure)

theorem lockstep_groupedExpression : Lockstep 1 (groupedExpression inner) (groupedExpression inner) := by
  unfold groupedExpression
  refine lockstep_silent_bind silent_location silent_location (fun start start' => ?_)
  refine lockstep_expect.bind (fun _ _ => ?_)
  refine lockstep_silent_bind (silent_openNode _ _) (silent_openNode _ _) (fun group group' => ?_)
  refine ((h.rule .expression).bind (fun node node' => ?_)).loose
  refine lockstep_silent_bind (silent_attach _ _) (silent_attach _ _) (fun _ _ => ?_)
  exact (lockstep_expect.bind (fun _ _ => lockstep_pure)).loose

theorem lockstep_message : Lockstep 1 (Grammar.message inner) (Grammar.message inner) := by
  unfold Grammar.message
  refine lockstep_silent_bind silent_location silent_location (fun start start' => ?_)
  refine lockstep_look_bind looks_look (fun o => ?_)
  split
  · split
    · refine lockstep_identifier.bind (fun name name' => ?_)
      refine lockstep_silent_bind (silent_openNode _ _) (silent_openNode _ _) (fun node node' => ?_)
      refine Lockstep.bind ?_ (fun _ _ => lockstep_pure)
      refine lockstep_repeatWhile (looks_atKind _) (fun _ _ => ?_) () ()
      refine lockstep_take.bind (fun _ _ => ((h.rule .argument).bind (fun _ _ => ?_)).loose)
      exact lockstep_silent (silent_attach _ _) (silent_attach _ _)
    · split
      · refine lockstep_take.bind (fun operator operator' => ?_)
        refine lockstep_silent_bind (silent_openNode _ _) (silent_openNode _ _) (fun node node' => ?_)
        refine ((h.rule .argument).bind (fun _ _ => ?_)).loose
        exact lockstep_silent_bind (silent_attach _ _) (silent_attach _ _) (fun _ _ => lockstep_pure)
      · exact lockstep_failFound
  · exact lockstep_failFound

theorem lockstep_sendMessage (receiver receiver' : NodeId) :
    Lockstep 1 (Grammar.sendMessage inner receiver) (Grammar.sendMessage inner receiver') := by
  unfold Grammar.sendMessage
  refine lockstep_silent_bind (silent_nodeLocation _) (silent_nodeLocation _) (fun l l' => ?_)
  refine lockstep_silent_bind (silent_openNode _ _) (silent_openNode _ _) (fun send send' => ?_)
  refine (h.rule .message).bind (fun message message' => ?_)
  refine lockstep_silent_bind (silent_attach _ _) (silent_attach _ _) (fun _ _ => ?_)
  exact lockstep_silent_bind (silent_attach _ _) (silent_attach _ _) (fun _ _ => lockstep_pure)

/-! ## Statements -/

theorem lockstep_assignment : Lockstep 1 (Grammar.assignment inner) (Grammar.assignment inner) := by
  unfold Grammar.assignment
  refine lockstep_silent_bind silent_location silent_location (fun start start' => ?_)
  refine lockstep_silent_bind (silent_openNode _ _) (silent_openNode _ _) (fun node node' => ?_)
  intro c x x' s s' hs
  refine LockstepAt.probe_ite hs (probes_lookAhead _) (h.rule .variableDefinition) (h.rule .inst) (fun target target' => ?_)
    (fun hc hne => ?_)
  · refine (lockstep_expect.bind (fun operator operator' => ?_)).loose
    refine lockstep_silent_bind (silent_openNode _ _) (silent_openNode _ _) (fun message message' => ?_)
    refine ((h.rule .argument).bind (fun value value' => ?_)).loose
    refine lockstep_silent_bind (silent_attach _ _) (silent_attach _ _) (fun _ _ => ?_)
    refine lockstep_silent_bind (silent_attach _ _) (silent_attach _ _) (fun _ _ => ?_)
    exact lockstep_silent_bind (silent_attach _ _) (silent_attach _ _) (fun _ _ => lockstep_pure)
  · obtain ⟨t, ht, rfl⟩ := eq_name_of_behindKinds_ne hc hne
    have hname : Spells (.symbol .inst) [t] := spells_inst_of_typeName (spells_typeName.2 ⟨t, [], ht, .starNil, rfl⟩)
    refine ⟨clears_of_heads h.accepts hs.saved hs.ahead (h.rule .variableDefinition) (.definition (starts_typedName_of_kind ht)), ?_⟩
    exact clears_of_name h.accepts hs.saved hs.ahead (h.rule .inst) rfl hname (by simp [Rule.Precedes, Unlike]) (isComment_of_spells hname)

theorem lockstep_namedStatement : Lockstep 1 (namedStatement inner) (namedStatement inner) := by
  have hrule : ∀ v, Lockstep 1 (inner.parse (choiceOf v)) (inner.parse (choiceOf v)) := by
    intro v
    unfold choiceOf
    split
    · exact h.rule .variableDefinition
    · split
      · exact h.rule .assignment
      · split
        · exact h.rule .assignment
        · exact h.rule .expression
  intro c x x' s s' hs
  refine LockstepAt.choice (f := fun r => inner.parse r) (g := fun r => inner.parse r) hs (fun _ => namedStatement_eq)
    (fun _ => namedStatement_eq) hrule (fun hc hne => ?_)
  exact clears_of_heads h.accepts hs.saved hs.ahead (hrule _) (heads_of_choiceOf_ne hc hne)

theorem lockstep_closedStatement : Lockstep 1 (closedStatement inner) (closedStatement inner) := by
  unfold closedStatement
  refine lockstep_look_bind (looks_atKind _) (fun o => ?_)
  exact lockstep_ite (lockstep_namedStatement h) (h.rule .expression)
    (fun _ _ => (lockstep_expect.bind (fun _ _ => lockstep_pure)).loose)

theorem lockstep_statement : Lockstep 1 (Grammar.statement inner) (Grammar.statement inner) := by
  unfold Grammar.statement
  refine lockstep_look_bind looks_look (fun o => ?_)
  split
  · exact h.rule .classBlock
  · exact h.rule .recordBlock
  · exact lockstep_closedStatement h

theorem lockstep_statements : Lockstep 0 (statements inner) (statements inner) := by
  unfold statements
  refine lockstep_silent_bind silent_location silent_location (fun start start' => ?_)
  refine lockstep_silent_bind (silent_openNode _ _) (silent_openNode _ _) (fun block block' => ?_)
  refine (lockstep_repeatWhile looks_inBlock (fun _ _ => ?_) () ()).bind (fun _ _ => lockstep_pure)
  exact (h.rule .statement).bind (fun _ _ => lockstep_silent (silent_attach _ _) (silent_attach _ _))

/-! ## Units -/

omit h in
theorem lockstep_flagName : Lockstep 1 flagName flagName := by
  unfold flagName
  refine lockstep_look_bind looks_look (fun o => ?_)
  split
  · exact lockstep_take
  · exact lockstep_take
  · exact lockstep_failFound

omit h in
theorem lockstep_flag (fs fs' : List String) : Lockstep 1 (flag fs) (flag fs') := by
  unfold flag
  refine lockstep_flagName.bind (fun name name' => ?_)
  unfold flagEnd
  refine lockstep_look_bind looks_look (fun o => ?_)
  split
  · exact (lockstep_take.bind (fun _ _ => lockstep_pure)).loose
  · exact lockstep_pure
  · exact lockstep_failFound

omit h in
theorem lockstep_flagList : Lockstep 0 flagList flagList := by
  unfold flagList
  refine lockstep_look_bind (looks_atKind _) (fun o => ?_)
  split
  · refine (lockstep_take.bind (fun _ _ => ?_)).loose
    refine (lockstep_repeatWhile ((looks_atKind .rightBracket).map not) lockstep_flag [] []).bind (fun fs fs' => ?_)
    exact (lockstep_take.bind (fun _ _ => lockstep_pure)).loose
  · exact lockstep_pure

omit h in
theorem lockstep_flags : Lockstep 1 Grammar.flags Grammar.flags := by
  unfold Grammar.flags
  refine lockstep_expect.bind (fun _ _ => ?_)
  exact lockstep_flagList.bind (fun fs fs' => lockstep_silent (silent_keepFlags fs) (silent_keepFlags fs'))

theorem lockstep_blockBody (owner owner' : NodeId) :
    Lockstep 0 (Grammar.blockBody inner owner) (Grammar.blockBody inner owner') := by
  unfold Grammar.blockBody
  refine lockstep_look_bind (looks_atKeyword _) (fun o => ?_)
  split
  · refine (lockstep_repeatWhile (looks_atKeyword _) (fun _ _ => ?_) () ()).bind (fun _ _ => ?_)
    · exact (h.rule .namespaceBlock).bind (fun _ _ => lockstep_silent (silent_attach _ _) (silent_attach _ _))
    · refine lockstep_look_bind looks_inBlock (fun o => ?_)
      split
      · exact lockstep_failFound
      · exact lockstep_pure
  · exact (h.rule .statements).bind (fun _ _ => lockstep_silent (silent_attach _ _) (silent_attach _ _))

theorem lockstep_namespaceBlock : Lockstep 1 (Grammar.namespaceBlock inner) (Grammar.namespaceBlock inner) := by
  unfold Grammar.namespaceBlock
  refine lockstep_silent_bind silent_location silent_location (fun start start' => ?_)
  refine lockstep_expectKeyword.bind (fun _ _ => ?_)
  refine (lockstep_identifier.bind (fun name name' => ?_)).loose
  refine lockstep_silent_bind (silent_openNode _ _) (silent_openNode _ _) (fun node node' => ?_)
  refine (lockstep_expect.bind (fun _ _ => ?_)).loose
  refine (lockstep_blockBody h node node').bind (fun _ _ => ?_)
  exact (lockstep_expect.bind (fun _ _ => lockstep_pure)).loose

theorem lockstep_codeFragment : Lockstep 1 (Grammar.codeFragment inner) (Grammar.codeFragment inner) := by
  unfold Grammar.codeFragment
  refine lockstep_silent_bind silent_location silent_location (fun start start' => ?_)
  refine lockstep_look_bind (looks_atKind _) (fun o => ?_)
  refine lockstep_opt (h.rule .flags).loose ?_
  refine lockstep_silent_bind (silent_openNode _ _) (silent_openNode _ _) (fun fragment fragment' => ?_)
  refine lockstep_expect.bind (fun _ _ => ?_)
  refine (lockstep_blockBody h fragment fragment').bind (fun _ _ => ?_)
  exact (lockstep_expect.bind (fun _ _ => lockstep_pure)).loose

omit h in
theorem lockstep_moduleVersion : Lockstep 0 moduleVersion moduleVersion := by
  unfold moduleVersion
  refine lockstep_look_bind (looks_atKind _) (fun o => ?_)
  split
  · refine (lockstep_take.bind (fun _ _ => ?_)).loose
    refine lockstep_look_bind looks_look (fun o => ?_)
    split
    · exact (lockstep_take.bind (fun _ _ => lockstep_pure)).loose
    · exact (lockstep_take.bind (fun _ _ => lockstep_pure)).loose
    · exact (lockstep_take.bind (fun _ _ => lockstep_pure)).loose
    · exact lockstep_failFound
  · exact lockstep_pure

theorem lockstep_moduleBlock : Lockstep 1 (Grammar.moduleBlock inner) (Grammar.moduleBlock inner) := by
  unfold Grammar.moduleBlock
  refine lockstep_silent_bind silent_location silent_location (fun start start' => ?_)
  refine lockstep_expectKeyword.bind (fun _ _ => ?_)
  refine (lockstep_identifier.bind (fun name name' => ?_)).loose
  refine lockstep_moduleVersion.bind (fun _ _ => ?_)
  refine lockstep_silent_bind (silent_openNode _ _) (silent_openNode _ _) (fun node node' => ?_)
  refine (lockstep_expect.bind (fun _ _ => ?_)).loose
  refine ((h.rule .codeFragment).bind (fun fragment fragment' => ?_)).loose
  refine lockstep_silent_bind (silent_attach _ _) (silent_attach _ _) (fun _ _ => ?_)
  exact (lockstep_expect.bind (fun _ _ => lockstep_pure)).loose

theorem lockstep_unit : Lockstep 1 (Grammar.unit inner) (Grammar.unit inner) := by
  have hblock : Lockstep 1 (unitBlock inner) (unitBlock inner) := by
    unfold unitBlock
    refine lockstep_look_bind looks_look (fun o => ?_)
    split
    · exact h.rule .codeFragment
    · exact h.rule .codeFragment
    · exact h.rule .moduleBlock
    · exact lockstep_fail
    · exact lockstep_fail
    · exact lockstep_fail
    · exact lockstep_failFound
  unfold Grammar.unit
  refine hblock.bind (fun root root' => ?_)
  refine lockstep_look_bind looks_current? (fun o => ?_)
  split
  · exact lockstep_failFound
  · exact lockstep_pure

/-! ## Rules -/

/-- Every production keeps pace, if the productions inside it do. -/
theorem lockstep_body {α : Type} (r : Rule α) : Lockstep r.least (r.body inner) (r.body inner) := by
  cases r with
  | unit => exact lockstep_unit h
  | codeFragment => exact lockstep_codeFragment h
  | flags => exact lockstep_flags
  | moduleBlock => exact lockstep_moduleBlock h
  | namespaceBlock => exact lockstep_namespaceBlock h
  | statements => exact lockstep_statements h
  | statement => exact lockstep_statement h
  | classBlock => exact lockstep_classBlock h
  | scopeBlock => exact lockstep_scopeBlock h
  | recordBlock => exact lockstep_recordBlock h
  | messageBlock => exact lockstep_messageBlock h
  | messageDeclaration => exact lockstep_messageDeclaration h
  | param => exact lockstep_param h
  | returnType => exact lockstep_returnType h
  | typeDeclaration => exact lockstep_typeDeclaration
  | variableDefinition => exact lockstep_variableDefinition h
  | assignment => exact lockstep_assignment h
  | expression => exact lockstep_expression h
  | returnExpression => exact lockstep_returnExpression h
  | groupedExpression => exact lockstep_groupedExpression h
  | sendMessage receiver => exact lockstep_sendMessage h receiver receiver
  | message => exact lockstep_message h
  | argument => exact lockstep_argument h
  | literal => exact lockstep_literal
  | arrayLiteral => exact lockstep_arrayLiteral h
  | inst => exact lockstep_inst

end

/-- Whatever the room is, every rule keeps pace. -/
theorem paced_parse (room : Nat) : Paced ⟨fun r => Rule.parse room r⟩ := by
  induction room with
  | zero => exact ⟨fun n => accepts_parse 0 n, fun _ => lockstep_fail, fun _ _ => lockstep_fail⟩
  | succ room ih =>
    exact ⟨fun n => accepts_parse (room + 1) n, fun r => (lockstep_body ih r).guarded,
      fun receiver receiver' => (lockstep_sendMessage ih receiver receiver').guarded⟩

end Syntax

end Courier
