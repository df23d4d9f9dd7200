import Courier.Proofs.Tree.Productions
import Courier.Proofs.Tree.Spread

/-!
# What the productions take up

The node of a rule begins at the token where its production does, but for a send, which begins with its receiver. It is on no more levels
than the room there is for nested productions, and a few more (`Rule.slack`): each production adds a level, and what adds one besides, the
message of an assignment, the nil of a bare return or a send around its receiver, is made where a production inside it would stand. Each
production does so if the productions inside it do (`Inner.Spans`).
-/

namespace Courier

/-- How many tokens the production of a rule takes, at least, behind those of its nodes: fragments and modules end with a brace. -/
def Rule.margin {α : Type} : Rule α → Nat
  | .unit | .codeFragment | .moduleBlock => 1
  | _ => 0

/-- How many levels the nodes of a rule may be on beyond its room. A unit and an argument add none of their own; a send is a level above its
receiver, which is one above the room already. -/
def Rule.slack {α : Type} : Rule α → Nat
  | .unit | .argument => 0
  | .sendMessage _ => 2
  | _ => 1

/-- The node of a rule begins where the parser is, or where the node that the rule is handed does. That one has ended. -/
structure Rule.Ready {α : Type} (rule : Rule α) (made : List (NodeId × Extent)) (room k start : Nat) : Prop where
  alone (h : rule.uses = []) : start = k
  handed {node : NodeId} (h : node ∈ rule.uses) :
    ∃ e, (node, e) ∈ made ∧ start ≤ e.start ∧ e.start < k ∧ e.stop ≤ k ∧ e.height ≤ room + 1

/-- The parsers inside a production, where there is so much room, make nodes that begin where they should and end where the parser is. -/
structure Inner.Spans (x : Script) (room : Nat) (inner : Inner) : Prop where
  lays {α : Type} (rule : Rule α) {opened : List Sketch} {made : List (NodeId × Extent)} {k start : Nat}
      (h : rule.Ready made room k start) : Parser.Builds (Parser.Spread x opened made k) (inner.parse rule)
        (fun a => Parser.Lays x opened made start (room + rule.slack) rule.margin rule.least (rule.makes a))

namespace Parser

open Courier.Grammar

section

variable {x : Script} {opened : List Sketch} {made : List (NodeId × Extent)} {owner : NodeId} {k start height least : Nat}

theorem toNat_isContainer_lt (kind : Kind) (room : Nat) : kind.isContainer.toNat < room + 2 := by
  have hle := Bool.toNat_le kind.isContainer
  omega

/-! ## Names, types and literals -/

theorem moves_dottedRest (what name : String) : Moves x 0 (dottedRest what name) := by
  unfold dottedRest
  refine moves_repeatWhile (looks_atKind _) (fun name => ?_) name
  exact moves_take.bind_zero (fun _ => moves_identifier.bind_zero (fun _ => moves_pure _))

theorem moves_typeDeclaration : Moves x 1 typeDeclaration := by
  unfold typeDeclaration
  exact moves_identifier.bind (fun name => moves_dottedRest _ name)

theorem moves_instanceHead : Moves x 1 instanceHead := by
  unfold instanceHead
  refine moves_look_bind looks_look (fun next => ?_)
  split
  · exact moves_take.bind (fun _ => moves_pure _)
  · exact moves_take.bind (fun _ => moves_pure _)
  · exact moves_take.bind (fun _ => moves_pure _)
  · exact moves_failFound

theorem spans_inst (room : Nat) : Spans x made (room + 2) 1 Grammar.inst := by
  intro opened k
  unfold Grammar.inst
  refine spread_location.bind (fun start => builds_of_and ?_)
  rintro rfl
  refine moves_instanceHead.bind_builds (fun first k' hk => ?_)
  refine (moves_dottedRest _ first).bind_builds (fun name l hl => ?_)
  exact lays_leaf (by nofun) (toNat_isContainer_lt _ _) (Nat.le_trans hk hl)

theorem kind_ne_comment_of_literalPayload? {t : Token} {p : Payload} (h : literalPayload? t = some p) : p.kind ≠ .comment := by
  unfold literalPayload? at h
  split at h
  case h_7 =>
    split at h
    · obtain rfl := Option.some.inj h
      nofun
    · nomatch h
  case h_8 => nomatch h
  all_goals
    obtain rfl := Option.some.inj h
    nofun

theorem spans_literal (room : Nat) : Spans x made (room + 2) 1 Grammar.literal := by
  intro opened k
  unfold Grammar.literal
  refine spread_take.bind (fun t => builds_of_and (fun ht => ?_))
  rw [ht]
  split
  · rename_i p hp
    exact lays_leaf (kind_ne_comment_of_literalPayload? hp) (toNat_isContainer_lt _ _) (Nat.le_refl _)
  · exact builds_failAt

/-- A list with commas in it: each item is a child of the last sketch. -/
theorem growing_commas {item : Parser NodeId} (hitem : Spans x made (height + 1) 1 item) :
    Builds (Growing x opened made owner start (height + 2) k) (do
      attach owner (← item)
      repeatWhile (atKind .comma) (fun _ => do
        let _ ← take
        attach owner (← item)) ()) (fun _ => Growing x opened made owner start (height + 2) (k + 1)) := by
  refine growing_child_bind hitem (Nat.lt_succ_self _) ?_
  refine growing_repeatWhile (looks_atKind _) (Nat.le_add_right (k + 1) 2) ?_
  exact (growing_moves moves_take).bind (fun _ => growing_child hitem (Nat.lt_succ_self _))

/-! ## Arrays -/

variable {inner : Inner} {room : Nat} (h : inner.Spans x room)

include h

theorem builds_ready {α : Type} (rule : Rule α) (huses : rule.uses = []) : Builds (Spread x opened made k) (inner.parse rule)
    (fun a => Lays x opened made k (room + rule.slack) rule.margin rule.least (rule.makes a)) := by
  refine h.lays rule ⟨fun _ => rfl, fun hnode => ?_⟩
  rw [huses] at hnode
  nomatch hnode

/-- A rule that makes no node. -/
theorem moves_rule {α : Type} (rule : Rule α) (huses : rule.uses = []) (hmakes : ∀ a, rule.makes a = []) :
    Moves x rule.least (inner.parse rule) := by
  refine fun opened made k => (builds_ready h rule huses).mono ?_
  rintro a s ⟨e, k', ⟨hstart, hleast, -, -⟩, hs⟩
  rw [hmakes a] at hs
  exact ⟨k', by omega, hs⟩

/-- A rule that is handed no node and makes one. -/
theorem lays_rule (rule : Rule NodeId) (huses : rule.uses = []) (hmakes : ∀ a, rule.makes a = [a]) :
    Builds (Spread x opened made k) (inner.parse rule)
      (fun a => Lays x opened made k (room + rule.slack) rule.margin rule.least [a]) := by
  refine (builds_ready h rule huses).mono (fun a s hs => ?_)
  rw [hmakes a] at hs
  exact hs

theorem spans_rule (rule : Rule NodeId) (huses : rule.uses = []) (hmakes : ∀ a, rule.makes a = [a])
    (hheight : room + rule.slack ≤ height) (hleast : least ≤ rule.least) : Spans x made height least (inner.parse rule) :=
  fun _ _ => (lays_rule h rule huses hmakes).mono (fun _ _ hs => hs.mono (Nat.le_refl _) hheight (Nat.zero_le _) hleast)

theorem moves_typeName : Moves x 1 (inner.parse .typeDeclaration) :=
  moves_rule h .typeDeclaration rfl (fun _ => rfl)

theorem spans_element : Spans x made (room + 1) 1 (element inner) := by
  intro opened k
  have hinst : Spans x made (room + 1) 1 (inner.parse .inst) := spans_rule h .inst rfl (fun _ => rfl) (Nat.le_refl _) (Nat.le_refl _)
  have hliteral : Spans x made (room + 1) 1 (inner.parse .literal) :=
    spans_rule h .literal rfl (fun _ => rfl) (Nat.le_refl _) (Nat.le_refl _)
  unfold element
  refine (spread_looks looks_look).bind (fun next => ?_)
  split
  · exact hinst opened k
  · exact hliteral opened k
  · split
    · exact hliteral opened k
    · exact builds_failFound
  · exact builds_failFound

theorem spans_arrayLiteral : Spans x made (room + 2) 1 (Grammar.arrayLiteral inner) := by
  intro opened k
  have hclose : ∀ (start : Location) (array : NodeId), Builds (Growing x opened made array k (room + 2) (k + 1)) (do
      if ← atKind .rightBracket then
        let _ ← take
        return array
      else failAt start .unterminatedArray) (fun a => Lays x opened made k (room + 2) 0 1 [a]) := by
    intro start array
    refine (growing_looks (looks_atKind _)).bind (fun closed => ?_)
    split
    · exact (growing_moves moves_take).bind (fun _ => builds_pure (fun _ hs => hs.lays (Nat.le_succ _)))
    · exact builds_failAt
  unfold Grammar.arrayLiteral
  refine spread_location.bind (fun start => builds_of_and ?_)
  rintro rfl
  refine spread_expect.bind (fun _ => builds_of_and (fun _ => ?_))
  refine (growing_openNode (by nofun) (toNat_isContainer_lt _ room) (Nat.le_succ k) (Nat.le_refl _)).bind (fun array => ?_)
  refine (growing_looks (looks_atKind _)).bind (fun empty => ?_)
  dsimp only
  split
  · exact (growing_commas (spans_element h)).bind (fun _ => (hclose _ array).weaken (fun _ hs => hs.mono (Nat.le_succ _)))
  · exact hclose _ array

/-! ## Declarations -/

theorem moves_nameWithType (what : String) : Moves x 3 (nameWithType inner what) := by
  unfold nameWithType
  refine moves_identifier.bind (fun name => Moves.weaken ?_ (Nat.le_refl 2))
  exact moves_expect.bind (fun _ => (moves_typeName h).bind (fun typeName => moves_pure _))

theorem spans_typedNode (what : String) {payload : String → String → Payload}
    (hcode : ∀ name typeName, (payload name typeName).kind ≠ .comment) : Spans x made (room + 2) 1 (typedNode inner what payload) := by
  intro opened k
  unfold typedNode
  refine spread_location.bind (fun start => builds_of_and ?_)
  rintro rfl
  refine (moves_nameWithType h what).bind_builds (fun named k' hk => ?_)
  exact lays_leaf (hcode _ _) (toNat_isContainer_lt _ _) (by omega)

theorem spans_variableDefinition : Spans x made (room + 2) 1 (variableDefinition inner) :=
  spans_typedNode h _ (by nofun)

theorem spans_param : Spans x made (room + 2) 1 (param inner) :=
  spans_typedNode h _ (by nofun)

theorem moves_superclass : Moves x 0 (superclass inner) := by
  unfold superclass
  refine moves_look_bind (looks_atKeyword _) (fun inherits => ?_)
  split
  · exact moves_take.bind_zero (fun _ => (moves_typeName h).bind_zero (fun typeName => moves_pure _))
  · exact moves_pure _

/-- A member goes to its block when the semicolon behind it is taken. -/
theorem growing_memberVariables : Builds (Growing x opened made owner start (room + 2) k) (memberVariables inner owner)
    (fun _ => Growing x opened made owner start (room + 2) k) := by
  have hmember : Spans x made (room + 1) 1 (inner.parse .variableDefinition) :=
    spans_rule h .variableDefinition rfl (fun _ => rfl) (Nat.le_refl _) (Nat.le_refl _)
  unfold memberVariables
  refine growing_repeatWhile looks_inBlock (Nat.le_refl k) (builds_of_exists (fun k' hk => ?_))
  refine (hmember _ k').bind (fun member => builds_of_lays (fun e l hstart hleast hstop hheight => ?_))
  refine spread_expect.bind (fun _ => builds_of_and (fun _ => ?_))
  exact growing_attach hstart hstart (by omega) (by omega) (by omega) (by omega)

omit h in
theorem moves_visibility : Moves x 0 visibility := by
  unfold visibility
  refine moves_look_bind looks_look (fun next => ?_)
  split
  · exact moves_pure _
  · exact moves_pure _
  · exact moves_failFound

/-- The end of a block whose members are variables with types. -/
theorem growing_members (hstart : start < k) : Builds (Growing x opened made owner start (room + 2) k) (do
      let _ ← expect .leftBrace "'\x7b'"
      memberVariables inner owner
      let _ ← expect .rightBrace "'\x7d'"
      return owner) (fun a => Lays x opened made start (room + 2) 0 1 [a]) := by
  refine (growing_moves moves_expect).bind (fun _ => ?_)
  refine (growing_memberVariables h).bind (fun _ => ?_)
  exact (growing_moves moves_expect).bind (fun _ => builds_pure (fun _ hs => hs.lays (by omega)))

theorem spans_scopeBlock : Spans x made (room + 2) 1 (scopeBlock inner) := by
  intro opened k
  unfold scopeBlock
  refine spread_location.bind (fun start => builds_of_and ?_)
  rintro rfl
  refine moves_visibility.bind_builds (fun seen k' hk => ?_)
  refine spread_take.bind (fun _ => builds_of_and (fun _ => ?_))
  have hlt : k < k' + 1 := Nat.lt_succ_of_le hk
  refine (growing_openNode (by nofun) (toNat_isContainer_lt _ room) (Nat.le_of_lt hlt) (Nat.le_refl _)).bind (fun scope => ?_)
  exact growing_members h hlt

theorem spans_recordBlock : Spans x made (room + 2) 1 (recordBlock inner) := by
  intro opened k
  unfold recordBlock
  refine spread_location.bind (fun start => builds_of_and ?_)
  rintro rfl
  refine spread_expectKeyword.bind (fun _ => ?_)
  refine spread_identifier.bind (fun name => ?_)
  refine (moves_superclass h).bind_builds (fun parent k' hk => ?_)
  have hlt : k < k' := Nat.lt_of_lt_of_le (by omega) hk
  refine (growing_openNode (by nofun) (toNat_isContainer_lt _ room) (Nat.le_of_lt hlt) (Nat.le_refl _)).bind (fun record => ?_)
  exact growing_members h hlt

/-- A member that has flags begins behind them. -/
theorem spans_classMember : Spans x made (room + 1) 1 (classMember inner) := by
  intro opened k
  have hscope : Spans x made (room + 1) 1 (inner.parse .scopeBlock) :=
    spans_rule h .scopeBlock rfl (fun _ => rfl) (Nat.le_refl _) (Nat.le_refl _)
  have hmessage : Spans x made (room + 1) 1 (inner.parse .messageBlock) :=
    spans_rule h .messageBlock rfl (fun _ => rfl) (Nat.le_refl _) (Nat.le_refl _)
  have hflags : Moves x 1 (inner.parse .flags) := moves_rule h .flags rfl (fun _ => rfl)
  unfold classMember
  refine (spread_looks looks_look).bind (fun next => ?_)
  split
  · exact hscope opened k
  · exact hscope opened k
  · refine hflags.bind_builds (fun _ k' hk => (hmessage opened k').mono (fun _ _ hs => ?_))
    exact hs.mono (Nat.le_of_succ_le hk) (Nat.le_refl _) (Nat.le_refl _) (Nat.le_refl _)
  · exact hmessage opened k
  · exact builds_failFound

theorem spans_classBlock : Spans x made (room + 2) 1 (classBlock inner) := by
  intro opened k
  unfold classBlock
  refine spread_location.bind (fun start => builds_of_and ?_)
  rintro rfl
  refine spread_expectKeyword.bind (fun _ => ?_)
  refine spread_identifier.bind (fun name => ?_)
  refine (moves_superclass h).bind_builds (fun parent k' hk => ?_)
  have hlt : k < k' := Nat.lt_of_lt_of_le (by omega) hk
  refine (growing_openNode (by nofun) (toNat_isContainer_lt _ room) (Nat.le_of_lt hlt) (Nat.le_refl _)).bind (fun node => ?_)
  refine (growing_moves moves_expect).bind (fun _ => ?_)
  refine (growing_repeatWhile looks_inBlock (Nat.le_succ _) (growing_child (spans_classMember h) (Nat.lt_succ_self _))).bind (fun _ => ?_)
  exact (growing_moves moves_expect).bind (fun _ => builds_pure (fun _ hs => hs.lays (by omega)))

omit h in
/-- A block whose nodes are finished is closed by a brace behind them. -/
theorem lays_brace {what : String} : Builds (Lays x opened made start height 0 least [owner]) (do
      let _ ← expect .rightBrace what
      return owner) (fun a => Lays x opened made start height 1 (least + 1) [a]) :=
  (lays_moves moves_expect).bind (fun _ => builds_pure (fun _ hs => hs))

/-- The statements may be none, and then they begin at the brace that ends the block. -/
theorem spans_messageBlock : Spans x made (room + 2) 1 (messageBlock inner) := by
  intro opened k
  unfold messageBlock
  refine spread_location.bind (fun start => builds_of_and ?_)
  rintro rfl
  refine (growing_openNode (by nofun) (toNat_isContainer_lt _ room) (Nat.le_refl k) (Nat.le_refl k)).bind (fun block => ?_)
  refine growing_child_bind (spans_rule h .messageDeclaration rfl (fun _ => rfl) (Nat.le_refl _) (Nat.le_refl _))
    (Nat.lt_succ_self _) ?_
  refine (growing_moves moves_expect).bind (fun _ => ?_)
  refine growing_last_bind (spans_rule h .statements rfl (fun _ => rfl) (Nat.le_refl _) (Nat.le_refl _)) (Nat.lt_succ_self _)
    (Nat.le_succ (k + 1)) ?_
  exact lays_brace.mono (fun _ _ hs => hs.mono (Nat.le_refl _) (Nat.le_refl _) (Nat.zero_le _) (Nat.le_succ 1))

theorem growing_params : Builds (Growing x opened made owner start (room + 2) k) (params inner owner)
    (fun _ => Growing x opened made owner start (room + 2) (k + 1)) :=
  growing_commas (spans_rule h .param rfl (fun _ => rfl) (Nat.le_refl _) (Nat.le_refl _))

theorem growing_paramList : Builds (Growing x opened made owner start (room + 2) k) (paramList inner owner)
    (fun _ => Growing x opened made owner start (room + 2) k) := by
  have hclose : Builds (Growing x opened made owner start (room + 2) (k + 1)) (do
      let _ ← expect .rightParen "')' after parameters"
      return ()) (fun _ => Growing x opened made owner start (room + 2) k) :=
    (growing_moves moves_expect).bind (fun _ => builds_pure (fun _ hs => hs.mono (by omega)))
  unfold paramList
  refine (growing_looks looks_look).bind (fun next => ?_)
  split
  · refine (growing_moves moves_take).bind (fun _ => ?_)
    exact (growing_params h).mono (fun _ _ hs => hs.mono (by omega))
  · refine (growing_moves moves_take).bind (fun _ => ?_)
    refine (growing_looks (looks_atKind _)).bind (fun empty => ?_)
    dsimp only
    split
    · exact (growing_params h).bind (fun _ => hclose.weaken (fun _ hs => hs.mono (Nat.le_succ _)))
    · exact hclose
  · exact builds_pure (fun _ hs => hs)

theorem spans_messageDeclaration : Spans x made (room + 2) 1 (messageDeclaration inner) := by
  intro opened k
  have hrest : ∀ (name : Option String) (k' : Nat), k < k' → Builds (Spread x opened made k') (do
      let declaration ← openNode (.messageDeclaration name) (x.place k)
      paramList inner declaration
      if ← atKind .leftBracket then attach declaration (← inner.parse .returnType)
      return declaration) (fun a => Lays x opened made k (room + 2) 0 1 [a]) := by
    intro name k' hlt
    refine (growing_openNode (by nofun) (toNat_isContainer_lt _ room) (Nat.le_of_lt hlt) (Nat.le_refl k')).bind (fun declaration => ?_)
    refine (growing_paramList h).bind (fun _ => ?_)
    refine (growing_looks (looks_atKind _)).bind (fun returns => ?_)
    dsimp only
    split
    · refine growing_child_bind (spans_rule h .returnType rfl (fun _ => rfl) (Nat.le_refl _) (Nat.le_refl _)) (Nat.lt_succ_self _) ?_
      exact builds_pure (fun _ hs => hs.lays (by omega))
    · exact builds_pure (fun _ hs => hs.lays hlt)
  have hname : Moves x 0 (some <$> identifier "message name") := (moves_identifier.map).weaken (Nat.zero_le 1)
  unfold messageDeclaration
  refine spread_location.bind (fun start => builds_of_and ?_)
  rintro rfl
  refine spread_expectKeyword.bind (fun _ => ?_)
  refine (spread_looks (looks_atKind _)).bind (fun named => ?_)
  dsimp only
  split
  · exact hname.bind_builds (fun name k' hk => hrest name k' hk)
  · exact (moves_pure _).bind_builds (fun name k' hk => hrest name k' hk)

omit h in
theorem moves_separated {α : Type} {item : Parser α} (hitem : Moves x 1 item) : Moves x 1 (separated item) := by
  unfold separated
  refine hitem.bind (fun first => moves_repeatWhile (looks_atKind _) (fun items => ?_) [first])
  exact moves_take.bind_zero (fun _ => hitem.bind_zero (fun next => moves_pure _))

theorem spans_returnType : Spans x made (room + 2) 1 (returnType inner) := by
  intro opened k
  have hclose : ∀ (p : Payload) (k' : Nat), p.kind ≠ .comment → k < k' → Builds (Spread x opened made k') (do
      if ← atKind .rightBracket then
        let _ ← take
        openNode p (x.place k)
      else failFound .unclosedReturnType) (fun a => Lays x opened made k (room + 2) 0 1 [a]) := by
    intro p k' hcode hlt
    refine (spread_looks (looks_atKind _)).bind (fun closed => ?_)
    split
    · refine spread_take.bind (fun _ => builds_of_and (fun _ => ?_))
      exact lays_leaf hcode (toNat_isContainer_lt _ _) (Nat.le_succ_of_le hlt)
    · exact builds_failFound
  unfold returnType
  refine spread_location.bind (fun start => builds_of_and ?_)
  rintro rfl
  refine spread_expect.bind (fun _ => builds_of_and (fun _ => ?_))
  unfold returnPayload
  rw [bind_assoc]
  refine (spread_probe (probes_lookAhead _)).bind (fun named => ?_)
  split
  · rw [bind_map_left]
    refine (moves_separated ((moves_nameWithType h _).weaken (Nat.le_add_left 1 2))).bind_builds (fun fields k' hk => ?_)
    exact hclose (.namedTuple fields) k' (by nofun) (by omega)
  · rw [bind_map_left]
    refine (moves_separated (moves_typeName h)).bind_builds (fun types k' hk => ?_)
    exact hclose (.tuple types) k' (by nofun) (by omega)

/-! ## Expressions -/

theorem spans_primary : Spans x made (room + 1) 1 (primary inner) := by
  intro opened k
  have hinst : Spans x made (room + 1) 1 (inner.parse .inst) := spans_rule h .inst rfl (fun _ => rfl) (Nat.le_refl _) (Nat.le_refl _)
  have hliteral : Spans x made (room + 1) 1 (inner.parse .literal) :=
    spans_rule h .literal rfl (fun _ => rfl) (Nat.le_refl _) (Nat.le_refl _)
  unfold primary
  refine (spread_looks looks_look).bind (fun next => ?_)
  split
  · exact spans_rule h .groupedExpression rfl (fun _ => rfl) (Nat.le_refl _) (Nat.le_refl _) opened k
  · exact spans_rule h .arrayLiteral rfl (fun _ => rfl) (Nat.le_refl _) (Nat.le_refl _) opened k
  · exact hinst opened k
  · exact hliteral opened k
  · exact spans_rule h .messageBlock rfl (fun _ => rfl) (Nat.le_refl _) (Nat.le_refl _) opened k
  · exact hinst opened k
  · exact hinst opened k
  · split
    · exact hliteral opened k
    · exact builds_failFound
  · exact builds_failFound

/-- A send is on one more level than its receiver may be. -/
theorem spans_expression : Spans x made (room + 2) 1 (expression inner) := by
  intro opened k
  unfold expression
  refine (spread_looks (looks_atKeyword _)).bind (fun returns => ?_)
  split
  · exact spans_rule h .returnExpression rfl (fun _ => rfl) (Nat.le_succ _) (Nat.le_refl _) opened k
  refine (spans_primary h opened k).bind (fun value => builds_of_lays (fun e k' hstart hleast hstop hheight => ?_))
  refine (spread_looks looks_startsMessage).bind (fun sends => ?_)
  split
  · have hready : (Rule.sendMessage value).Ready ((value, e) :: made) room k' k := by
      refine ⟨fun hnone => (nomatch hnone), fun hnode => ?_⟩
      obtain rfl := List.mem_singleton.1 hnode
      exact ⟨e, List.mem_cons_self, hstart, hleast, hstop, hheight⟩
    exact (h.lays (.sendMessage value) hready).mono (fun a _ hs => hs.forget (List.subset_cons_self _ _))
  · exact builds_pure (fun _ hs => ⟨e, k', ⟨hstart, hleast, hstop, Nat.le_succ_of_le hheight⟩, hs⟩)

/-- An argument is an expression of the production inside. -/
theorem spans_argument : Spans x made (room + 1) 1 (argument inner) := by
  intro opened k
  unfold argument
  refine (spread_looks (looks_atKeyword _)).bind (fun returns => ?_)
  split
  · exact builds_fail
  · exact spans_rule h .expression rfl (fun _ => rfl) (Nat.le_refl _) (Nat.le_refl _) opened k

/-- The nil of a bare return begins where the return ends. -/
theorem spans_returned : Spans x made (room + 1) 0 (returned inner) := by
  intro opened k
  unfold returned
  refine (spread_looks (looks_atKind _)).bind (fun bare => ?_)
  split
  · refine spread_location.bind (fun start => builds_of_and ?_)
    rintro rfl
    exact lays_leaf (by nofun) (Nat.succ_pos room) (Nat.le_refl k)
  · exact spans_rule h .argument rfl (fun _ => rfl) (Nat.le_succ room) (Nat.zero_le _) opened k

theorem spans_returnExpression : Spans x made (room + 2) 1 (returnExpression inner) := by
  intro opened k
  unfold returnExpression
  refine spread_location.bind (fun start => builds_of_and ?_)
  rintro rfl
  refine spread_expectKeyword.bind (fun _ => ?_)
  refine (growing_openNode (by nofun) (toNat_isContainer_lt _ room) (Nat.le_succ k) (Nat.le_refl _)).bind (fun node => ?_)
  exact growing_last_bind (spans_returned h) (Nat.lt_succ_self _) (Nat.le_refl _) (builds_pure (fun _ hs => hs))

theorem spans_groupedExpression : Spans x made (room + 2) 1 (groupedExpression inner) := by
  intro opened k
  unfold groupedExpression
  refine spread_location.bind (fun start => builds_of_and ?_)
  rintro rfl
  refine spread_expect.bind (fun _ => builds_of_and (fun _ => ?_))
  refine (growing_openNode (by nofun) (toNat_isContainer_lt _ room) (Nat.le_succ k) (Nat.le_refl _)).bind (fun group => ?_)
  refine growing_child_bind (spans_rule h .expression rfl (fun _ => rfl) (Nat.le_refl _) (Nat.le_refl _)) (Nat.lt_succ_self _) ?_
  exact (growing_moves moves_expect).bind (fun _ => builds_pure (fun _ hs => hs.lays (by omega)))

/-- A send begins where its receiver does, and the receiver has ended where the message begins. -/
theorem lays_sendMessage {receiver : NodeId} (hready : (Rule.sendMessage receiver).Ready made (room + 1) k start) :
    Builds (Spread x opened made k) (sendMessage inner receiver) (fun a => Lays x opened made start (room + 3) 0 1 [a]) := by
  obtain ⟨e, he, hstart, hlt, hstop, hheight⟩ := hready.handed (List.mem_singleton.2 rfl)
  have hmessage : Spans x made (room + 1) 1 (inner.parse .message) :=
    spans_rule h .message rfl (fun _ => rfl) (Nat.le_refl _) (Nat.le_refl _)
  unfold sendMessage
  refine (spread_nodeLocation he).bind (fun place => builds_of_and ?_)
  rintro rfl
  refine (spread_openNode (by nofun) (toNat_isContainer_lt _ (room + 1))).bind (fun send => ?_)
  refine (hmessage _ k).bind (fun message => builds_of_lays (fun e' k' hstart' hleast' hstop' hheight' => ?_))
  refine (spread_attach (List.mem_cons_of_mem _ he) (Nat.le_refl _) (Nat.le_refl _) (by omega)).bind (fun _ => ?_)
  refine (growing_attach (Nat.le_trans hlt hstart') (Nat.le_trans hstop hstart') (by omega) hstop' hleast' (Nat.le_refl k')).bind
    (fun _ => builds_pure (fun s hs => ?_))
  have hlays : Lays x opened made e.start (room + 3) 0 1 [send] s := hs.lays (by omega)
  exact hlays.mono hstart (Nat.le_refl _) (Nat.le_refl _) (Nat.le_refl _)

theorem spans_message : Spans x made (room + 2) 1 (message inner) := by
  intro opened k
  have hargument : Spans x made (room + 1) 1 (inner.parse .argument) :=
    spans_rule h .argument rfl (fun _ => rfl) (Nat.le_succ room) (Nat.le_refl _)
  unfold message
  refine spread_location.bind (fun start => builds_of_and ?_)
  rintro rfl
  refine (spread_looks looks_look).bind (fun next => ?_)
  split
  · split
    · refine spread_identifier.bind (fun name => ?_)
      refine (growing_openNode (by nofun) (toNat_isContainer_lt _ room) (Nat.le_succ k) (Nat.le_refl _)).bind (fun node => ?_)
      refine (growing_repeatWhile (looks_atKind _) (Nat.le_add_right (k + 1) 2) ?_).bind (fun _ => builds_pure (fun _ hs => ?_))
      · exact (growing_moves moves_take).bind (fun _ => growing_child hargument (Nat.lt_succ_self _))
      · exact hs.lays (Nat.le_refl _)
    · split
      · refine spread_take.bind (fun operator => builds_of_and (fun _ => ?_))
        refine (growing_openNode (by nofun) (toNat_isContainer_lt _ room) (Nat.le_succ k) (Nat.le_refl _)).bind (fun node => ?_)
        exact growing_child_bind hargument (Nat.lt_succ_self _) (builds_pure (fun _ hs => hs.lays (Nat.le_succ _)))
      · exact builds_failFound
  · exact builds_failFound

/-! ## Statements -/

/-- The message of an assignment is made by its production, so its value is a level lower than the values of other messages. -/
theorem spans_assignment : Spans x made (room + 2) 1 (assignment inner) := by
  intro opened k
  have hrest : ∀ (node target : NodeId) (e : Extent) (k' : Nat), k ≤ e.start → e.start + 1 ≤ k' → e.stop ≤ k' →
      e.height ≤ room + 1 → Builds (Spread x (⟨node, ⟨k, k, room + 2⟩, k⟩ :: opened) ((target, e) :: made) k') (do
        let operator ← expect .assignment "':='"
        let message ← openNode (.message ":=" none) operator.location
        let value ← inner.parse .argument
        attach message value
        attach node target
        attach node message
        return node) (fun a => Lays x opened made k (room + 2) 0 1 [a]) := by
    intro node target e k' hstart hleast hstop hheight
    have hargument : Spans x ((target, e) :: made) room 1 (inner.parse .argument) :=
      spans_rule h .argument rfl (fun _ => rfl) (Nat.le_refl _) (Nat.le_refl _)
    have hlevel : (Payload.message ":=" none).kind.isContainer.toNat < room + 1 := Nat.succ_pos room
    refine spread_expect.bind (fun operator => builds_of_and (fun hoperator => ?_))
    rw [hoperator]
    refine (spread_openNode (by nofun) hlevel).bind (fun message => ?_)
    refine (hargument _ (k' + 1)).bind (fun value => builds_of_lays (fun v l hvalue hvleast hvstop hvheight => ?_))
    refine (spread_attach List.mem_cons_self (by omega) (by omega) (by omega)).bind (fun _ => ?_)
    have hclose : ∀ s, Spread x (⟨message, ⟨k', v.stop, room + 1⟩, v.start + 1⟩ :: ⟨node, ⟨k, k, room + 2⟩, k⟩ :: opened)
        ((value, v) :: (target, e) :: made) l s →
        Spread x (⟨node, ⟨k, k, room + 2⟩, k⟩ :: opened) ((message, ⟨k', v.stop, room + 1⟩) :: (target, e) :: made) l s :=
      fun s hs => hs.close.forget (by simp)
    refine Builds.weaken ?_ hclose
    refine (spread_attach (List.mem_cons_of_mem _ List.mem_cons_self) hstart hstart (by omega)).bind (fun _ => ?_)
    refine Builds.bind (spread_attach List.mem_cons_self (by omega) (by omega) (Nat.lt_succ_self (room + 1)))
      (fun _ => builds_pure (fun s hs => ?_))
    exact (hs.forget (by simp)).lays (by omega) (by omega)
  unfold assignment
  refine spread_location.bind (fun start => builds_of_and ?_)
  rintro rfl
  refine (spread_openNode (by nofun) (toNat_isContainer_lt _ room)).bind (fun node => ?_)
  refine (spread_probe (probes_lookAhead _)).bind (fun typed => ?_)
  dsimp only
  split
  · have htarget : Spans x made (room + 1) 1 (inner.parse .variableDefinition) :=
      spans_rule h .variableDefinition rfl (fun _ => rfl) (Nat.le_refl _) (Nat.le_refl _)
    exact (htarget _ k).bind (fun target => builds_of_lays (fun e k' hstart hleast hstop hheight =>
      hrest node target e k' hstart hleast hstop hheight))
  · have htarget : Spans x made (room + 1) 1 (inner.parse .inst) :=
      spans_rule h .inst rfl (fun _ => rfl) (Nat.le_refl _) (Nat.le_refl _)
    exact (htarget _ k).bind (fun target => builds_of_lays (fun e k' hstart hleast hstop hheight =>
      hrest node target e k' hstart hleast hstop hheight))

theorem spans_closedStatement : Spans x made (room + 2) 1 (closedStatement inner) := by
  intro opened k
  have hexpression : Spans x made (room + 2) 1 (inner.parse .expression) :=
    spans_rule h .expression rfl (fun _ => rfl) (Nat.le_succ _) (Nat.le_refl _)
  have hdefinition : Spans x made (room + 2) 1 (inner.parse .variableDefinition) :=
    spans_rule h .variableDefinition rfl (fun _ => rfl) (Nat.le_succ _) (Nat.le_refl _)
  have hassignment : Spans x made (room + 2) 1 (inner.parse .assignment) :=
    spans_rule h .assignment rfl (fun _ => rfl) (Nat.le_succ _) (Nat.le_refl _)
  have hnamed : Spans x made (room + 2) 1 (namedStatement inner) := by
    intro opened k
    unfold namedStatement
    refine (spread_probe probes_looksLikeVariableDefinition).bind (fun defines => ?_)
    split
    · exact hdefinition opened k
    refine (spread_probe (probes_lookAhead _)).bind (fun typed => ?_)
    split
    · exact hassignment opened k
    refine (spread_probe probes_looksLikePlainAssignment).bind (fun assigns => ?_)
    split
    · exact hassignment opened k
    · exact hexpression opened k
  have hend : ∀ node : NodeId, Builds (Lays x opened made k (room + 2) 0 1 [node]) (expect .endOfStatement "';'" >>= fun _ => pure node)
      (fun a => Lays x opened made k (room + 2) 0 1 [a]) := by
    refine fun node => (lays_moves moves_expect).bind (fun _ => builds_pure (fun _ hs => ?_))
    exact hs.mono (Nat.le_refl _) (Nat.le_refl _) (Nat.zero_le _) (Nat.le_succ 1)
  unfold closedStatement
  refine (spread_looks (looks_atKind _)).bind (fun named => ?_)
  dsimp only
  split
  · exact (hnamed opened k).bind hend
  · exact (hexpression opened k).bind hend

theorem spans_statement : Spans x made (room + 2) 1 (statement inner) := by
  intro opened k
  unfold statement
  refine (spread_looks looks_look).bind (fun next => ?_)
  split
  · exact spans_rule h .classBlock rfl (fun _ => rfl) (Nat.le_succ _) (Nat.le_refl _) opened k
  · exact spans_rule h .recordBlock rfl (fun _ => rfl) (Nat.le_succ _) (Nat.le_refl _) opened k
  · exact spans_closedStatement h opened k

theorem spans_statements : Spans x made (room + 2) 0 (statements inner) := by
  intro opened k
  have hstatement : Spans x made (room + 1) 1 (inner.parse .statement) :=
    spans_rule h .statement rfl (fun _ => rfl) (Nat.le_refl _) (Nat.le_refl _)
  unfold statements
  refine spread_location.bind (fun start => builds_of_and ?_)
  rintro rfl
  refine (growing_openNode (by nofun) (toNat_isContainer_lt _ room) (Nat.le_refl k) (Nat.le_refl k)).bind (fun block => ?_)
  refine (growing_repeatWhile looks_inBlock (Nat.le_succ k) (growing_child hstatement (Nat.lt_succ_self _))).bind (fun _ => ?_)
  exact builds_pure (fun _ hs => hs.lays (Nat.le_refl k))

/-! ## Units -/

omit h in
theorem moves_flag (fs : List String) : Moves x 0 (flag fs) := by
  have hname : Moves x 0 flagName := by
    unfold flagName
    refine moves_look_bind looks_look (fun next => ?_)
    split
    · exact moves_take.weaken (Nat.zero_le 1)
    · exact moves_take.weaken (Nat.zero_le 1)
    · exact moves_failFound
  unfold flag
  refine hname.bind_zero (fun name => ?_)
  unfold flagEnd
  refine moves_look_bind looks_look (fun next => ?_)
  split
  · exact moves_take.bind_zero (fun _ => moves_pure _)
  · exact moves_pure _
  · exact moves_failFound

omit h in
theorem moves_flags : Moves x 1 flags := by
  have hlist : Moves x 0 flagList := by
    unfold flagList
    refine moves_look_bind (looks_atKind _) (fun bracketed => ?_)
    split
    · refine moves_take.bind_zero (fun _ => ?_)
      refine (moves_repeatWhile ((looks_atKind _).map not) moves_flag []).bind_zero (fun fs => ?_)
      exact moves_take.bind_zero (fun _ => moves_pure _)
    · exact moves_pure _
  unfold flags
  exact moves_expect.bind (fun _ => hlist.bind_zero (fun fs => moves_keepFlags fs))

theorem growing_blockBody (hleast : start + least ≤ k) : Builds (Growing x opened made owner start (room + 2) k) (blockBody inner owner)
    (fun _ => Lays x opened made start (room + 2) 0 least [owner]) := by
  have hnamespace : Spans x made (room + 1) 1 (inner.parse .namespaceBlock) :=
    spans_rule h .namespaceBlock rfl (fun _ => rfl) (Nat.le_refl _) (Nat.le_refl _)
  unfold blockBody
  refine (growing_looks (looks_atKeyword _)).bind (fun nested => ?_)
  split
  · refine (growing_repeatWhile (looks_atKeyword _) (Nat.le_succ k) (growing_child hnamespace (Nat.lt_succ_self _))).bind (fun _ => ?_)
    refine (growing_looks looks_inBlock).bind (fun goesOn => ?_)
    split
    · exact builds_failFound
    · exact builds_pure (fun _ hs => hs.lays hleast)
  · exact growing_last (spans_rule h .statements rfl (fun _ => rfl) (Nat.le_refl _) (Nat.le_refl _)) (Nat.lt_succ_self _) hleast

/-- The braces of a block and what is between them, where the body finishes the block. -/
theorem growing_braces (hstart : start ≤ k) : Builds (Growing x opened made owner start (room + 2) k) (do
      let _ ← expect .leftBrace "'\x7b'"
      blockBody inner owner
      let _ ← expect .rightBrace "'\x7d'"
      return owner) (fun a => Lays x opened made start (room + 2) 1 1 [a]) := by
  refine (growing_moves moves_expect).bind (fun _ => ?_)
  exact (growing_blockBody h (show start + 0 ≤ k + 1 from Nat.le_succ_of_le hstart)).bind (fun _ => lays_brace)

theorem spans_namespaceBlock : Spans x made (room + 2) 1 (namespaceBlock inner) := by
  intro opened k
  unfold namespaceBlock
  refine spread_location.bind (fun start => builds_of_and ?_)
  rintro rfl
  refine spread_expectKeyword.bind (fun _ => ?_)
  refine spread_identifier.bind (fun name => ?_)
  refine (growing_openNode (by nofun) (toNat_isContainer_lt _ room) (Nat.le_add_right k 2) (Nat.le_refl _)).bind (fun node => ?_)
  refine (growing_braces h (Nat.le_add_right k 2)).mono (fun _ _ hs => ?_)
  exact hs.mono (Nat.le_refl _) (Nat.le_refl _) (Nat.zero_le _) (Nat.le_refl _)

/-- A fragment begins with its flags. -/
theorem lays_codeFragment : Builds (Spread x opened made k) (codeFragment inner)
    (fun a => Lays x opened made k (room + 2) 1 1 [a]) := by
  have hblock : ∀ k', k ≤ k' → Builds (Spread x opened made k') (do
      let fragment ← openNode .codeFragmentBlock (x.place k)
      let _ ← expect .leftBrace "'\x7b'"
      blockBody inner fragment
      let _ ← expect .rightBrace "'\x7d'"
      return fragment) (fun a => Lays x opened made k (room + 2) 1 1 [a]) := by
    intro k' hk
    refine (growing_openNode (by nofun) (toNat_isContainer_lt _ room) hk (Nat.le_refl k')).bind (fun fragment => ?_)
    exact growing_braces h hk
  have hflags : Moves x 1 (inner.parse .flags) := moves_rule h .flags rfl (fun _ => rfl)
  unfold codeFragment
  refine spread_location.bind (fun start => builds_of_and ?_)
  rintro rfl
  refine (spread_looks (looks_atKind _)).bind (fun flagged => ?_)
  dsimp only
  split
  · exact hflags.bind_builds (fun _ k' hk => hblock k' (Nat.le_of_succ_le hk))
  · exact hblock k (Nat.le_refl k)

omit h in
theorem moves_moduleVersion : Moves x 0 moduleVersion := by
  unfold moduleVersion
  refine moves_look_bind (looks_atKind _) (fun versioned => ?_)
  split
  · refine moves_take.bind_zero (fun _ => moves_look_bind looks_look (fun next => ?_))
    split
    · exact moves_take.bind_zero (fun _ => moves_pure _)
    · exact moves_take.bind_zero (fun _ => moves_pure _)
    · exact moves_take.bind_zero (fun _ => moves_pure _)
    · exact moves_failFound
  · exact moves_pure _

theorem lays_moduleBlock : Builds (Spread x opened made k) (moduleBlock inner)
    (fun a => Lays x opened made k (room + 2) 1 1 [a]) := by
  unfold moduleBlock
  refine spread_location.bind (fun start => builds_of_and ?_)
  rintro rfl
  refine spread_expectKeyword.bind (fun _ => ?_)
  refine spread_identifier.bind (fun name => ?_)
  refine moves_moduleVersion.bind_builds (fun version k' hk => ?_)
  have hlt : k < k' := Nat.lt_of_lt_of_le (by omega) hk
  refine (growing_openNode (by nofun) (toNat_isContainer_lt _ room) (Nat.le_of_lt hlt) (Nat.le_refl k')).bind (fun node => ?_)
  refine (growing_moves moves_expect).bind (fun _ => ?_)
  have hfragment : Spans x made (room + 1) 0 (inner.parse .codeFragment) :=
    spans_rule h .codeFragment rfl (fun _ => rfl) (Nat.le_refl _) (Nat.zero_le 1)
  exact growing_last_bind hfragment (Nat.lt_succ_self _) (show k + 0 ≤ k' + 1 by omega) lays_brace

/-- A unit is the block that it is made of, and adds no level to it. -/
theorem lays_unit : Builds (Spread x opened made k) (unit inner) (fun a => Lays x opened made k (room + 1) 1 1 [a]) := by
  have hblock : Builds (Spread x opened made k) (unitBlock inner) (fun a => Lays x opened made k (room + 1) 1 1 [a]) := by
    unfold unitBlock
    refine (spread_looks looks_look).bind (fun next => ?_)
    split
    · exact lays_rule h .codeFragment rfl (fun _ => rfl)
    · exact lays_rule h .codeFragment rfl (fun _ => rfl)
    · exact lays_rule h .moduleBlock rfl (fun _ => rfl)
    · exact builds_fail
    · exact builds_fail
    · exact builds_fail
    · exact builds_failFound
  unfold Grammar.unit
  refine hblock.bind (fun root => ?_)
  refine (lays_moves (moves_looks looks_current?)).bind (fun next => ?_)
  split
  · exact builds_failFound
  · exact builds_pure (fun _ hs => hs)

end

/-! ## The rules -/

theorem Lays.leave {x : Script} {opened : List Sketch} {made : List (NodeId × Extent)} {start height margin least : Nat}
    {nodes : List NodeId} {s : ParserState} (h : Lays x opened made start height margin least nodes s) (before : Checkpoint) :
    Lays x opened made start height margin least nodes (s.leave before) := by
  obtain ⟨e, k, hwhere, hs⟩ := h
  exact ⟨e, k, hwhere, hs.leave before⟩

theorem SpreadFrom.lays {x : Script} {opened : List Sketch} {made : List (NodeId × Extent)} {k height : Nat} {s : ParserState}
    (h : SpreadFrom x opened made (k + 1) s) : Lays x opened made k height 0 1 [] s := by
  obtain ⟨k', hk, hs⟩ := h
  exact ⟨⟨k, k, 0⟩, k', ⟨Nat.le_refl k, hk, Nat.le_of_succ_le hk, Nat.zero_le _⟩, hs⟩

theorem spans_parse (x : Script) (room : Nat) : Inner.Spans x room ⟨fun rule => Rule.parse room rule⟩ := by
  induction room with
  | zero => exact ⟨fun {_} _ {_ _ _ _} _ => builds_fail⟩
  | succ room ih =>
    refine ⟨fun {α} rule {opened made k start} hready => ?_⟩
    refine Builds.guarded (m := rule.body _) ?_ (fun _ hs => hs.enter _) (fun _ _ before hs => hs.leave before)
    by_cases huses : rule.uses = []
    · obtain rfl := hready.alone huses
      cases rule with
      | sendMessage receiver => nomatch huses
      | unit => exact lays_unit ih
      | codeFragment => exact lays_codeFragment ih
      | flags => exact (moves_flags opened made start).mono (fun _ _ hs => hs.lays)
      | moduleBlock => exact lays_moduleBlock ih
      | namespaceBlock => exact spans_namespaceBlock ih opened start
      | statements => exact spans_statements ih opened start
      | statement => exact spans_statement ih opened start
      | classBlock => exact spans_classBlock ih opened start
      | scopeBlock => exact spans_scopeBlock ih opened start
      | recordBlock => exact spans_recordBlock ih opened start
      | messageBlock => exact spans_messageBlock ih opened start
      | messageDeclaration => exact spans_messageDeclaration ih opened start
      | param => exact spans_param ih opened start
      | returnType => exact spans_returnType ih opened start
      | typeDeclaration => exact (moves_typeDeclaration opened made start).mono (fun _ _ hs => hs.lays)
      | variableDefinition => exact spans_variableDefinition ih opened start
      | assignment => exact spans_assignment ih opened start
      | expression => exact spans_expression ih opened start
      | returnExpression => exact spans_returnExpression ih opened start
      | groupedExpression => exact spans_groupedExpression ih opened start
      | message => exact spans_message ih opened start
      | argument => exact spans_argument ih opened start
      | literal => exact spans_literal room opened start
      | arrayLiteral => exact spans_arrayLiteral ih opened start
      | inst => exact spans_inst room opened start
    · cases rule with
      | sendMessage receiver => exact lays_sendMessage ih hready
      | _ => exact absurd rfl huses

end Parser

/-! ## Whole texts -/

namespace Stream

open Courier.Parser

/-- The text of a stream and its tokens that are no comments. -/
def script (s : Stream) : Script :=
  ⟨s.source, significant s.tokens⟩

theorem spread_initial (s : Stream) (trace : Bool) : Spread s.script [] [] 0 (.initial s trace) := by
  have hempty : ∀ {id n}, (Tree.empty s.file).node? id ≠ some n := fun hn => (nomatch hn)
  refine ⟨⟨fun _ => ⟨0, 0, 0⟩, ?_⟩, rfl, Nat.zero_le _, rfl, rfl⟩
  exact ⟨fun hn => absurd hn hempty, fun hd => (nomatch hd), List.nodup_nil, fun hn => absurd hn hempty, fun hm => (nomatch hm)⟩

/-- The nodes of a text that parses are laid out over its tokens, and on no more levels than productions may be nested. -/
theorem laidOut_of_parse {s : Stream} {trace : Bool} {tree : Tree} (htree : (s.parse trace).1 = .ok tree) :
    ∃ (extents : NodeId → Extent) (root : NodeId), tree.root = some root ∧
      tree.LaidOut s.script.place extents [] [(root, extents root)] ∧ (extents root).stop < s.script.tokens.length ∧
      (extents root).height ≤ maxNesting := by
  obtain ⟨root, t, ht, rfl⟩ := parse_eq_ok.1 htree
  have hready : Rule.unit.Ready [] maxNesting 0 0 := ⟨fun _ => rfl, fun hnode => (nomatch hnode)⟩
  have hunit := (spans_parse s.script maxNesting).lays .unit hready (.initial s trace) (s.spread_initial trace)
  obtain ⟨e, k, ⟨-, -, hstop, hheight⟩, hs⟩ := hunit.ok ht
  obtain ⟨extents, hlaid⟩ := hs.tree
  obtain ⟨-, -, hextent⟩ := hlaid.known List.mem_cons_self
  obtain rfl : extents root = e := hextent
  have hsize : (t.finish root).size = t.tree.size := Tree.size_attachComments t.tree root t.pendingComments
  exact ⟨extents, root, rfl, hlaid.keep (t.keeps_finish root) hsize, Nat.lt_of_lt_of_le hstop hs.inside, hheight⟩

end Stream

end Courier
