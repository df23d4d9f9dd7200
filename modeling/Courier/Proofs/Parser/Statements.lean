import Courier.Proofs.Parser.Targets

/-!
# What a statement makes

A statement that begins with something that can be assigned to (`Target`) and has the operator `:=` behind it is an assignment to it, if
it begins with a name, and a message sent to it, if it begins with `self` or `super` (`Told.assigns`). Any other statement makes neither an
assignment nor a message `:=` sent to an instance (`Told.stands`). The production of expressions is told apart by what it reads (`Valued`).
-/

namespace Courier

open Courier.Syntax

namespace Parser

open Courier.Grammar

/-! ## Productions that open a node where they start -/

/-- A parser that succeeds yields a node at the place, with a payload that satisfies `P`. -/
def Opens (l : Location) (P : Payload → Prop) (m : Parser NodeId) : Prop :=
  ∀ T v, Makes T v m (fun i _ T' => ∃ p, P p ∧ T'.Bears i p l [])

/-- A parser that succeeds extends the tree and yields the node. -/
def Gives (node : NodeId) (m : Parser NodeId) : Prop :=
  ∀ T v, Makes T v m (fun i _ _ => i = node)

section

variable {α : Type} {node : NodeId} {p : Payload} {P : Payload → Prop} {l : Location} {T : Tree} {v : List Token} {m : Parser α}
  {f : α → Parser NodeId}

theorem gives_pure : Gives node (pure node) :=
  fun _ _ => makes_pure (fun _ _ => rfl)

theorem Extending.gives (hm : Extending m) (hf : ∀ a, Gives node (f a)) : Gives node (m >>= f) :=
  fun _ _ => hm.bind (fun a v' T' _ => hf a T' v')

theorem Extending.opens (hm : Extending m) (hf : ∀ a, Opens l P (f a)) : Opens l P (m >>= f) :=
  fun _ _ => hm.bind (fun a v' T' _ => hf a T' v')

theorem opens_openNode {f : NodeId → Parser NodeId} (hp : P p) (hf : ∀ i, Gives i (f i)) : Opens l P (openNode p l >>= f) := by
  intro T v
  refine makes_openNode.bind (fun i v' T' _ hi => ?_)
  refine (hf i T' v').mono (fun j v'' T'' hT'' hj => ?_)
  subst hj
  exact ⟨p, hp, hi.2.later hT''⟩

/-- A production that opens its node where it starts. -/
theorem makes_start {f : Location → Parser NodeId} (hf : ∀ l, Opens l P (f l)) :
    Makes T v (location >>= f) (fun i _ T' => ∃ p, P p ∧ Stands T' i p v []) := by
  refine makes_location.bind (fun l v' T' _ hl => ?_)
  refine (hf l T' v').mono (fun i v'' T'' _ hi => ?_)
  obtain ⟨p, hp, hbears⟩ := hi
  exact ⟨p, hp, l, hbears, hl.1⟩

end

/-! ## Productions whose node is of one kind -/

section

variable {inner : Inner} (hI : ∀ {α : Type} (r : Rule α), Extending (inner.parse r)) {T : Tree} {v : List Token}

include hI

theorem makes_classBlock : Makes T v (classBlock inner) (fun i _ T' => ∃ p : Payload, p.kind = .classBlock ∧ Stands T' i p v []) := by
  have hsuperclass : Extending (superclass inner) :=
    (assembled_superclass (J := inner) (c := .classBlock) (by decide)).extending hI
  have hmembers : ∀ node, Extending (repeatWhile inBlock (fun _ => do attach node (← classMember inner)) ()) :=
    fun node => (Assembled.loop looks_inBlock (fun _ => .attach (assembled_classMember (J := inner)) node) ()).extending hI
  unfold classBlock
  refine makes_start (fun start => ?_)
  refine extending_expectKeyword.opens (fun _ => extending_identifier.opens (fun name => hsuperclass.opens (fun parent => ?_)))
  refine opens_openNode rfl (fun node => ?_)
  exact extending_expect.gives (fun _ => (hmembers node).gives (fun _ => extending_expect.gives (fun _ => gives_pure)))

theorem makes_recordBlock : Makes T v (recordBlock inner) (fun i _ T' => ∃ p : Payload, p.kind = .recordBlock ∧ Stands T' i p v []) := by
  have hsuperclass : Extending (superclass inner) :=
    (assembled_superclass (J := inner) (c := .recordBlock) (by decide)).extending hI
  have hmembers : ∀ node, Extending (memberVariables inner node) :=
    fun node => (assembled_memberVariables (J := inner) (c := .recordBlock) node (by decide)).extending hI
  unfold recordBlock
  refine makes_start (fun start => ?_)
  refine extending_expectKeyword.opens (fun _ => extending_identifier.opens (fun name => hsuperclass.opens (fun parent => ?_)))
  refine opens_openNode rfl (fun node => ?_)
  exact extending_expect.gives (fun _ => (hmembers node).gives (fun _ => extending_expect.gives (fun _ => gives_pure)))

theorem makes_messageBlock :
    Makes T v (messageBlock inner) (fun i _ T' => ∃ p : Payload, p.kind = .messageBlock ∧ Stands T' i p v []) := by
  unfold messageBlock
  refine makes_start (fun start => opens_openNode rfl (fun node => ?_))
  refine (hI .messageDeclaration).gives (fun _ => (extending_attach _ _).gives (fun _ => extending_expect.gives (fun _ => ?_)))
  exact (hI .statements).gives (fun _ => (extending_attach _ _).gives (fun _ => extending_expect.gives (fun _ => gives_pure)))

theorem makes_groupedExpression :
    Makes T v (groupedExpression inner) (fun i _ T' => ∃ p : Payload, p.kind = .groupedExpression ∧ Stands T' i p v []) := by
  unfold groupedExpression
  refine makes_start (fun start => extending_expect.opens (fun _ => opens_openNode rfl (fun node => ?_)))
  exact (hI .expression).gives (fun _ => (extending_attach _ _).gives (fun _ => extending_expect.gives (fun _ => gives_pure)))

theorem makes_returnExpression :
    Makes T v (returnExpression inner) (fun i _ T' => ∃ p : Payload, p.kind = .returnExpression ∧ Stands T' i p v []) := by
  have hreturned : Extending (returned inner) := by
    unfold returned
    refine (looks_atKind _).extending.then (fun bare => ?_)
    split
    · exact extending_location.then (fun _ => extending_openNode)
    · exact hI .argument
  unfold returnExpression
  refine makes_start (fun start => extending_expectKeyword.opens (fun _ => opens_openNode rfl (fun node => ?_)))
  exact hreturned.gives (fun _ => (extending_attach _ _).gives (fun _ => gives_pure))

theorem makes_arrayLiteral :
    Makes T v (Grammar.arrayLiteral inner) (fun i _ T' => ∃ p : Payload, p.kind = .arrayLiteral ∧ Stands T' i p v []) := by
  have helements : ∀ node, Extending (elements inner node) := fun node => (assembled_elements (J := inner) node).extending hI
  have hclose : ∀ start node, Gives node (do
      if ← atKind .rightBracket then
        let _ ← take
        return node
      else failAt start .unterminatedArray) := by
    intro start node
    refine (looks_atKind _).extending.gives (fun closed => ?_)
    split
    · exact extending_take.gives (fun _ => gives_pure)
    · exact fun _ _ => makes_failAt
  unfold Grammar.arrayLiteral
  refine makes_start (fun start => extending_expect.opens (fun _ => opens_openNode rfl (fun node => ?_)))
  refine (looks_atKind _).extending.gives (fun empty => ?_)
  dsimp only
  split
  · exact (helements node).gives (fun _ => hclose start node)
  · exact hclose start node

end

section

variable {T : Tree} {v : List Token}

theorem makes_literal :
    Makes T v Grammar.literal (fun i _ T' => ∃ p : Payload, (p.kind ≠ .inst ∧ p.kind ≠ .sendMessage) ∧ Stands T' i p v []) := by
  have hkind : ∀ {t : Token} {p : Payload}, literalPayload? t = some p → p.kind ≠ .inst ∧ p.kind ≠ .sendMessage := by
    intro t p hp
    unfold literalPayload? at hp
    split at hp
    case h_7 =>
      split at hp
      · obtain rfl := Option.some.inj hp
        exact ⟨nofun, nofun⟩
      · nomatch hp
    case h_8 => nomatch hp
    all_goals
      obtain rfl := Option.some.inj hp
      exact ⟨nofun, nofun⟩
  unfold Grammar.literal
  refine makes_take.bind (fun t v₁ T₁ _ ht => ?_)
  subst ht
  split
  · rename_i p hp
    refine makes_openNode.mono (fun i v' T' _ ⟨_, hbears⟩ => ⟨p, hkind hp, t.location, hbears, ?_⟩)
    intro u hu
    rw [Option.some.inj hu]
  · exact makes_failAt

end

/-! ## Messages and expressions -/

section

variable {T : Tree} {v : List Token} {i : NodeId} {room : Nat}

/-- The first token is one that an instance may begin with. -/
def BeginsInst (v : List Token) : Prop :=
  ∃ t ∈ v.head?, t.IsReceiver

theorem beginsInst_append {w u : List Token} (hw : Spells (.symbol .inst) w) : BeginsInst (w ++ u) := by
  obtain ⟨t, d, ht, -, rfl⟩ := spells_inst.1 hw
  exact ⟨t, rfl, ht⟩

theorem not_beginsInst_of_kind {k : TokenKind} {o : Option Keyword} (h : (v.head?.map Token.kind, v.head?.bind Token.keyword?) = (some k, o))
    (hk : k ≠ .identifier ∧ k ≠ .keyword) : ¬BeginsInst v := by
  rintro ⟨t, ht, hbegins⟩
  have hkind : t.kind = k := matches_kind_of_look h t ht
  rcases hbegins with hname | hword | hword
  · exact hk.1 (hkind.symm.trans hname)
  · exact hk.2 (hkind.symm.trans (Token.kind_of_keyword? hword))
  · exact hk.2 (hkind.symm.trans (Token.kind_of_keyword? hword))

theorem not_beginsInst_of_word {c : Keyword} (h : v.head?.bind Token.keyword? = some c) (hc : c ≠ .self ∧ c ≠ .super) : ¬BeginsInst v := by
  rintro ⟨t, ht, hbegins⟩
  rw [ht, Option.bind_some] at h
  rcases hbegins with hname | hword | hword
  · rw [Token.keyword?_eq_none (by simp [hname])] at h
    nomatch h
  · exact hc.1 (Option.some.inj (h.symm.trans hword))
  · exact hc.2 (Option.some.inj (h.symm.trans hword))

/-- A message is named as its first token is written. -/
theorem makes_message : Makes T v (Rule.message.parse room) (fun i _ T' => ∃ t u, v = t :: u ∧
    (t.kind = .identifier ∨ t.kind.isMessageOperator = true) ∧ Stands T' i (.message t.text none) v []) := by
  refine makes_rule (fun room => ?_) room
  have hargument := extending_parse room .argument
  show Makes T v (message _) _
  unfold message
  refine makes_location.bind (fun start v₁ T₁ _ hstart => ?_)
  obtain ⟨hplace, rfl⟩ := hstart
  refine makes_look_bind looks_look (fun T₂ _ => ?_)
  split
  · rename_i kind o hlook
    split
    · refine makes_identifier.bind (fun name v₃ T₃ _ ⟨t, ht, hkind, hname⟩ => ?_)
      refine makes_openNode.bind (fun node v₄ T₄ _ ⟨_, hbears⟩ => ?_)
      have harguments := extending_repeatWhile (looks_atKind .colon).extending (fun _ => extending_take.then (fun _ =>
        hargument.then (fun value => extending_attach node value))) ()
      refine (harguments.gives (fun _ => gives_pure) T₄ v₄).mono (fun j v₅ T₅ hT₅ hj => ?_)
      subst hj
      exact ⟨t, v₃, ht, .inl hkind, start, hname ▸ hbears.later hT₅, hplace⟩
    · split
      · rename_i hoperator
        refine makes_take.bind (fun t v₃ T₃ _ ht => makes_openNode.bind (fun node v₄ T₄ _ ⟨_, hbears⟩ => ?_))
        have hrest : Gives node (Rule.argument.parse room >>= fun value => attach node value >>= fun _ => pure node) :=
          hargument.gives (fun _ => (extending_attach _ _).gives (fun _ => gives_pure))
        refine (hrest T₄ v₄).mono (fun j v₅ T₅ hT₅ hj => ?_)
        subst hj
        have hkind : t.kind = kind := matches_kind_of_look hlook t (by simp [ht])
        exact ⟨t, v₃, ht, .inr (hkind ▸ hoperator), start, hbears.later hT₅, hplace⟩
      · exact makes_failFound
  · exact makes_failFound

/-- A message is sent to the receiver, and the send stands where that does. -/
theorem makes_sendMessage {receiver : NodeId} {p : Payload} {l : Location} {below : List NodeId} (h : T.Bears receiver p l below) :
    Makes T v (Rule.parse room (.sendMessage receiver)) (fun i _ T' => ∃ t u m, v = t :: u ∧
      (t.kind = .identifier ∨ t.kind.isMessageOperator = true) ∧ T'.Bears i .sendMessage l [receiver, m] ∧
      T'.payload? m = some (.message t.text none)) := by
  refine makes_rule (fun room => ?_) room
  show Makes T v (sendMessage _ receiver) _
  unfold sendMessage
  refine (makes_nodeLocation h).bind (fun l' v₁ T₁ _ hl => ?_)
  obtain ⟨rfl, rfl⟩ := hl
  refine makes_openNode.bind (fun send v₂ T₂ _ ⟨hv₂, hsend⟩ => ?_)
  subst hv₂
  refine makes_message.bind (fun m v₃ T₃ hT₃ ⟨t, u, ht, hkind, hmessage⟩ => ?_)
  refine (makes_attach (hsend.later hT₃)).bind (fun _ v₄ T₄ hT₄ ⟨_, hsend₄⟩ => ?_)
  refine (makes_attach hsend₄).bind (fun _ v₅ T₅ hT₅ ⟨_, hsend₅⟩ => makes_pure (fun T₆ hT₆ => ?_))
  exact ⟨t, u, m, ht, hkind, hsend₅.later hT₆, (hmessage.later (hT₄.trans (hT₅.trans hT₆))).payload?⟩

/-- What an instance may begin with begins one that the node stands for, and the node of nothing else is one. -/
structure Received (T : Tree) (i : NodeId) (p : Payload) (v v' : List Token) : Prop where
  stands : Stands T i p v []
  unsent : p.kind ≠ .sendMessage
  inst (h : p.kind = .inst ∨ BeginsInst v) : NamesInst T i v v'

theorem makes_primary (hv : ∀ t ∈ v, t.Plain) :
    Makes T v (primary ⟨fun r => Rule.parse room r⟩) (fun i v' T' => ∃ p, Received T' i p v v') := by
  have hother : ∀ {m : Parser NodeId} {P : Payload → Prop} {T : Tree}, ¬BeginsInst v → (∀ p, P p → p.kind ≠ .inst ∧ p.kind ≠ .sendMessage) →
      Makes T v m (fun i _ T' => ∃ p, P p ∧ Stands T' i p v []) → Makes T v m (fun i v' T' => ∃ p, Received T' i p v v') := by
    intro m P T hbegins hP hm
    refine hm.mono (fun i v' T' _ ⟨p, hp, hstands⟩ => ⟨p, hstands, (hP p hp).2, fun h => ?_⟩)
    exact absurd h (not_or.2 ⟨(hP p hp).1, hbegins⟩)
  have hinst : ∀ T, Makes T v (Rule.inst.parse room) (fun i v' T' => ∃ p, Received T' i p v v') := by
    intro T
    refine (makes_rule (fun _ => makes_inst hv) room).mono (fun i v' T' _ h => ?_)
    obtain ⟨w, -, -, -, hstands⟩ := id h
    exact ⟨_, hstands, nofun, fun _ => h⟩
  have hkinds : ∀ {k : Kind}, k ≠ .inst → k ≠ .sendMessage → ∀ p : Payload, p.kind = k → p.kind ≠ .inst ∧ p.kind ≠ .sendMessage :=
    fun hk hk' p hp => hp ▸ ⟨hk, hk'⟩
  have hliteral : ∀ T, ¬BeginsInst v → Makes T v (Rule.literal.parse room) (fun i v' T' => ∃ p, Received T' i p v v') :=
    fun T hbegins => hother hbegins (fun _ hp => hp) (makes_rule (fun _ => makes_literal) room)
  unfold primary
  refine makes_look_bind looks_look (fun T₁ _ => ?_)
  split
  · rename_i hlook
    exact hother (not_beginsInst_of_kind hlook (by decide)) (hkinds (k := .groupedExpression) nofun nofun)
      (makes_rule (fun room => makes_groupedExpression (extending_parse room)) room)
  · rename_i hlook
    exact hother (not_beginsInst_of_kind hlook (by decide)) (hkinds (k := .arrayLiteral) nofun nofun)
      (makes_rule (fun room => makes_arrayLiteral (extending_parse room)) room)
  · exact hinst T₁
  · rename_i hlook
    exact hliteral T₁ (not_beginsInst_of_word (Prod.mk.inj hlook).2 (by decide))
  · rename_i hlook
    exact hother (not_beginsInst_of_word (Prod.mk.inj hlook).2 (by decide)) (hkinds (k := .messageBlock) nofun nofun)
      (makes_rule (fun room => makes_messageBlock (extending_parse room)) room)
  · exact hinst T₁
  · exact hinst T₁
  · rename_i kind o _ _ _ _ _ _ _ hlook
    split
    · rename_i hkind
      refine hliteral T₁ (not_beginsInst_of_kind hlook ⟨?_, ?_⟩)
      · rintro rfl
        nomatch hkind
      · rintro rfl
        nomatch hkind
    · exact makes_failFound
  · exact makes_failFound

/-- What an expression makes: a value, where no instance with an assignment operator behind it is ahead, or a message that is sent to a
value. An instance to which it is sent is the one that is ahead. -/
inductive Valued (T : Tree) (v : List Token) (i : NodeId) : Prop
  | value {p : Payload} (hstands : Stands T i p v []) (hkind : p.kind ≠ .sendMessage)
      (hother : ∀ w op u, Spells (.symbol .inst) w → v = w ++ op :: u → op.kind ≠ .assignment)
  | sent {j m : NodeId} {q : Payload} {t : Token} {u : List Token} (hstands : Stands T i .sendMessage v [j, m])
      (hreceiver : T.payload? j = some q) (hmessage : T.payload? m = some (.message t.text none))
      (hkind : t.kind = .identifier ∨ t.kind.isMessageOperator = true)
      (hinst : q.kind = .inst ∨ BeginsInst v → ∃ w, v = w ++ t :: u ∧ Spells (.symbol .inst) w ∧ q = .inst (spelled w) none)

theorem makes_expression (hv : ∀ t ∈ v, t.Plain) : Makes T v (Rule.expression.parse room) (fun i _ T' => Valued T' v i) := by
  refine makes_rule (fun room => ?_) room
  show Makes T v (expression _) _
  unfold expression
  refine makes_look_bind (looks_atKeyword _) (fun T₁ _ => ?_)
  split
  · rename_i hreturn
    refine (makes_rule (fun room => makes_returnExpression (extending_parse room)) room).mono (fun i v' T' _ ⟨p, hp, hstands⟩ => ?_)
    have hbegins : ¬BeginsInst v := not_beginsInst_of_word (by simpa using hreturn) (by decide)
    exact .value hstands (by simp [hp]) (fun w op u hw heq _ => hbegins (heq ▸ beginsInst_append hw))
  · refine (makes_primary hv).bind (fun value v₁ T₂ hT₂ ⟨p, hp⟩ => makes_look_bind looks_startsMessage (fun T₃ hT₃ => ?_))
    obtain ⟨l, hbears, hplace⟩ := hp.stands.later hT₃
    split
    · refine (makes_sendMessage hbears).mono (fun i v' T' hT' ⟨t, u, m, ht, hkind, hsend, hmessage⟩ => ?_)
      refine .sent (u := u) ⟨l, hsend, hplace⟩ ((hp.stands.later (hT₃.trans hT')).payload?) hmessage hkind (fun h => ?_)
      obtain ⟨w, hw, hspells, -, hstands⟩ := hp.inst h
      have hpayload := hp.stands.payload?.symm.trans hstands.payload?
      exact ⟨w, by rw [hw, ht], hspells, Option.some.inj hpayload⟩
    · rename_i hstarts
      refine makes_pure (fun T' hT' => .value (hp.stands.later (hT₃.trans hT')) hp.unsent (fun w op u hw heq hop => ?_))
      obtain ⟨w', hw', hspells, hdot, -⟩ := hp.inst (.inr (heq ▸ beginsInst_append hw))
      obtain ⟨-, rfl⟩ := inst_append_inj hspells hw hdot (by simp [hop]) (hw'.symm.trans heq)
      simp [hop, TokenKind.isMessageOperator] at hstarts

/-- An assignment is made of its target, which is ahead with the operator behind it, and of a message. -/
def Assigned (T : Tree) (v : List Token) (i : NodeId) : Prop :=
  ∃ w op u p j m, v = w ++ op :: u ∧ op.kind = .assignment ∧ Target w p ∧ T.payload? j = some p ∧
    T.payload? m = some (.message ":=" none) ∧ Stands T i .assignment v [j, m]

theorem makes_assignment (hv : ∀ t ∈ v, t.Plain) : Makes T v (Rule.assignment.parse room) (fun i _ T' => Assigned T' v i) := by
  refine makes_rule (fun room => ?_) room
  have hrest : ∀ {T₁ : Tree} {v₁ : List Token} {w : List Token} {p : Payload} {node target : NodeId}, v = w ++ v₁ → Target w p →
      T₁.payload? target = some p → Stands T₁ node .assignment v [] → Makes T₁ v₁ (do
        let operator ← expect .assignment "':='"
        let message ← openNode (.message ":=" none) operator.location
        let value ← Rule.argument.parse room
        attach message value
        attach node target
        attach node message
        return node) (fun i _ T' => Assigned T' v i) := by
    intro T₁ v₁ w p node target hw htarget hp hstands
    refine makes_expect.bind (fun op u T₂ hT₂ ⟨hop, hkind⟩ => ?_)
    refine makes_openNode.bind (fun message v₃ T₃ hT₃ ⟨_, hmessage⟩ => ?_)
    refine (extending_parse room .argument).bind (fun value v₄ T₄ hT₄ => ?_)
    refine (extending_attach message value).bind (fun _ v₅ T₅ hT₅ => ?_)
    obtain ⟨l, hbears, hplace⟩ := hstands.later (hT₂.trans (hT₃.trans (hT₄.trans hT₅)))
    refine (makes_attach hbears).bind (fun _ v₆ T₆ hT₆ ⟨_, hbears₆⟩ => ?_)
    refine (makes_attach hbears₆).bind (fun _ v₇ T₇ hT₇ ⟨_, hbears₇⟩ => makes_pure (fun T₈ hT₈ => ?_))
    have hlast : T₃.Extends T₈ := hT₄.trans (hT₅.trans (hT₆.trans (hT₇.trans hT₈)))
    refine ⟨w, op, u, p, target, message, by rw [hw, hop], hkind, htarget, ?_, ?_, l, hbears₇.later hT₈, hplace⟩
    · exact (hT₂.trans (hT₃.trans hlast)).payload? hp
    · exact hlast.payload? hmessage.payload?
  have hvariable : ∀ T, Makes T v (Rule.variableDefinition.parse room) (fun i v' T' => ∃ w p, v = w ++ v' ∧ Target w p ∧
      T'.payload? i = some p) := by
    intro T
    have hmakes := makes_rule (T := T) (r := .variableDefinition)
      (fun room => makes_variableDefinition hv (fun hv => makes_rule (fun _ => makes_typeDeclaration hv) room)) room
    exact hmakes.mono (fun i v' T' _ ⟨w, p, hw, htarget, _, hstands⟩ => ⟨w, p, hw, htarget, hstands.payload?⟩)
  have hinst : ∀ T, Makes T v (Rule.inst.parse room) (fun i v' T' => ∃ w p, v = w ++ v' ∧ Target w p ∧ T'.payload? i = some p) := by
    intro T
    refine (makes_rule (fun _ => makes_inst hv) room).mono (fun i v' T' _ ⟨w, hw, hspells, _, hstands⟩ => ?_)
    exact ⟨w, _, hw, .inst hspells, hstands.payload?⟩
  show Makes T v (assignment _) _
  unfold assignment atTypedName
  refine makes_location.bind (fun start v₁ T₁ _ hstart => ?_)
  obtain ⟨hplace, rfl⟩ := hstart
  refine makes_openNode.bind (fun node v₂ T₂ _ hnode => ?_)
  obtain ⟨rfl, hbears⟩ := hnode
  refine makes_probe_bind (probes_lookAhead _) ?_
  dsimp only
  split
  · refine (hvariable T₂).bind (fun target v₃ T₃ hT₃ ⟨w, p, hw, htarget, hp⟩ => ?_)
    exact hrest hw htarget hp ⟨start, hbears.later hT₃, hplace⟩
  · refine (hinst T₂).bind (fun target v₃ T₃ hT₃ ⟨w, p, hw, htarget, hp⟩ => ?_)
    exact hrest hw htarget hp ⟨start, hbears.later hT₃, hplace⟩

end

/-! ## Statements -/

section

variable {T T' : Tree} {v : List Token} {i : NodeId} {room : Nat}

/-- The first token is a name. -/
def BeginsName (v : List Token) : Prop :=
  v.head?.map Token.kind = some .identifier

/-- What the node of a statement tells of its tokens. It stands at the first of them. If they begin with a target and an assignment
operator, the node is made of that target and of a message `:=`; it is an assignment if the first token is a name, and a message that is
sent if it is `self` or `super`. No other message `:=` is sent to an instance. -/
structure Told (T : Tree) (v : List Token) (i : NodeId) : Prop where
  assigns {w : List Token} {op : Token} {u : List Token} {p : Payload} (hv : v = w ++ op :: u) (hop : op.kind = .assignment)
    (hw : Target w p) : ∃ j m, T.payload? j = some p ∧ T.payload? m = some (.message ":=" none) ∧
      (BeginsName v → Stands T i .assignment v [j, m]) ∧ (¬BeginsName v → Stands T i .sendMessage v [j, m])
  stands : ∃ p, Stands T i p v [] ∧ (p = .sendMessage → ∃ j m q q', T.payload? j = some q ∧ T.payload? m = some q' ∧
    Stands T i .sendMessage v [j, m] ∧ (q.kind = .inst → q' = .message ":=" none →
      ∃ w op u, v = w ++ op :: u ∧ op.kind = .assignment ∧ Spells (.symbol .inst) w ∧ ¬BeginsName v))

theorem Told.later (h : Told T v i) (hT : T.Extends T') : Told T' v i := by
  constructor
  · intro w op u p hv hop hw
    obtain ⟨j, m, hj, hm, hname, hother⟩ := h.assigns hv hop hw
    exact ⟨j, m, hT.payload? hj, hT.payload? hm, fun hv => (hname hv).later hT, fun hv => (hother hv).later hT⟩
  · obtain ⟨p, hstands, hsent⟩ := h.stands
    refine ⟨p, hstands.later hT, fun hp => ?_⟩
    obtain ⟨j, m, q, q', hj, hm, hi, honly⟩ := hsent hp
    exact ⟨j, m, q, q', hT.payload? hj, hT.payload? hm, hi.later hT, honly⟩

/-- Nothing else can be assigned to. -/
theorem inst_of_target {w u : List Token} {p : Payload} (h : Target w p) (hname : ¬BeginsName (w ++ u)) :
    Spells (.symbol .inst) w ∧ p = .inst (spelled w) none := by
  cases h with
  | typed hkind => exact absurd (by simp [BeginsName, hkind]) hname
  | inst h => exact ⟨h, rfl⟩

/-- An expression where no name is assigned to. -/
theorem Valued.told (h : Valued T v i) (hv : ∀ t ∈ v, t.Plain)
    (hnot : BeginsName v → ∀ w op u p, Target w p → v = w ++ op :: u → op.kind ≠ .assignment) : Told T v i := by
  have hinst : ∀ {w op u p}, v = w ++ op :: u → op.kind = .assignment → Target w p →
      Spells (.symbol .inst) w ∧ p = .inst (spelled w) none ∧ ¬BeginsName v := by
    intro w op u p heq hop hw
    have hname : ¬BeginsName v := fun hname => hnot hname w op u p hw heq hop
    obtain ⟨hspells, hp⟩ := inst_of_target hw (heq ▸ hname)
    exact ⟨hspells, hp, hname⟩
  cases h with
  | @value p hstands hkind hother =>
    refine ⟨fun heq hop hw => ?_, p, hstands, fun hp => absurd (by rw [hp]; rfl) hkind⟩
    exact absurd hop (hother _ _ _ (hinst heq hop hw).1 heq)
  | @sent j m q t u hstands hreceiver hmessage hkind hreads =>
    have hplain : t ∈ v → (t.text = ":=" ↔ t.kind = .assignment) := fun ht => (hv t ht).assignment hkind
    have hdot : Unlike .dot (t :: u) := by
      rw [unlike_cons]
      rintro hdot
      simp [hdot, TokenKind.isMessageOperator] at hkind
    constructor
    · intro w op u' p heq hop hw
      obtain ⟨hspells, rfl, hname⟩ := hinst heq hop hw
      obtain ⟨w', hw', hspells', hq⟩ := hreads (.inr (heq ▸ beginsInst_append hspells))
      obtain ⟨rfl, htail⟩ := inst_append_inj hspells' hspells hdot (by simp [hop]) (hw'.symm.trans heq)
      obtain ⟨rfl, rfl⟩ := List.cons.inj htail
      have htext : t.text = ":=" := (hplain (by simp [heq])).2 hop
      exact ⟨j, m, hq ▸ hreceiver, htext ▸ hmessage, fun h => absurd h hname, fun _ => hstands⟩
    · refine ⟨.sendMessage, hstands.loose, fun _ => ⟨j, m, q, _, hreceiver, hmessage, hstands, fun hq hm => ?_⟩⟩
      obtain ⟨w, hw, hspells, -⟩ := hreads (.inl hq)
      have hop : t.kind = .assignment := (hplain (by simp [hw])).1 (by simpa using hm)
      exact ⟨w, t, u, hw, hop, hspells, fun hname => hnot hname w t u _ (.inst hspells) hw hop⟩

/-- An assignment where a name is next. -/
theorem Assigned.told (h : Assigned T v i) (hname : BeginsName v) : Told T v i := by
  obtain ⟨w, op, u, p, j, m, hw, hop, htarget, hj, hm, hstands⟩ := h
  refine ⟨fun {w' op' u' p'} heq hop' htarget' => ?_, .assignment, hstands.loose, nofun⟩
  obtain ⟨rfl, rfl, rfl, rfl⟩ := target_append_inj htarget htarget' hop hop' (hw.symm.trans heq)
  exact ⟨j, m, hj, hm, fun _ => hstands, fun h => absurd hname h⟩

/-- A node of another kind, where no target has the operator behind it. -/
theorem Stands.told {p : Payload} (h : Stands T i p v []) (hp : p.kind ≠ .sendMessage)
    (hnot : ∀ w op u q, Target w q → v = w ++ op :: u → op.kind ≠ .assignment) : Told T v i :=
  ⟨fun heq hop hw => absurd hop (hnot _ _ _ _ hw heq), p, h, fun hsend => absurd (by rw [hsend]; rfl) hp⟩

/-- The scans find a name that is assigned to, and do not take it for a definition. -/
theorem scans_of_target {w u : List Token} {op : Token} {p : Payload} (hw : Target w p) (hop : op.kind = .assignment)
    (hname : BeginsName (w ++ op :: u)) : (Scan.behindDefinition (w ++ op :: u)).isSome = false ∧
      ((Scan.behindKinds [.identifier, .colon] (w ++ op :: u)).isSome = true ∨ (Scan.behindTarget (w ++ op :: u)).isSome = true) := by
  have hdot : Unlike .dot (op :: u) := by simp [hop]
  cases hw with
  | @typed name colon type hkind hcolon htype =>
    simp [Scan.behindDefinition, Scan.behindKinds, hkind, hcolon, behindName_append htype hdot, hop]
  | inst hinst =>
    have htype : Spells (.symbol .typeName) w := by
      refine spells_typeName_of_inst hinst (fun t ht => ?_)
      obtain ⟨t', d, -, -, rfl⟩ := spells_inst.1 hinst
      obtain rfl := Option.some.inj ht
      have hkind : t'.kind = .identifier := by simpa [BeginsName] using hname
      exact hkind
    refine ⟨?_, .inr (behindTarget_isSome_iff.2 ⟨w, op, u, htype, hop, rfl⟩)⟩
    rw [Bool.eq_false_iff]
    intro hdefinition
    obtain ⟨x, t, z, hx, -, heq⟩ := behindDefinition_isSome_iff.1 hdefinition
    obtain ⟨name, colon, type, -, hcolon, -, rfl⟩ := spells_typedName.1 hx
    exact inst_append_ne hinst (by simp [hop]) hcolon heq

theorem makes_namedStatement (hv : ∀ t ∈ v, t.Plain) (hname : BeginsName v) :
    Makes T v (namedStatement ⟨fun r => Rule.parse room r⟩) (fun i _ T' => Told T' v i) := by
  have hassignment : Makes T v (Rule.assignment.parse room) (fun i _ T' => Told T' v i) :=
    (makes_assignment hv).mono (fun i v' T' _ h => h.told hname)
  unfold namedStatement atTypedName
  refine makes_probe_bind probes_looksLikeVariableDefinition ?_
  split
  · rename_i hdefinition
    have hmakes := makes_rule (T := T) (r := .variableDefinition)
      (fun room => makes_variableDefinition hv (fun hv => makes_rule (fun _ => makes_typeDeclaration hv) room)) room
    refine hmakes.mono (fun i v' T' _ ⟨_, p, _, _, hkind, hstands⟩ => hstands.told (by simp [hkind]) (fun w op u q hw heq hop => ?_))
    have hscans := (scans_of_target hw hop (heq ▸ hname)).1
    rw [← heq, hdefinition] at hscans
    nomatch hscans
  refine makes_probe_bind (probes_lookAhead _) ?_
  split
  · exact hassignment
  rename_i htyped
  refine makes_probe_bind probes_looksLikePlainAssignment ?_
  split
  · exact hassignment
  · rename_i hplain
    refine (makes_expression hv).mono (fun i v' T' _ h => h.told hv (fun _ w op u p hw heq hop => ?_))
    have hscans := (scans_of_target hw hop (heq ▸ hname)).2
    rw [← heq] at hscans
    exact hscans.elim htyped hplain

theorem makes_statement (hv : ∀ t ∈ v, t.Plain) : Makes T v (Rule.statement.parse room) (fun i _ T' => Told T' v i) := by
  refine makes_rule (fun room => ?_) room
  have hword : ∀ {c : Keyword} {k : Kind} {m : Parser NodeId} {T : Tree}, v.head?.bind Token.keyword? = some c → c ≠ .self ∧ c ≠ .super →
      k ≠ .sendMessage → Makes T v m (fun i _ T' => ∃ p : Payload, p.kind = k ∧ Stands T' i p v []) →
      Makes T v m (fun i _ T' => Told T' v i) := by
    intro c k m T hlook hc hk hm
    refine hm.mono (fun i v' T' _ ⟨p, hp, hstands⟩ => hstands.told (hp ▸ hk) (fun w op u q hw heq _ => ?_))
    have hbegins : ¬BeginsInst v := not_beginsInst_of_word hlook hc
    cases hw with
    | typed hkind => exact hbegins ⟨_, by rw [heq]; rfl, .inl hkind⟩
    | inst hinst => exact hbegins (heq ▸ beginsInst_append hinst)
  have hend : ∀ {T₁ : Tree} {v₁ : List Token} {i : NodeId}, Told T₁ v i →
      Makes T₁ v₁ (expect .endOfStatement "';'" >>= fun _ => pure i) (fun i _ T' => Told T' v i) :=
    fun h => extending_expect.bind (fun _ _ _ hT => makes_pure (fun _ hT' => h.later (hT.trans hT')))
  show Makes T v (statement _) _
  unfold statement
  refine makes_look_bind looks_look (fun T₁ _ => ?_)
  split
  · rename_i hlook
    exact hword (Prod.mk.inj hlook).2 (by decide) (k := .classBlock) nofun
      (makes_rule (fun room => makes_classBlock (extending_parse room)) room)
  · rename_i hlook
    exact hword (Prod.mk.inj hlook).2 (by decide) (k := .recordBlock) nofun
      (makes_rule (fun room => makes_recordBlock (extending_parse room)) room)
  · unfold closedStatement
    refine makes_look_bind (looks_atKind _) (fun T₂ _ => ?_)
    dsimp only
    split
    · rename_i hname
      exact (makes_namedStatement hv (by simpa [BeginsName] using hname)).bind (fun _ _ _ _ h => hend h)
    · rename_i hname
      refine (makes_expression hv).bind (fun _ _ _ _ h => hend (h.told hv (fun hbegins => absurd ?_ hname)))
      simpa [BeginsName] using hbegins

end

end Parser

end Courier
