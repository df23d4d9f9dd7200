import Courier.Proofs.Syntax.Sentences

/-!
# Every unit is accepted

By induction on the room for nested productions, every rule takes the runs of its form (`accepts_parse`). With as much room as the
length of the run asks for, no rule fails (`accepts_parse_of_room`); with less, the only fault is that the productions are nested
too deeply. So a stream whose tokens that are no comments are a unit parses, unless it is nested too deeply
(`parse_of_spells_unit`).
-/

namespace Courier

namespace Syntax

open Courier.Parser Courier.Grammar

variable {E : Blame} {n : Nat} {inner : Inner}

/-- An argument in front of what ends it is taken whole. -/
theorem takes_argument (h : Accepts E n inner) {w rest : List Token} (hw : Spells (.symbol .argument) w) (hrest : Stops rest)
    (hn : Rule.argument.need w.length ≤ n) : Takes E (Grammar.argument inner) w rest := by
  obtain ⟨p, u, rfl, hp, hu⟩ := exists_chain_of_argument hw
  unfold Takes
  rw [List.append_assoc]
  exact Leaves.mono (leaves_argument h hp hu hrest hn) (fun _ _ he => he) (fun _ hv => hv.eq)

theorem takes_message (h : Accepts E n inner) {w rest : List Token} (hw : Spells (.symbol .message) w) (hrest : Stops rest)
    (hn : Rule.message.need w.length ≤ n) : Takes E (Grammar.message inner) w rest := by
  have hu := chain_of_message hw
  obtain ⟨t, u, rfl, ht⟩ := begins_message w hw
  exact Leaves.mono (leaves_message h ht hu hrest hn) (fun _ _ he => he) (fun _ hv => hv.eq)

theorem takes_sendMessage (h : Accepts E n inner) (receiver : NodeId) {w rest : List Token}
    (hw : Spells (.symbol .message) w) (hrest : Stops rest) (hn : (Rule.sendMessage receiver).need w.length ≤ n) :
    Takes E (Grammar.sendMessage inner receiver) w rest := by
  have hu := chain_of_message hw
  obtain ⟨t, u, rfl, ht⟩ := begins_message w hw
  exact Leaves.mono (leaves_sendMessage h receiver ht hu hrest hn) (fun _ _ he => he) (fun _ hv => hv.eq)

/-- Every production takes the runs of its form, if the productions inside it take those that need less. -/
theorem takes_body (h : Accepts E n inner) {α : Type} {r : Rule α} {f : Form Symbol} {w rest : List Token}
    (hf : r.form? = some f) (hw : Spells f w) (hrest : r.Precedes rest) (hn : r.need w.length ≤ n) :
    Takes E (r.body inner) w rest := by
  cases r with
  | unit =>
    obtain rfl : rest = [] := hrest
    exact takes_unit h (Option.some.inj hf ▸ hw) hn
  | codeFragment => exact takes_codeFragment h (Option.some.inj hf ▸ hw) hn
  | flags => exact takes_flags (Option.some.inj hf ▸ hw) hrest
  | moduleBlock => exact takes_moduleBlock h (Option.some.inj hf ▸ hw) hn
  | namespaceBlock => exact takes_namespaceBlock h (Option.some.inj hf ▸ hw) hn
  | statements => exact takes_statements h (Option.some.inj hf ▸ hw) hrest hn
  | statement => exact takes_statement h (Option.some.inj hf ▸ hw) hn
  | classBlock => exact takes_classBlock h (Option.some.inj hf ▸ hw) hn
  | scopeBlock => exact takes_scopeBlock h (Option.some.inj hf ▸ hw) hn
  | recordBlock => exact takes_recordBlock h (Option.some.inj hf ▸ hw) hn
  | messageBlock => exact takes_messageBlock h (Option.some.inj hf ▸ hw) hn
  | messageDeclaration => exact takes_messageDeclaration h (Option.some.inj hf ▸ hw) hrest hn
  | param => exact takes_param h (Option.some.inj hf ▸ hw) hrest hn
  | returnType => exact takes_returnType h (Option.some.inj hf ▸ hw) hn
  | typeDeclaration => exact takes_typeDeclaration (Option.some.inj hf ▸ hw) hrest
  | variableDefinition => exact takes_variableDefinition h (Option.some.inj hf ▸ hw) hrest hn
  | assignment => exact takes_assignment h (Option.some.inj hf ▸ hw) hrest hn
  | expression => nomatch hf
  | returnExpression => nomatch hf
  | groupedExpression => exact takes_groupedExpression h (Option.some.inj hf ▸ hw) hn
  | sendMessage receiver => exact takes_sendMessage h receiver (Option.some.inj hf ▸ hw) hrest hn
  | message => exact takes_message h (Option.some.inj hf ▸ hw) hrest hn
  | argument => exact takes_argument h (Option.some.inj hf ▸ hw) hrest hn
  | literal => exact takes_literal (Option.some.inj hf ▸ hw)
  | arrayLiteral => exact takes_arrayLiteral h (Option.some.inj hf ▸ hw) hn
  | inst => exact takes_inst (Option.some.inj hf ▸ hw) hrest

/-- One production more needs one more room. -/
theorem Accepts.guarded (h : Accepts E n inner) :
    Accepts E (n + 1) ⟨fun r => Parser.guarded r.construct (r.body inner)⟩ where
  form hf hw hrest hn := (takes_body h hf hw hrest (Nat.le_of_lt_succ hn)).guarded
  value hr _ _ _ _ hp hu hrest hn := by
    rcases hr with rfl | rfl
    · exact (leaves_argument h hp hu hrest (Nat.le_of_lt_succ hn)).guarded
    · exact (leaves_expression_value h hp hu hrest (Nat.le_of_lt_succ hn)).guarded
  sent hr _ _ _ _ ht hu hrest hn := by
    rcases hr with rfl | ⟨receiver, rfl⟩
    · exact (leaves_message h ht hu hrest (Nat.le_of_lt_succ hn)).guarded
    · exact (leaves_sendMessage h receiver ht hu hrest (Nat.le_of_lt_succ hn)).guarded
  returned hr _ _ hw hrest hn := by
    rcases hr with rfl | rfl
    · exact (takes_expression_return h hw hrest (Nat.le_of_lt_succ hn)).guarded
    · exact (takes_returnExpression h hw hrest (Nat.le_of_lt_succ hn)).guarded

theorem accepts_zero : Accepts E 0 inner :=
  ⟨fun _ _ _ hn => absurd hn (Nat.not_lt_zero _), fun _ _ _ _ _ _ _ _ hn => absurd hn (Nat.not_lt_zero _),
    fun _ _ _ _ _ _ _ _ hn => absurd hn (Nat.not_lt_zero _), fun _ _ _ _ _ hn => absurd hn (Nat.not_lt_zero _)⟩

/-- Whatever the room is, a rule takes the runs of its form or fails because they are nested too deeply. -/
theorem accepts_parse (room n : Nat) : Accepts (fun fault _ => fault = .nestedTooDeeply) n ⟨fun r => Rule.parse room r⟩ := by
  induction room generalizing n with
  | zero =>
    exact ⟨fun _ _ _ _ => leaves_fail rfl, fun _ _ _ _ _ _ _ _ _ => leaves_fail rfl,
      fun _ _ _ _ _ _ _ _ _ => leaves_fail rfl, fun _ _ _ _ _ _ => leaves_fail rfl⟩
  | succ room ih =>
    cases n with
    | zero => exact accepts_zero
    | succ n => exact (ih n).guarded

/-- With the room that a run needs, its rule does not fail. -/
theorem accepts_parse_of_room (room : Nat) : Accepts (fun _ _ => False) room ⟨fun r => Rule.parse room r⟩ := by
  induction room with
  | zero => exact accepts_zero
  | succ room ih => exact ih.guarded

/-- Within any room, a unit parses or is nested too deeply. -/
theorem parseWithin_of_spells_unit {s : Stream} (h : Spells (.symbol .unit) (significant s.tokens)) (room : Nat)
    (trace : Bool) : (∃ tree, (s.parseWithin room trace).1 = .ok tree) ∨
      ∃ e, (s.parseWithin room trace).1 = .error e ∧ e.fault = .nestedTooDeeply := by
  have htakes := (accepts_parse room _).form (r := .unit) (v := []) rfl h rfl (Nat.lt_succ_self _)
  have hyields := htakes (.initial s trace) rfl (by rw [List.append_nil]; rfl)
  cases hrun : Rule.unit.parse room (.initial s trace) with
  | ok root t => exact .inl ⟨_, parseWithin_eq_ok.2 ⟨root, t, hrun, rfl⟩⟩
  | error e t =>
    obtain ⟨v', -, hdeep⟩ := hyields.error hrun
    exact .inr ⟨e, parseWithin_eq_error.2 ⟨t, hrun⟩, hdeep⟩

/-- With room enough for its length, a unit parses. -/
theorem parseWithin_of_room {s : Stream} (h : Spells (.symbol .unit) (significant s.tokens)) {room : Nat}
    (hroom : Rule.unit.need (significant s.tokens).length < room) (trace : Bool) : ∃ tree, (s.parseWithin room trace).1 = .ok tree := by
  have htakes := (accepts_parse_of_room room).form (r := .unit) (v := []) rfl h rfl hroom
  have hyields := htakes (.initial s trace) rfl (by rw [List.append_nil]; rfl)
  cases hrun : Rule.unit.parse room (.initial s trace) with
  | ok root t => exact ⟨_, parseWithin_eq_ok.2 ⟨root, t, hrun, rfl⟩⟩
  | error e t =>
    obtain ⟨v', -, hfalse⟩ := hyields.error hrun
    exact hfalse.elim

end Syntax

namespace Stream

open Syntax Courier.Parser

/-- A stream whose tokens that are no comments are a unit parses, unless its productions are nested too deeply, which they are only
if the limit is below what the length of the unit asks for at most. With the limit lifted that far, the stream parses. -/
theorem parse_of_spells_unit {s : Stream} (h : Spells (.symbol .unit) (significant s.tokens)) :
    (∀ trace, (∃ tree, (s.parse trace).1 = .ok tree) ∨
      ∃ e, (s.parse trace).1 = .error e ∧ e.fault = .nestedTooDeeply ∧
        maxNesting ≤ Rule.unit.need (significant s.tokens).length) ∧
    ∀ room, Rule.unit.need (significant s.tokens).length < room → ∀ trace, ∃ tree, (s.parseWithin room trace).1 = .ok tree := by
  refine ⟨fun trace => ?_, fun room hroom => parseWithin_of_room h hroom⟩
  cases hparse : (s.parse trace).1 with
  | ok tree => exact .inl ⟨tree, rfl⟩
  | error e =>
    refine .inr ⟨e, rfl, ?_, ?_⟩
    · rcases parseWithin_of_spells_unit h maxNesting trace with ⟨tree, htree⟩ | ⟨e', he', hdeep⟩
      · nomatch hparse.symm.trans htree
      · obtain rfl := Except.error.inj (hparse.symm.trans he')
        exact hdeep
    · by_contra hroom
      obtain ⟨tree, htree⟩ := parseWithin_of_room h (Nat.lt_of_not_le hroom) trace
      nomatch hparse.symm.trans htree

theorem parse_of_spells_unit_return : ∃ s, Stream.tokenize "unit" "\x7b return; \x7d" = .ok s ∧
    Spells (.symbol .unit) (significant s.tokens) ∧ ∃ tree, (s.parseWithin 23 true).1 = .ok tree := by
  obtain ⟨s, hs⟩ : ∃ s : Stream, s = .ofTokens "unit" "\x7b return; \x7d"
      [⟨.leftBrace, "\x7b", ⟨1, 1, 0⟩⟩, ⟨.keyword, "return", ⟨1, 3, 2⟩⟩, ⟨.endOfStatement, ";", ⟨1, 9, 8⟩⟩,
        ⟨.rightBrace, "\x7d", ⟨1, 11, 10⟩⟩] := ⟨_, rfl⟩
  have hspells : Spells (.symbol .unit) (significant s.tokens) := by
    subst hs
    have hreturn : Spells (.symbol .statement) [⟨.keyword, "return", ⟨1, 3, 2⟩⟩, ⟨.endOfStatement, ";", ⟨1, 9, 8⟩⟩] :=
      .symbol (.right (.right (.right (.right (.left
        (Derives.seq (v := [_]) (.token (by decide)) (.token (by decide))))))))
    have hbody : Spells (.symbol .blockBody) [⟨.keyword, "return", ⟨1, 3, 2⟩⟩, ⟨.endOfStatement, ";", ⟨1, 9, 8⟩⟩] :=
      .symbol (.right (derives_star.2 ⟨[_], by simpa using hreturn, rfl⟩))
    exact .symbol (.left (.symbol (Derives.seq (v := []) (.right .empty) (Derives.seq (v := [_]) (.token (by decide))
      (hbody.seq (.token (by decide)))))))
  refine ⟨s, ?_, hspells, (parse_of_spells_unit hspells).2 23 ?_ true⟩
  · subst hs
    decide +kernel
  · subst hs
    decide

end Stream

end Courier
