import Courier.Proofs.Syntax.Productions

/-!
# What a parse accepts is a unit

By induction on the room for nested productions, every rule reads its form (`sound_parse`). So the tokens of a stream that parses,
its comments left out, are derived from the nonterminal of units, all of them, each once and in order (`spells_unit_of_parse`).
-/

namespace Courier

namespace Syntax

open Courier.Parser

theorem sound_parse (room : Nat) : Sound ⟨fun r => Rule.parse room r⟩ := by
  induction room with
  | zero =>
    exact ⟨fun _ _ => reads_fail, fun _ => leaves_fail starting_here, fun _ => leaves_fail starting_here⟩
  | succ room ih =>
    refine ⟨?_, fun v => (leaves_expression v ih).guarded, fun v => (leaves_returnExpression v ih).guarded⟩
    intro α r f hf v
    refine Reads.guarded ?_
    cases r with
    | unit =>
      obtain rfl := Option.some.inj hf
      exact Leaves.mono (leaves_unit v ih) (fun _ _ he => he) (fun v' ⟨hnil, hv⟩ => ⟨v, hv, by rw [hnil, List.append_nil]⟩)
    | codeFragment => exact Option.some.inj hf ▸ (reads_codeFragment v ih).symbol
    | flags => exact Option.some.inj hf ▸ (reads_flags v).symbol
    | moduleBlock => exact Option.some.inj hf ▸ (reads_moduleBlock v ih).symbol
    | namespaceBlock => exact Option.some.inj hf ▸ (reads_namespaceBlock v ih).symbol
    | statements => exact Option.some.inj hf ▸ reads_statements v ih
    | statement => exact Option.some.inj hf ▸ reads_statement v ih
    | classBlock => exact Option.some.inj hf ▸ (reads_classBlock v ih).symbol
    | scopeBlock => exact Option.some.inj hf ▸ (reads_scopeBlock v ih).symbol
    | recordBlock => exact Option.some.inj hf ▸ (reads_recordBlock v ih).symbol
    | messageBlock => exact Option.some.inj hf ▸ (reads_messageBlock v ih).symbol
    | messageDeclaration => exact Option.some.inj hf ▸ reads_messageDeclaration v ih
    | param => exact Option.some.inj hf ▸ reads_param v ih
    | returnType => exact Option.some.inj hf ▸ (reads_returnType v ih).symbol
    | typeDeclaration => exact Option.some.inj hf ▸ (reads_typeDeclaration v).symbol
    | variableDefinition => exact Option.some.inj hf ▸ reads_variableDefinition v ih
    | assignment => exact Option.some.inj hf ▸ reads_assignment v ih
    | expression => nomatch hf
    | returnExpression => nomatch hf
    | groupedExpression => exact Option.some.inj hf ▸ reads_groupedExpression v ih
    | sendMessage receiver => exact Option.some.inj hf ▸ reads_sendMessage v ih receiver
    | message => exact Option.some.inj hf ▸ reads_message v ih
    | argument => exact Option.some.inj hf ▸ reads_argument v ih
    | literal => exact Option.some.inj hf ▸ reads_literal v
    | arrayLiteral => exact Option.some.inj hf ▸ (reads_arrayLiteral v ih).symbol
    | inst => exact Option.some.inj hf ▸ (reads_inst v).symbol

/-- A parse of units leaves no token behind, and what stands before the place of its failure starts a unit. -/
theorem leaves_unit_parse (room : Nat) (v : List Token) :
    Leaves (Starting (.symbol .unit) v) (Rule.unit.parse room) v (fun v' => v' = [] ∧ Spells (.symbol .unit) v) := by
  cases room with
  | zero => exact leaves_fail starting_here
  | succ room => exact (leaves_unit v (sound_parse room)).guarded

end Syntax

namespace Stream

open Syntax Courier.Parser

/-- A stream that parses is a unit: its tokens that are no comments, none skipped and none used twice, are derived from the
nonterminal of units. -/
theorem spells_unit_of_parse {s : Stream} {trace : Bool} {tree : Tree} (h : (s.parse trace).1 = .ok tree) :
    Spells (.symbol .unit) (significant s.tokens) := by
  obtain ⟨root, t, ht, -⟩ := parse_eq_ok.1 h
  have hunit := leaves_unit_parse maxNesting (significant s.tokens) (.initial s trace) rfl rfl
  exact (hunit.ok ht).2.2.2

theorem spells_unit_of_parse_assignment : ∃ s tree,
    Stream.tokenize "unit" "\x7b total : core.Int := a.b + (1); # a sum\n return; \x7d" = .ok s ∧
      (s.parse true).1 = .ok tree ∧ Spells (.symbol .unit) (significant s.tokens) := by
  obtain ⟨s, tree, hs, htree⟩ :=
    exists_parse "unit" "\x7b total : core.Int := a.b + (1); # a sum\n return; \x7d" true (by decide +kernel)
  exact ⟨s, tree, hs, htree, spells_unit_of_parse htree⟩

end Stream

end Courier
