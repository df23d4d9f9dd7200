import Courier.Proofs.Tree.Productions

/-!
# A parse grows one tree

By induction on the room for nested productions, every rule leaves no node behind but those it makes (`grows_parse`). So the nodes
of a stream that parses are exactly one tree, and no node is attached twice on the way, whether the parse succeeds or fails
(`isTree_of_parse`).
-/

namespace Courier

namespace Parser

/-- The body of every rule leaves no node behind but those the rule makes, if the productions inside it do so. -/
theorem grows_body {inner : Inner} (h : inner.Grows) {α : Type} (rule : Rule α) (held made : List NodeId) :
    Grows held (rule.uses ++ made) (rule.body inner) (fun a => Grown held (rule.makes a ++ made)) := by
  cases rule with
  | unit => exact (grows_unit h).grown
  | codeFragment => exact grows_codeFragment h
  | flags => exact grows_flags.grown
  | moduleBlock => exact grows_moduleBlock h
  | namespaceBlock => exact grows_namespaceBlock h
  | statements => exact grows_statements h
  | statement => exact (grows_statement h).grown
  | classBlock => exact grows_classBlock h
  | scopeBlock => exact grows_scopeBlock h
  | recordBlock => exact grows_recordBlock h
  | messageBlock => exact grows_messageBlock h
  | messageDeclaration => exact grows_messageDeclaration h
  | param => exact grows_param h
  | returnType => exact grows_returnType h
  | typeDeclaration => exact grows_typeDeclaration.grown
  | variableDefinition => exact grows_variableDefinition h
  | assignment => exact grows_assignment h
  | expression => exact (grows_expression h).grown
  | returnExpression => exact grows_returnExpression h
  | groupedExpression => exact grows_groupedExpression h
  | sendMessage receiver => exact grows_sendMessage h receiver
  | message => exact grows_message h
  | argument => exact (grows_argument h).grown
  | literal => exact grows_literal.grown
  | arrayLiteral => exact grows_arrayLiteral h
  | inst => exact grows_inst.grown

theorem grows_parse (room : Nat) : Inner.Grows ⟨fun rule => Rule.parse room rule⟩ := by
  induction room with
  | zero => exact fun _ _ _ => grows_fail
  | succ room ih => exact fun rule held made => Grows.guarded (grows_body ih rule held made)

theorem holds_initial (s : Stream) (trace : Bool) : Holds [] [] (.initial s trace) :=
  ⟨⟨Tree.forest_empty s.file, rfl⟩, fun _ hblock => nomatch hblock⟩

/-- Where one node has no parent but for the comments that are pending, these can be linked below that node. -/
theorem Holds.forest_finish {root : NodeId} {s : ParserState} (h : Holds [] [root] s) :
    (s.pendingComments.foldl (fun t c => t.attachComment root c) s.tree).Forest [root] := by
  have hforest : s.tree.Forest (s.pendingComments ++ [root]) := h.forest.perm (List.perm_append_singleton _ _).symm
  exact hforest.attachComments (List.mem_singleton.2 rfl)

/-- The finished tree is then one tree below that node. -/
theorem Holds.isTree_finish {root : NodeId} {s : ParserState} (h : Holds [] [root] s) : (s.finish root).IsTree root :=
  h.forest_finish.isTree

end Parser

namespace Stream

open Courier.Parser

/-- The state in which a parse of units ends, whether it succeeds or fails. -/
def finalState (room : Nat) (s : Stream) (trace : Bool) : ParserState :=
  match Rule.unit.parse room (.initial s trace) with
  | .ok _ t => t
  | .error _ t => t

/-- A parse gives the stream of its final state. -/
theorem stream_finalState (s : Stream) (trace : Bool) : (s.parse trace).2 = (s.finalState maxNesting trace).stream := by
  rw [parse_eq_report]
  unfold finalState
  cases Rule.unit.parse maxNesting (.initial s trace) <;> rfl

/-- The nodes of a stream that parses are exactly one tree: its root alone has no parent, every other node is listed once and by its
parent, and no message has a return value. No parse attaches a node that has a parent. -/
theorem isTree_of_parse (s : Stream) (trace : Bool) : (s.finalState maxNesting trace).reattached = false ∧
    ∀ tree, (s.parse trace).1 = .ok tree → ∃ root, tree.IsTree root := by
  have hunit := grows_parse maxNesting .unit [] [] (.initial s trace) (holds_initial s trace)
  constructor
  · unfold finalState
    split
    · rename_i root t ht
      exact (hunit.ok ht).2.asserted
    · rename_i e t ht
      exact hunit.error ht
  · intro tree htree
    obtain ⟨root, t, ht, rfl⟩ := parse_eq_ok.1 htree
    exact ⟨root, (hunit.ok ht).2.isTree_finish⟩

theorem isTree_of_parse_comments : ∃ s tree,
    Stream.tokenize "unit" "# first\n\x7b a.b + (1); # second\n x : T := [1, y]; \x7d # last" = .ok s ∧
      (s.parse true).1 = .ok tree ∧ ∃ root, tree.IsTree root := by
  obtain ⟨s, tree, hs, htree⟩ :=
    exists_parse "unit" "# first\n\x7b a.b + (1); # second\n x : T := [1, y]; \x7d # last" true (by decide +kernel)
  exact ⟨s, tree, hs, htree, (isTree_of_parse s true).2 tree htree⟩

end Stream

end Courier
