import Courier.Proofs.Lexical.Layout
import Courier.Proofs.Tree.Shapes

/-!
# A parse builds a well-shaped tree

By induction on the room for nested productions, every rule finishes the nodes it makes (`builds_parse`). At the beginning there is no
draft, and the names of a text begin with letters, so they are no operators. So every node of a unit that parses has the children
that its payload admits (`Stream.shapely_of_parse`).
-/

namespace Courier

open Lexical

/-! ## Names -/

/-- A name begins with a letter. -/
theorem Lexical.letter_of_identifier {text rest : List Char} (h : IsLexeme .identifier text rest) :
    ∃ c cs, text = c :: cs ∧ Letter c := by
  generalize hk : TokenKind.identifier = k at h
  cases h with
  | word hc _ _ _ => exact ⟨_, _, rfl, hc⟩
  | @dotted n _ _ _ _ _ =>
    match n with
    | 0 | 1 | _ + 2 => nomatch hk
  | single hc =>
    subst hk
    revert hc
    simp [singles]
  | _ => nomatch hk

/-- No operator begins with a letter. -/
theorem not_operator_of_letter {c : Char} {cs : List Char} (hc : Letter c) : String.ofList (c :: cs) ∉ Payload.operators := by
  intro hmem
  have hhead : c ∈ ['+', '-', '*', '/', '%', ':'] := by
    simp only [Payload.operators, List.mem_cons, List.not_mem_nil, or_false] at hmem
    rcases hmem with h | h | h | h | h | h
    all_goals
      have hlist := congrArg String.toList h
      rw [String.toList_ofList] at hlist
      rw [(List.cons.inj hlist).1]
      decide
  have hletters : ['+', '-', '*', '/', '%', ':'].all (fun d => !Text.isLetter d) = true := by decide
  have hnot := List.all_eq_true.1 hletters c hhead
  rw [isLetter_iff.2 hc] at hnot
  nomatch hnot

/-- The names of a text are no operators. -/
theorem Parser.named_of_tokensFrom {p : Location} {cs : List Char} {ts : List Token} (h : tokensFrom p cs = .ok ts) : Parser.Named ts := by
  refine tokensFrom_induction (P := fun _ _ ts => Parser.Named ts) ?_ ?_ ?_ h
  · exact fun _ _ ht => (nomatch ht)
  · exact fun _ _ _ _ _ hrest => hrest
  · intro p c cs kind text rest ts hread _ _ hrest t ht hkind
    rcases List.mem_cons.1 ht with rfl | ht
    · have hlexeme := isLexeme_of_read hread
      rw [show kind = .identifier from hkind] at hlexeme
      obtain ⟨d, ds, rfl, hd⟩ := letter_of_identifier hlexeme
      exact not_operator_of_letter hd
    · exact hrest t ht hkind

namespace Parser

/-! ## The rules -/

theorem Drafts.enter {opened : List Draft} {made : List (NodeId × Payload)} {s : ParserState} (h : Drafts opened made s)
    (construct : Construct) : Drafts opened made (s.enter construct) :=
  ⟨h.tree, h.pending, h.unmarked, h.named⟩

theorem Drafts.leave {opened : List Draft} {made : List (NodeId × Payload)} {s : ParserState} (h : Drafts opened made s)
    (before : Checkpoint) : Drafts opened made (s.leave before) :=
  ⟨h.tree, h.pending, h.unmarked, h.named⟩

theorem builds_parse (room : Nat) : Inner.Builds ⟨fun rule => Rule.parse room rule⟩ := by
  induction room with
  | zero => exact ⟨fun _ _ _ _ => builds_fail, fun _ _ _ _ => builds_fail⟩
  | succ room ih =>
    constructor
    · intro α rule opened made hused
      refine Builds.guarded (m := rule.body _) ?_ (fun _ hs => hs.enter _) (fun _ _ before ⟨p, hp, ht⟩ => ⟨p, hp, ht.leave before⟩)
      have hnone : ∀ s, Drafts opened made s → ∃ p : Payload, True ∧ Drafts opened made s := fun _ hs => ⟨.nil, trivial, hs⟩
      cases rule with
      | unit => exact builds_unit ih
      | codeFragment => exact builds_codeFragment ih
      | flags => exact builds_flags.mono (fun _ => hnone)
      | moduleBlock => exact builds_moduleBlock ih
      | namespaceBlock => exact builds_namespaceBlock ih
      | statements => exact builds_statements ih
      | statement => exact builds_statement ih
      | classBlock => exact builds_classBlock ih
      | scopeBlock => exact builds_scopeBlock ih
      | recordBlock => exact builds_recordBlock ih
      | messageBlock => exact builds_messageBlock ih
      | messageDeclaration => exact builds_messageDeclaration ih
      | param => exact builds_param ih
      | returnType => exact builds_returnType ih
      | typeDeclaration => exact builds_typeDeclaration.mono (fun _ => hnone)
      | variableDefinition => exact builds_variableDefinition ih
      | assignment => exact builds_assignment ih
      | expression => exact builds_expression ih
      | returnExpression => exact builds_returnExpression ih
      | groupedExpression => exact builds_groupedExpression ih
      | sendMessage receiver => exact builds_sendMessage ih (hused receiver (List.mem_singleton.2 rfl))
      | message => exact builds_message ih
      | argument => exact builds_argument ih
      | literal => exact builds_literal
      | arrayLiteral => exact builds_arrayLiteral ih
      | inst => exact builds_inst
    · intro opened made next hnext
      exact Builds.guarded (builds_expression_value ih hnext) (fun _ hs => ⟨hs.1, hs.2.enter _⟩)
        (fun _ _ before ⟨p, hp, ht⟩ => ⟨p, hp, ht.leave before⟩)

theorem drafts_initial {s : Stream} (h : Named s.tokens) (trace : Bool) : Drafts [] [] (.initial s trace) := by
  have hempty : ∀ id, (Tree.empty s.file).node? id = none := fun _ => rfl
  refine ⟨⟨?_, fun hd => (nomatch hd), List.nodup_nil, fun hm => (nomatch hm), ?_⟩, fun _ hc => (nomatch hc), rfl, h⟩
  · intro id n hn
    rw [show (ParserState.initial s trace).tree.node? id = none from hempty id] at hn
    nomatch hn
  · intro id n hn
    rw [show (ParserState.initial s trace).tree.node? id = none from hempty id] at hn
    nomatch hn

/-- Where there is no draft and the root is a unit, the finished tree is well shaped. -/
theorem Drafts.shapely_finish {root : NodeId} {p : Payload} {s : ParserState} (h : Drafts [] [(root, p)] s) (hp : p.IsUnit) :
    (s.finish root).Shapely := by
  have htree : (s.pendingComments.foldl (fun t c => t.attachComment root c) s.tree).Drafted [] [(root, p)] :=
    drafted_foldl_attachComment h.tree h.pending
  refine ⟨fun hn => ?_, fun hn _ hc => htree.comments hn hc, root, p, rfl, htree.known List.mem_cons_self, hp⟩
  obtain ⟨below, hbelow, hadmits⟩ := htree.shaped hn
  exact ⟨below, hbelow, hadmits List.not_mem_nil⟩

theorem named_of_tokenize {file text : String} {s : Stream} (hs : Stream.tokenize file text = .ok s) : Named s.tokens := by
  unfold Stream.tokenize tokensOf at hs
  split at hs
  · rename_i ts hts
    obtain rfl := Except.ok.inj hs
    exact named_of_tokensFrom hts
  · nomatch hs

/-- What a unit of a text builds is well shaped. -/
theorem shapely_of_unit {file text : String} {s : Stream} {trace : Bool} {root : NodeId} {t : ParserState}
    (hs : Stream.tokenize file text = .ok s) (ht : Rule.unit.parse maxNesting (.initial s trace) = .ok root t) : (t.finish root).Shapely := by
  have hunit := (builds_parse maxNesting).gives .unit [] [] (fun _ hnode => (nomatch hnode)) (.initial s trace)
    (drafts_initial (named_of_tokenize hs) trace)
  obtain ⟨p, hp, hdrafts⟩ := hunit.ok ht
  exact hdrafts.shapely_finish hp

end Parser

namespace Stream

open Courier.Parser

/-- Every node of a text that parses has the children that its payload admits, in their order, its comments are comments, and the root is a
fragment or a module. -/
theorem shapely_of_parse {file text : String} {s : Stream} {trace : Bool} {tree : Tree} (hs : Stream.tokenize file text = .ok s)
    (htree : (s.parse trace).1 = .ok tree) : tree.Shapely := by
  obtain ⟨root, t, ht, rfl⟩ := parse_eq_ok.1 htree
  exact shapely_of_unit hs ht

theorem shapely_of_parse_module : ∃ s tree,
    Stream.tokenize "unit" "module m \x7b \x7b namespace n \x7b x : T := [1, y]; a.b + (1); return msg(p : T)[T] \x7b \x7d; \x7d \x7d \x7d" = .ok s ∧
      (s.parse true).1 = .ok tree ∧ tree.Shapely := by
  obtain ⟨s, tree, hs, htree⟩ := exists_parse "unit"
    "module m \x7b \x7b namespace n \x7b x : T := [1, y]; a.b + (1); return msg(p : T)[T] \x7b \x7d; \x7d \x7d \x7d" true
    (by decide +kernel)
  exact ⟨s, tree, hs, htree, shapely_of_parse hs htree⟩

end Stream

end Courier
