import Courier.Proofs.Parser.Balance
import Courier.Proofs.Tree.OneTree

/-!
# Where flags go

Every at sign of a stream that parses gives its flags to one node, in the order of the at signs: a code fragment, or a message block of a
class. No other node has flags (`Stream.flagged_of_parse`). The ledger of flags counts the list behind each at sign (`flagLedger`).
-/

namespace Courier

/-- The flags of a tree are those behind the at signs of the tokens. -/
structure Tree.Flagged (t : Tree) (ts : List Token) : Prop where
  /-- As many nodes have flags as there are at signs. -/
  count : t.nodes.toList.countP (fun n => n.flags.isSome) = ts.countP (fun t => t.kind == .atSign)
  /-- In the order of their ids, the nodes have the flags behind the at signs. -/
  lists {before after : List Token} {sign : Token} (h : significant ts = before ++ sign :: after) (hsign : sign.kind = .atSign) :
    (t.nodes.toList.filterMap Node.flags)[before.countP (fun t => t.kind == .atSign)]? = some (flagsBehind after)
  /-- They are code fragments, or message blocks of classes. -/
  placed {id : NodeId} {n : Node} (h : t.node? id = some n) (hflags : n.flags.isSome = true) :
    n.kind = .codeFragmentBlock ∨ n.kind = .messageBlock ∧ ∃ c, n.parent = some c ∧ t.kind? c = some .classBlock

/-- The list behind an at sign comes at the place of that sign among them. -/
theorem getElem?_flagLists (before : List Token) {after : List Token} {sign : Token} (hsign : sign.kind = .atSign) :
    (flagLists (before ++ sign :: after))[before.countP (fun t => t.kind == .atSign)]? = some (flagsBehind after) := by
  induction before with
  | nil => rw [List.nil_append, flagLists, if_pos hsign]; rfl
  | cons t before ih =>
    rw [List.cons_append, flagLists]
    by_cases ht : t.kind = .atSign
    · rw [if_pos ht, List.countP_cons_of_pos (by simp [ht]), List.getElem?_cons_succ, ih]
    · rw [if_neg ht, List.countP_cons_of_neg (by simp [ht]), ih]

/-- Comments are no at signs. -/
theorem countP_significant (ts : List Token) :
    (significant ts).countP (fun t => t.kind == .atSign) = ts.countP (fun t => t.kind == .atSign) := by
  rw [significant, List.countP_filter]
  refine List.countP_congr (fun t _ => ?_)
  by_cases ht : t.kind = .atSign <;> simp [ht, Token.isComment, TokenKind.isComment]

/-- Only flags count, and only at signs count for them. -/
def flagLedger : Ledger (List String) where
  Name _ := True
  token t rest := if t.kind = .atSign then [flagsBehind (significant rest)] else []
  payload _ := []
  flags fs := [fs]
  dotted _ _ := trivial
  assigns := trivial
  named _ := rfl
  swap _ := rfl
  comment {t} h rest := if_neg (fun hat => by simp [Token.isComment, hat, TokenKind.isComment] at h)
  literal {t p} _ hp rest := if_neg (fun hat => by simp [Grammar.literalPayload?, hat] at hp)
  atSign {_} h {_} _ := if_pos h
  other _ hat _ _ rest := if_neg hat

theorem tokens_flagLedger (ts : List Token) : flagLedger.tokens ts = flagLists (significant ts) := by
  induction ts with
  | nil => rfl
  | cons t rest ih =>
    rw [Ledger.tokens, ih]
    cases hc : t.isComment with
    | true => rw [flagLedger.comment hc, significant_cons_comment hc]; rfl
    | false =>
      rw [significant_cons hc, flagLists]
      by_cases ht : t.kind = .atSign
      · rw [if_pos ht, show flagLedger.token t rest = [flagsBehind (significant rest)] from if_pos ht]
        rfl
      · rw [if_neg ht, show flagLedger.token t rest = [] from if_neg ht, List.nil_append]

theorem nodes_flagLedger (t : Tree) : flagLedger.nodes t = t.nodes.toList.filterMap Node.flags := by
  rw [Ledger.nodes, Tree.stock, List.flatMap_map, List.filterMap_eq_flatMap_toList]
  refine congrArg t.nodes.toList.flatMap (funext (fun n => ?_))
  cases n.flags <;> rfl

namespace Stream

open Courier.Parser

/-- Every at sign of a stream that parses gives the flags behind it to one node, in order: a code fragment, or a message block of a
class. -/
theorem flagged_of_parse {s : Stream} {trace : Bool} {tree : Tree} (htree : (s.parse trace).1 = .ok tree) : tree.Flagged s.tokens := by
  obtain ⟨root, t, ht, rfl⟩ := parse_eq_ok.1 htree
  have hisTree := ((grows_parse maxNesting .unit [] [] (.initial s trace) (holds_initial s trace)).ok ht).2.isTree_finish
  obtain ⟨hnodes, hplaced⟩ := flagLedger.nodes_of_unit (fun _ _ _ _ => trivial) ht
  rw [nodes_flagLedger, tokens_flagLedger] at hnodes
  refine ⟨?_, fun {before after sign} h hsign => ?_, fun {id n} hn hflags => ?_⟩
  · rw [← List.length_filterMap_eq_countP, hnodes, length_flagLists, countP_significant]
  · rw [hnodes, h]
    exact getElem?_flagLists before hsign
  · obtain ⟨fs, hfs⟩ := Option.isSome_iff_exists.1 hflags
    have hentry : (t.finish root).stock[id]? = some (n.payload, some fs) := by
      rw [Tree.getElem?_stock, hn, Option.map_some, hfs]
    rcases hplaced id n.payload fs hentry with hp | ⟨hp, hnone | ⟨c, p, l, ⟨m, hm, rfl, -, hbelow⟩, hkind⟩⟩
    · exact .inl (by rw [Node.kind, hp]; rfl)
    · cases hnone
    · have hchild : id ∈ m.children := hbelow.subset List.mem_cons_self
      have hparent := (hisTree.listed_below hm (List.mem_append_left _ hchild)).2
      rw [Tree.parent?, Tree.part_of_node? hn] at hparent
      exact .inr ⟨by rw [Node.kind, hp]; rfl, c, hparent, by rw [Tree.kind?, hm, Option.map_some, Node.kind, hkind]⟩

theorem flagged_of_parse_class : ∃ s tree, Stream.tokenize "unit"
      "@[a, self] \x7b class C \x7b @ # -\n msg f \x7b \x7d @[x] msg g \x7b return msg \x7b \x7d; \x7d \x7d \x7d" = .ok s ∧
    (s.parse true).1 = .ok tree ∧ tree.nodes.toList.filterMap Node.flags = [["a", "self"], [], ["x"]] ∧ tree.Flagged s.tokens := by
  obtain ⟨s, tree, hs, htree, hflags⟩ := exists_parse_eq "unit"
    "@[a, self] \x7b class C \x7b @ # -\n msg f \x7b \x7d @[x] msg g \x7b return msg \x7b \x7d; \x7d \x7d \x7d" true
    (fun tree => tree.nodes.toList.filterMap Node.flags) (show _ = some [["a", "self"], [], ["x"]] by decide +kernel)
  exact ⟨s, tree, hs, htree, hflags, flagged_of_parse htree⟩

end Stream

end Courier
