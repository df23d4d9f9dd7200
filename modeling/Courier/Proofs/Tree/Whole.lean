import Courier.Proofs.Parser.Comments
import Courier.Proofs.Tree.Branches
import Courier.Proofs.Tree.Visits
import Courier.Proofs.Tree.WellShaped

/-!
# Parsed trees as a whole

The nodes that a parse makes all lie below the root, and its comments are leaves there (`Stream.whole_of_unit`). So what goes down a
parsed tree sees all of it.
-/

namespace Courier

namespace Tree

/-- All nodes are below the root, no message has a return value, and every comment is listed as one. -/
structure Whole (t : Tree) : Prop where
  branches : t.Branches
  rooted : ∃ root, t.root = some root
  reachable {id : NodeId} (h : id < t.size) : t.Reachable id
  unanswered {id : NodeId} {n : Node} (h : t.node? id = some n) : n.payload.returnValue = none
  listed {c : NodeId} (h : t.kind? c = some .comment) : ∃ p, t.Reachable p ∧ c ∈ t.commentsOf p

variable {t : Tree} {root id c : NodeId} {n : Node} {ts : List Token}

theorem IsTree.reachable (h : t.IsTree root) (hm : t.Mirrored) (hid : id < t.size) : t.Reachable id := by
  refine ⟨root, h.root_eq, ?_⟩
  have hascends := h.grounded hid
  clear hid
  induction hascends using Relation.ReflTransGen.head_induction_on with
  | refl => exact .refl
  | head hparent _ ih => exact ih.tail ((Mirrored.owns hm _ _).1.1 hparent)

/-- Only a block lists comments. -/
theorem KeepsComments.isContainer (h : t.KeepsComments ts) (hn : t.node? id = some n) (hc : c ∈ n.comments) :
    n.kind.isContainer = true := by
  obtain ⟨b, m, hm, hcontainer, -, honly⟩ := h.listed (h.comments hn c hc)
  obtain rfl := honly id n hn hc
  obtain rfl := Option.some.inj (hm.symm.trans hn)
  exact hcontainer

/-- A comment lists no comments, as only blocks do. -/
theorem KeepsComments.below_comment (h : t.KeepsComments ts) (hshapely : t.Shapely) (hanswer : n.payload.returnValue = none)
    (hn : t.node? id = some n) (hkind : n.kind = .comment) : n.below = [] := by
  have hchildren : n.children = [] := by
    obtain ⟨below, hbelow, hadmits⟩ := hshapely.children hn
    cases hp : n.payload with
    | comment text =>
      rw [hp] at hadmits
      obtain rfl : below = [] := hadmits
      exact List.map_eq_nil_iff.1 hbelow
    | literal k value =>
      rw [Node.kind, hp] at hkind
      cases k <;> nomatch hkind
    | _ =>
      rw [Node.kind, hp] at hkind
      nomatch hkind
  have hcomments : n.comments = [] := by
    refine List.eq_nil_iff_forall_not_mem.2 (fun c hc => ?_)
    have hcontainer := h.isContainer hn hc
    rw [hkind] at hcontainer
    nomatch hcontainer
  rw [Node.below, Node.offspring, hcomments, hchildren, hanswer]
  rfl

theorem IsTree.whole (h : t.IsTree root) (hm : t.Mirrored) (hshapely : t.Shapely) (hkeeps : t.KeepsComments ts) : t.Whole := by
  have howns : ∀ {p c}, c ∈ t.below p ↔ t.parent? c = some p := fun {p c} => ((Mirrored.owns hm p c).1).symm
  refine ⟨branches_of_nodes ?_ ?_ ?_ ?_ ?_, ⟨root, h.root_eq⟩, fun hid => h.reachable hm hid, fun hn => h.unanswered hn, ?_⟩
  · intro r hr
    obtain rfl := Option.some.inj (h.root_eq.symm.trans hr)
    refine ⟨h.root_lt, fun p _ hmem => ?_⟩
    nomatch ((h.parentless h.root_lt).2 rfl).symm.trans (howns.1 hmem)
  · exact fun p _ c hc => lt_size_of_parent? (howns.1 hc)
  · refine fun p _ => List.nodup_iff_count_le_one.2 (fun c => ?_)
    rw [hm]
    split <;> decide
  · exact fun p _ q _ c hc hc' => Option.some.inj ((howns.1 hc).symm.trans (howns.1 hc'))
  · intro p hp c hc
    obtain ⟨n, hn⟩ := exists_node? hp
    rw [commentsOf, part_of_node? hn] at hc
    obtain ⟨text, htext⟩ := hshapely.comments hn hc
    obtain ⟨m, hm', hpayload⟩ := Option.map_eq_some_iff.1 htext
    refine ⟨by rw [commentText?, hm', Option.map_some, hpayload]; rfl, ?_⟩
    rw [below, part_of_node? hm']
    exact hkeeps.below_comment hshapely (h.unanswered hm') hm' (by rw [Node.kind, hpayload]; rfl)
  · intro c hc
    obtain ⟨b, m, hm', -, hcount, -⟩ := hkeeps.listed hc
    refine ⟨b, h.reachable hm (lt_size_of_node? hm'), ?_⟩
    rw [commentsOf, part_of_node? hm']
    exact List.count_pos_iff.1 (hcount ▸ Nat.one_pos)

end Tree

namespace Stream

open Courier.Parser

/-- What a unit of a text builds is a whole tree. -/
theorem whole_of_parse {file text : String} {s : Stream} {trace : Bool} {tree : Tree} (hs : Stream.tokenize file text = .ok s)
    (htree : (s.parse trace).1 = .ok tree) : tree.Whole := by
  have hm : tree.Mirrored := (Tree.Original.parsed htree).mirrored
  obtain ⟨root, t, ht, rfl⟩ := parse_eq_ok.1 htree
  have hgrown := (grows_parse maxNesting .unit [] [] (.initial s trace) (holds_initial s trace)).ok ht
  exact hgrown.2.isTree_finish.whole hm (shapely_of_unit hs ht) (keepsComments_of_unit hs ht)

end Stream

end Courier
