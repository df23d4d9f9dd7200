import Courier.Proofs.Lexical.Layout
import Courier.Proofs.Tree.Spans
import Courier.Proofs.Tree.Traversals
import Courier.Proofs.Tree.Whole

/-!
# The order of a tree is that of its text

The nodes of a tree that are no comments, listed in preorder, are its outline (`Tree.outline`): what a walk enters, without comments
(`Tree.Whole.outlineFrom_eq`). Where a tree is laid out over the tokens of a text, no node begins before its parent, siblings begin one
behind the other, and the whole outline is in the order of the text (`Stream.inTextOrder_of_parse`).
-/

namespace Courier

namespace Tree

/-- The ids below an id in lists of children, itself first, down as many levels as `fuel` says. -/
def outlineFrom (t : Tree) : Nat → NodeId → List NodeId
  | 0, _ => []
  | fuel + 1, id =>
    match t.node? id with
    | some n => id :: n.children.flatMap (t.outlineFrom fuel)
    | none => []

/-- The ids below the root in lists of children, in preorder. The size of a tree is enough where no node lies below itself. -/
def outline (t : Tree) : List NodeId :=
  match t.root with
  | some root => t.outlineFrom t.size root
  | none => []

/-- Two nodes are there, and their offsets are related. -/
def AtOffsets (t : Tree) (r : Nat → Nat → Prop) (a b : NodeId) : Prop :=
  ∃ n m, t.node? a = some n ∧ t.node? b = some m ∧ r n.location.offset m.location.offset

/-- The nodes that are no comments are at tokens that are none, and their order in the tree is their order in the text. -/
structure InTextOrder (t : Tree) (tokens : List Token) : Prop where
  located {id : NodeId} {n : Node} (hn : t.node? id = some n) (hcode : n.kind ≠ .comment) :
    ∃ u ∈ tokens, u.isComment = false ∧ n.location = u.location
  below {id : NodeId} {n : Node} (hn : t.node? id = some n) {c : NodeId} (hc : c ∈ n.children) : t.AtOffsets (· ≤ ·) id c
  siblings {id : NodeId} {n : Node} (hn : t.node? id = some n) : n.children.Pairwise (t.AtOffsets (· < ·))
  /-- The outline has each node once that is no comment. -/
  complete (id : NodeId) : id ∈ t.outline ↔ t.IsCode id
  nodup : t.outline.Nodup
  ordered : t.outline.Pairwise (t.AtOffsets (· ≤ ·))

variable {t : Tree} {id c x root : NodeId} {n : Node} {levels : Nat}

/-! ## The outline of a whole tree -/

theorem outline_eq (hroot : t.root = some root) : t.outline = t.outlineFrom t.size root := by
  rw [outline, hroot]

/-- No comment has a child. -/
theorem Whole.isCode_of_parent (h : t.Whole) (hn : t.node? id = some n) (hc : c ∈ n.children) : t.IsCode id := by
  refine ⟨n, hn, fun hkind => ?_⟩
  obtain ⟨p, hp, hlist⟩ := h.listed (c := id) (by rw [kind?, hn, Option.map_some, hkind])
  have hown : t.below id = n.below := part_of_node? hn
  have hbelow : c ∈ n.below := List.mem_append_right _ (List.mem_append_left _ hc)
  rw [← hown, (h.branches.comments hp hlist).2] at hbelow
  nomatch hbelow

/-- No child is a comment. -/
theorem Whole.isCode_of_child (h : t.Whole) (hn : t.node? id = some n) (hc : c ∈ n.children) : t.IsCode c := by
  have hown : t.below id = n.below := part_of_node? hn
  have hbelow : c ∈ t.below id := hown ▸ List.mem_append_right _ (List.mem_append_left _ hc)
  have hid : t.Reachable id := h.reachable (lt_size_of_node? hn)
  obtain ⟨m, hm⟩ := exists_node? (h.branches.present (hid.below hbelow))
  refine ⟨m, hm, fun hkind => ?_⟩
  obtain ⟨p, hp, hlist⟩ := h.listed (c := c) (by rw [kind?, hm, Option.map_some, hkind])
  exact h.branches.not_comment hid hn (List.mem_append_left _ hc) hp hlist

/-- The outline is what a walk enters, without the comments. -/
theorem Whole.outlineFrom_eq (h : t.Whole) (hid : t.IsCode id) (levels : Nat) :
    t.outlineFrom levels id = (t.preorder levels id).filter t.IsCode := by
  induction levels generalizing id with
  | zero => rfl
  | succ levels ih =>
    obtain ⟨n, hn, hcode⟩ := hid
    have hreachable := h.reachable (lt_size_of_node? hn)
    have hcomments : t.commentsOf id = n.comments := part_of_node? hn
    -- What is below a comment is that comment.
    have hnone : (n.comments.flatMap (t.preorder levels)).filter t.IsCode = [] := by
      refine List.filter_eq_nil_iff.2 (fun x hx hcode => ?_)
      obtain ⟨c, hc, hcx⟩ := List.mem_flatMap.1 hx
      obtain rfl := h.branches.eq_of_mem_preorder hreachable (hcomments ▸ hc) hcx
      obtain ⟨m, hm, hkind⟩ := of_decide_eq_true hcode
      exact hkind (kind_of_commentText? hm (h.branches.comments hreachable (hcomments ▸ hc)).1)
    have hchildren : n.children.flatMap (t.outlineFrom levels) =
        (n.children.flatMap (t.preorder levels)).filter t.IsCode := by
      rw [List.filter_flatMap]
      exact List.flatMap_congr (fun c hc => ih (h.isCode_of_child hn hc))
    rw [outlineFrom, preorder, hn]
    dsimp only
    have hkept : decide (t.IsCode id) = true := decide_eq_true ⟨n, hn, hcode⟩
    rw [List.filter_cons_of_pos (p := fun c => decide (t.IsCode c)) hkept, Node.below, Node.offspring, h.unanswered hn,
      Option.toList_none, List.append_nil, List.flatMap_append, List.filter_append, hnone, List.nil_append, hchildren]

/-- The outline of a whole tree has each node that is no comment. -/
theorem Whole.mem_outline (h : t.Whole) (hroot : t.root = some root) (hcode : t.IsCode root) : id ∈ t.outline ↔ t.IsCode id := by
  have hreachable : t.Reachable root := ⟨root, hroot, .refl⟩
  rw [outline_eq hroot, h.outlineFrom_eq hcode, List.mem_filter, decide_eq_true_iff]
  refine ⟨fun hid => hid.2, fun hid => ⟨?_, hid⟩⟩
  obtain ⟨n, hn, -⟩ := hid
  obtain ⟨root', hroot', hreaches⟩ := h.reachable (lt_size_of_node? hn)
  obtain rfl := Option.some.inj (hroot.symm.trans hroot')
  exact (h.branches.hasLevels hreachable).mem_preorder hreaches (lt_size_of_node? hn)

theorem Whole.nodup_outline (h : t.Whole) (hroot : t.root = some root) (hcode : t.IsCode root) : t.outline.Nodup := by
  rw [outline_eq hroot, h.outlineFrom_eq hcode]
  exact (h.branches.nodup_preorder ⟨root, hroot, .refl⟩ t.size).filter _

/-! ## Trees that are laid out -/

section

variable {place : Nat → Location} {extents : NodeId → Extent} {made : List (NodeId × Extent)} {a b : NodeId} {count : Nat}

theorem LaidOut.fills (h : t.LaidOut place extents [] made) (hn : t.node? id = some n) (hcode : n.kind ≠ .comment) :
    n.Fills place extents (extents id) :=
  h.finished hn hcode List.not_mem_nil

/-- What is below a node begins inside its extent. -/
theorem LaidOut.mem_outlineFrom (h : t.LaidOut place extents [] made) (hid : t.IsCode id) (hx : x ∈ t.outlineFrom levels id) :
    (extents id).start ≤ (extents x).start ∧ (extents x).start ≤ (extents id).stop := by
  induction levels generalizing id with
  | zero => nomatch hx
  | succ levels ih =>
    obtain ⟨n, hn, hcode⟩ := hid
    have hfills := h.fills hn hcode
    rw [outlineFrom, hn] at hx
    rcases List.mem_cons.1 hx with rfl | hx
    · exact ⟨Nat.le_refl _, hfills.forward⟩
    · obtain ⟨c, hc, hx⟩ := List.mem_flatMap.1 hx
      obtain ⟨hstart, hstop⟩ := ih (h.listed hn hc).1 hx
      obtain ⟨hstart', hstop', -⟩ := hfills.children.inside hc
      exact ⟨Nat.le_trans hstart' hstart, Nat.le_trans hstop hstop'⟩

/-- What is below a child begins where the child in front of it has ended. -/
theorem LaidOut.pairwise_outlineFrom (h : t.LaidOut place extents [] made) (hid : t.IsCode id) (levels : Nat) :
    (t.outlineFrom levels id).Pairwise (fun x y => (extents x).start ≤ (extents y).start) := by
  induction levels generalizing id with
  | zero => exact .nil
  | succ levels ih =>
    obtain ⟨n, hn, hcode⟩ := hid
    have hfills := h.fills hn hcode
    rw [outlineFrom, hn]
    refine List.pairwise_cons.2 ⟨fun x hx => ?_, List.pairwise_flatMap.2 ⟨fun c hc => ih (h.listed hn hc).1, ?_⟩⟩
    · obtain ⟨c, hc, hx⟩ := List.mem_flatMap.1 hx
      exact Nat.le_trans (hfills.children.inside hc).1 (h.mem_outlineFrom (h.listed hn hc).1 hx).1
    · refine hfills.children.ordered.imp_of_mem (fun {c d} hc hd hcd x hx y hy => ?_)
      have hstop := (h.mem_outlineFrom (h.listed hn hc).1 hx).2
      have hstart := (h.mem_outlineFrom (h.listed hn hd).1 hy).1
      exact Nat.le_trans (Nat.le_trans hstop hcd.2) hstart

/-- Nodes are at the offsets where their extents begin. -/
theorem LaidOut.atOffsets (h : t.LaidOut place extents [] made) {r : Nat → Nat → Prop} (ha : t.IsCode a) (hb : t.IsCode b)
    (hr : r (place (extents a).start).offset (place (extents b).start).offset) : t.AtOffsets r a b := by
  obtain ⟨n, hn, hcode⟩ := ha
  obtain ⟨m, hm, hcode'⟩ := hb
  refine ⟨n, m, hn, hm, ?_⟩
  rw [(h.fills hn hcode).location, (h.fills hm hcode').location]
  exact hr

/-- Where the tokens of a text are at growing offsets, a tree that is laid out over them is in their order. -/
theorem LaidOut.inTextOrder (h : t.LaidOut place extents [] made) (hw : t.Whole) (hroot : t.root = some root) (hcode : t.IsCode root)
    (hstop : (extents root).stop < count) (hplace : ∀ i j, i < j → j < count → (place i).offset < (place j).offset)
    {tokens : List Token} (htoken : ∀ i < count, ∃ u ∈ tokens, u.isComment = false ∧ place i = u.location) :
    t.InTextOrder tokens := by
  have hmem : ∀ id, id ∈ t.outline ↔ t.IsCode id := fun id => hw.mem_outline hroot hcode
  have hinside : ∀ {id}, t.IsCode id → (extents id).start < count := by
    intro id hid
    have hlist := outline_eq hroot ▸ (hmem id).2 hid
    exact Nat.lt_of_le_of_lt (h.mem_outlineFrom hcode hlist).2 hstop
  have hle : ∀ {a b}, t.IsCode a → t.IsCode b → (extents a).start ≤ (extents b).start → t.AtOffsets (· ≤ ·) a b := by
    intro a b ha hb hab
    rcases Nat.lt_or_eq_of_le hab with hab | hab
    · exact h.atOffsets ha hb (Nat.le_of_lt (hplace _ _ hab (hinside hb)))
    · exact h.atOffsets ha hb (by rw [hab])
  refine ⟨fun hn hkind => ?_, fun hn c hc => ?_, fun {id n} hn => ?_, hmem, hw.nodup_outline hroot hcode, ?_⟩
  · rw [(h.fills hn hkind).location]
    exact htoken _ (hinside ⟨_, hn, hkind⟩)
  · obtain ⟨m, hm, hkind⟩ := hw.isCode_of_parent hn hc
    obtain rfl := Option.some.inj (hn.symm.trans hm)
    exact hle ⟨_, hn, hkind⟩ (h.listed hn hc).1 ((h.fills hn hkind).children.inside hc).1
  · cases hchildren : n.children with
    | nil => exact .nil
    | cons c cs =>
      obtain ⟨m, hm, hkind⟩ := hw.isCode_of_parent hn (hchildren ▸ List.mem_cons_self)
      obtain rfl := Option.some.inj (hn.symm.trans hm)
      rw [← hchildren]
      refine (h.fills hn hkind).children.ordered.imp_of_mem (fun {c d} hc hd hcd => ?_)
      have hd := (h.listed hn hd).1
      exact h.atOffsets (h.listed hn hc).1 hd (hplace _ _ hcd.1 (hinside hd))
  · have hpairwise := h.pairwise_outlineFrom hcode t.size
    rw [← outline_eq hroot] at hpairwise
    exact hpairwise.imp_of_mem (fun {a b} ha hb hab => hle ((hmem a).1 ha) ((hmem b).1 hb) hab)

end

end Tree

namespace Stream

open Courier.Parser

/-- The place of a number is that of its token. -/
theorem exists_place (s : Stream) {i : Nat} (hi : i < s.script.tokens.length) :
    ∃ u ∈ s.tokens, u.isComment = false ∧ s.script.place i = u.location := by
  have hmem : s.script.tokens[i] ∈ significant s.tokens := List.getElem_mem hi
  refine ⟨s.script.tokens[i], (List.mem_filter.1 hmem).1, isComment_of_mem_significant hmem, ?_⟩
  rw [Script.place, List.drop_eq_getElem_cons hi, placeIn]

/-- The tokens of a text are at growing offsets. -/
theorem offset_place_lt {file text : String} {s : Stream} (hs : Stream.tokenize file text = .ok s) {i j : Nat} (hij : i < j)
    (hj : j < s.script.tokens.length) : (s.script.place i).offset < (s.script.place j).offset := by
  obtain ⟨-, -, -, hlaid⟩ := Stream.laid_of_tokenize hs
  have hpairwise : s.tokens.Pairwise (fun t u => t.location.offset < u.location.offset) :=
    hlaid.pairwise.imp_of_mem (fun ht _ hle => Nat.lt_of_lt_of_le (hlaid.spanStart_lt ht) hle)
  have hi := Nat.lt_trans hij hj
  rw [Script.place, Script.place, List.drop_eq_getElem_cons hi, List.drop_eq_getElem_cons hj, placeIn, placeIn]
  exact List.pairwise_iff_getElem.1 (hpairwise.filter _) i j hi hj hij

/-- In the tree of a text that parses, every node that is no comment is at a token that is none, no child is before its parent, siblings
are one behind the other, and the nodes that are no comments, in preorder, are in the order of the text. -/
theorem inTextOrder_of_parse {file text : String} {s : Stream} {trace : Bool} {tree : Tree} (hs : Stream.tokenize file text = .ok s)
    (htree : (s.parse trace).1 = .ok tree) : tree.InTextOrder s.tokens := by
  obtain ⟨extents, root, hroot, hlaid, hstop, -⟩ := laidOut_of_parse htree
  exact hlaid.inTextOrder (whole_of_parse hs htree) hroot (hlaid.known List.mem_cons_self).1 hstop
    (fun _ _ hij hj => offset_place_lt hs hij hj) (fun _ hi => s.exists_place hi)

theorem inTextOrder_of_parse_send : ∃ s tree,
    Stream.tokenize "unit" "# c\n\x7b (a) b: 1 + c; x := msg \x7b return; \x7d; \x7d" = .ok s ∧ (s.parse true).1 = .ok tree ∧
      tree.InTextOrder s.tokens := by
  obtain ⟨s, tree, hs, htree⟩ := exists_parse "unit" "# c\n\x7b (a) b: 1 + c; x := msg \x7b return; \x7d; \x7d" true (by decide +kernel)
  exact ⟨s, tree, hs, htree, inTextOrder_of_parse hs htree⟩

end Stream

end Courier
