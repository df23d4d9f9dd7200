import Courier.Proofs.Tree.Objects
import Courier.Proofs.Tree.Whole

/-!
# The JSON of a tree tells the tree

Two trees with the same JSON are matched node by node, from the roots on and child by child (`Tree.Matched`). Nodes that are matched have
the same object, and an object tells what its node is made of, so they are made of the same (`Tree.Whole.sameNode_of_matched`). In a
whole tree every node that is no comment is matched, and only once, so the trees are the same but for byte offsets, the places of comments
and the numbers of the nodes (`Stream.exists_same_of_toJson_eq`).
-/

namespace Courier

namespace Tree

/-- Whether the node of an id is there and is no comment. -/
def IsPlain (t : Tree) (id : NodeId) : Prop :=
  ∃ n, t.node? id = some n ∧ n.kind ≠ .comment

/-- What two nodes have in common if they are the same but for numbers and byte offsets. -/
structure SameNode (t t' : Tree) (R : NodeId → NodeId → Prop) (n n' : Node) : Prop where
  payload : n.payload = n'.payload
  line : n.location.line = n'.location.line
  column : n.location.column = n'.location.column
  flags : n.flags = n'.flags
  comments : n.comments.map t.commentText? = n'.comments.map t'.commentText?
  children : List.Forall₂ R n.children n'.children

/-- The relation is a correspondence between the nodes of two trees that are no comments: each of them has one partner in the other
tree, the roots are partners, and partners are the same, with children that are partners in order. -/
structure Same (t t' : Tree) (R : NodeId → NodeId → Prop) : Prop where
  roots : ∃ root root', t.root = some root ∧ t'.root = some root' ∧ R root root'
  left {i : NodeId} : t.IsPlain i ↔ ∃ j, R i j
  right {j : NodeId} : t'.IsPlain j ↔ ∃ i, R i j
  unique {i j j' : NodeId} (h : R i j) (h' : R i j') : j = j'
  injective {i i' j : NodeId} (h : R i j) (h' : R i' j) : i = i'
  nodes {i j : NodeId} (h : R i j) : ∃ n n', t.node? i = some n ∧ t'.node? j = some n' ∧ t.SameNode t' R n n'

/-- The nodes stand at the same place below the roots of their trees, going from children to children. -/
inductive Matched (t t' : Tree) : NodeId → NodeId → Prop
  | root {root root' : NodeId} (h : t.root = some root) (h' : t'.root = some root') : Matched t t' root root'
  | child {i j c d : NodeId} {n n' : Node} {k : Nat} (h : Matched t t' i j) (hn : t.node? i = some n) (hn' : t'.node? j = some n')
      (hc : n.children[k]? = some c) (hd : n'.children[k]? = some d) : Matched t t' c d

variable {t t' : Tree} {i i' j j' c p : NodeId} {n n' : Node}

theorem Matched.swap (h : t.Matched t' i j) : t'.Matched t j i := by
  induction h with
  | root h h' => exact .root h' h
  | child _ hn hn' hc hd ih => exact .child ih hn' hn hd hc

/-! ## Objects tell their nodes -/

theorem map_ofTexts_injective {f f' : Option (List String)} (h : f.map Json.ofTexts = f'.map Json.ofTexts) : f = f' := by
  have htexts := congrArg (Option.map Json.texts) h
  simpa only [Option.map_map, Function.comp_def, Json.texts_ofTexts, Option.map_id'] using htexts

/-- A field that is there for a non-empty list only tells the list. -/
theorem eq_of_ite_eq {α β : Type} {f : List α → Json} {g : List β → Json} {as : List α} {bs : List β}
    (h : (if as = [] then none else some (f as)) = if bs = [] then none else some (g bs)) :
    (as = [] ∧ bs = []) ∨ f as = g bs := by
  by_cases has : as = []
  · by_cases hbs : bs = []
    · exact .inl ⟨has, hbs⟩
    · rw [if_pos has, if_neg hbs] at h
      nomatch h
  · by_cases hbs : bs = []
    · rw [if_neg has, if_pos hbs] at h
      nomatch h
    · rw [if_neg has, if_neg hbs] at h
      exact .inr (Option.some.inj h)

/-- Nodes with the same object are made of the same. -/
theorem Shows.payload_eq {json : Json} (h : t.Shows n json) (h' : t'.Shows n' json)
    (hvalue : n.payload.returnValue = n'.payload.returnValue) : n.payload = n'.payload := by
  refine Payload.ext_fields ?_ (fun key => ?_) hvalue
  · have hkind := h.kind.symm.trans h'.kind
    exact Kind.name_injective (Json.text.inj (Option.some.inj hkind))
  · by_cases hkey : key ∈ Payload.commonKeys
    · rw [n.payload.lookup_common hkey, n'.payload.lookup_common hkey]
    · exact (h.payload hkey).symm.trans (h'.payload hkey)

theorem Shows.comments_eq {json : Json} (h : t.Shows n json) (h' : t'.Shows n' json) :
    n.comments.filterMap t.commentText? = n'.comments.filterMap t'.commentText? := by
  rcases eq_of_ite_eq (h.comments.symm.trans h'.comments) with ⟨hnil, hnil'⟩ | htexts
  · rw [hnil, hnil']
  · rw [← Json.texts_ofTexts (n.comments.filterMap t.commentText?), htexts, Json.texts_ofTexts]

theorem Shows.children_eq {json : Json} (h : t.Shows n json) (h' : t'.Shows n' json) :
    n.children.map t.object = n'.children.map t'.object := by
  rcases eq_of_ite_eq (f := fun cs => .array (cs.map t.object)) (g := fun cs => .array (cs.map t'.object))
    (h.children.symm.trans h'.children) with ⟨hnil, hnil'⟩ | hobjects
  · rw [hnil, hnil']
    rfl
  · exact Json.array.inj hobjects

/-! ## Nodes that are matched -/

section

variable (h : t.Whole) (h' : t'.Whole) (hjson : t.toJson = t'.toJson)

include h h' hjson

/-- Nodes that are matched are below the roots, and have the same object. -/
theorem Whole.matched_object (hm : t.Matched t' i j) : t.Reachable i ∧ t'.Reachable j ∧ t.object i = t'.object j := by
  induction hm with
  | root hroot hroot' =>
    rw [toJson_eq hroot, toJson_eq hroot'] at hjson
    exact ⟨⟨_, hroot, .refl⟩, ⟨_, hroot', .refl⟩, hjson⟩
  | @child i j c d n n' k _ hn hn' hc hd ih =>
    obtain ⟨hi, hj, hobject⟩ := ih
    have hshows := (h.branches.hasLevels hi).shows hn
    have hshows' := (h'.branches.hasLevels hj).shows hn'
    have hchildren := (hobject ▸ hshows).children_eq hshows'
    have hbelow : t.below i = n.below := part_of_node? hn
    have hbelow' : t'.below j = n'.below := part_of_node? hn'
    refine ⟨hi.below ?_, hj.below ?_, ?_⟩
    · exact hbelow ▸ List.mem_append_right _ (List.mem_append_left _ (List.mem_of_getElem? hc))
    · exact hbelow' ▸ List.mem_append_right _ (List.mem_append_left _ (List.mem_of_getElem? hd))
    · have hat := congrArg (fun objects => objects[k]?) hchildren
      simpa [hc, hd] using hat

/-- Nodes that are matched are made of the same, and their children are matched in order. -/
theorem Whole.sameNode_of_matched (hm : t.Matched t' i j) (hn : t.node? i = some n) (hn' : t'.node? j = some n') :
    t.SameNode t' (t.Matched t') n n' := by
  obtain ⟨hi, hj, hobject⟩ := h.matched_object h' hjson hm
  have hshows := hobject ▸ (h.branches.hasLevels hi).shows hn
  have hshows' := (h'.branches.hasLevels hj).shows hn'
  have hvalue : n.payload.returnValue = n'.payload.returnValue := (h.unanswered hn).trans (h'.unanswered hn').symm
  refine ⟨hshows.payload_eq hshows' hvalue, ?_, ?_, ?_, ?_, ?_⟩
  · exact Json.number.inj (Option.some.inj (hshows.line.symm.trans hshows'.line))
  · exact Json.number.inj (Option.some.inj (hshows.column.symm.trans hshows'.column))
  · exact map_ofTexts_injective (hshows.flags.symm.trans hshows'.flags)
  · rw [h.branches.map_commentText? hi hn, h'.branches.map_commentText? hj hn', hshows.comments_eq hshows']
  · have hlength := congrArg List.length (hshows.children_eq hshows')
    rw [List.length_map, List.length_map] at hlength
    refine List.forall₂_iff_zip.2 ⟨hlength, fun {c d} hcd => ?_⟩
    obtain ⟨k, hk⟩ := List.mem_iff_getElem?.1 hcd
    obtain ⟨hc, hd⟩ := List.getElem?_zip_eq_some.1 hk
    exact .child hm hn hn' hc hd

/-- A node that is matched is no comment, as those are listed apart from children. -/
theorem Whole.isPlain_of_matched (hm : t.Matched t' i j) : t.IsPlain i := by
  obtain ⟨hi, -, -⟩ := h.matched_object h' hjson hm
  obtain ⟨m, hi'⟩ := exists_node? (h.branches.present hi)
  refine ⟨m, hi', fun hkind => ?_⟩
  obtain ⟨p, hp, hlist⟩ := h.listed (c := i) (by rw [kind?, hi', Option.map_some, hkind])
  cases hm with
  | root hroot _ => exact h.branches.top hroot hp (mem_below_of_mem_commentsOf hlist)
  | child hm hn _ hc _ =>
    obtain ⟨hq, -, -⟩ := h.matched_object h' hjson hm
    exact h.branches.not_comment hq hn (List.mem_append_left _ (List.mem_of_getElem? hc)) hp hlist

/-- A node is matched with one node only. -/
theorem Whole.matched_unique (hm : t.Matched t' i j) (hm' : t.Matched t' i j') : j = j' := by
  have hchild : ∀ {i j c} {n : Node}, t.Matched t' i j → t.node? i = some n → c ∈ n.children → t.Reachable i ∧ c ∈ t.below i := by
    intro i j c n hm hn hc
    have hbelow : t.below i = n.below := part_of_node? hn
    exact ⟨(h.matched_object h' hjson hm).1, hbelow ▸ List.mem_append_right _ (List.mem_append_left _ hc)⟩
  induction hm generalizing j' with
  | root hroot hroot' =>
    cases hm' with
    | root _ hother => exact Option.some.inj (hroot'.symm.trans hother)
    | child hm hn _ hc _ =>
      obtain ⟨hp, hlist⟩ := hchild hm hn (List.mem_of_getElem? hc)
      exact absurd hlist (h.branches.top hroot hp)
  | @child i j c d n n' k hm hn hn' hc hd ih =>
    obtain ⟨hi, hlist⟩ := hchild hm hn (List.mem_of_getElem? hc)
    cases hm' with
    | root hroot _ => exact absurd hlist (h.branches.top hroot hi)
    | @child p q _ _ m m' l hp hm hm' hc' hd' =>
      obtain ⟨hp', hlist'⟩ := hchild hp hm (List.mem_of_getElem? hc')
      obtain rfl := h.branches.once hi hp' hlist hlist'
      obtain rfl := ih hp
      obtain rfl := Option.some.inj (hn.symm.trans hm)
      obtain rfl := Option.some.inj (hn'.symm.trans hm')
      have hbelow : t.below i = n.below := part_of_node? hn
      have hnodup : n.below.Nodup := hbelow ▸ h.branches.nodup hi
      have hchildren : n.children.Nodup := ((List.nodup_append.1 hnodup).2.1).of_append_left
      have hk : k = l := (List.getElem?_inj (List.getElem?_eq_some_iff.1 hc).1 hchildren).1 (hc.trans hc'.symm)
      subst hk
      exact Option.some.inj (hd.symm.trans hd')

/-- Every node that is no comment is matched. -/
theorem Whole.exists_matched (hplain : t.IsPlain i) : ∃ j, t.Matched t' i j := by
  obtain ⟨root, hroot⟩ := h.rooted
  obtain ⟨root', hroot'⟩ := h'.rooted
  obtain ⟨m, hm, hkind⟩ := hplain
  obtain ⟨r, hr, hreaches⟩ := h.reachable (lt_size_of_node? hm)
  obtain rfl := Option.some.inj (hroot.symm.trans hr)
  induction hreaches generalizing m with
  | refl => exact ⟨root', .root hroot hroot'⟩
  | @tail p c hp hlist ih =>
    have hp' : t.Reachable p := ⟨root, hroot, hp⟩
    obtain ⟨n, hn⟩ := exists_node? (h.branches.present hp')
    have hbelow : t.below p = n.below := part_of_node? hn
    have hown : t.commentsOf p = n.comments := part_of_node? hn
    -- A comment lists nothing.
    have hpkind : n.kind ≠ .comment := by
      intro hcomment
      obtain ⟨q, hq, hpq⟩ := h.listed (c := p) (by rw [kind?, hn, Option.map_some, hcomment])
      rw [(h.branches.comments hq hpq).2] at hlist
      nomatch hlist
    obtain ⟨j, hj⟩ := ih n hn hpkind
    have hchild : c ∈ n.children := by
      rw [hbelow, Node.below, Node.offspring, h.unanswered hn] at hlist
      rcases List.mem_append.1 hlist with hcomment | hoffspring
      · exact absurd (kind_of_commentText? hm (h.branches.comments hp' (hown ▸ hcomment)).1) hkind
      · simpa using hoffspring
    obtain ⟨n', hn'⟩ := exists_node? (h'.branches.present (h.matched_object h' hjson hj).2.1)
    have hlength := (h.sameNode_of_matched h' hjson hj hn hn').children.length_eq
    obtain ⟨k, hk, hkc⟩ := List.mem_iff_getElem.1 hchild
    exact ⟨n'.children[k], .child hj hn hn' (List.getElem?_eq_some_iff.2 ⟨hk, hkc⟩) (List.getElem?_eq_getElem (hlength ▸ hk))⟩

end

theorem Whole.same (h : t.Whole) (h' : t'.Whole) (hjson : t.toJson = t'.toJson) : t.Same t' (t.Matched t') := by
  obtain ⟨root, hroot⟩ := h.rooted
  obtain ⟨root', hroot'⟩ := h'.rooted
  refine ⟨⟨root, root', hroot, hroot', .root hroot hroot'⟩, fun {i} => ⟨?_, ?_⟩, fun {j} => ⟨?_, ?_⟩, ?_, ?_, fun hm => ?_⟩
  · exact h.exists_matched h' hjson
  · exact fun ⟨j, hm⟩ => h.isPlain_of_matched h' hjson hm
  · intro hplain
    obtain ⟨i, hm⟩ := h'.exists_matched h hjson.symm hplain
    exact ⟨i, hm.swap⟩
  · exact fun ⟨i, hm⟩ => h'.isPlain_of_matched h hjson.symm hm.swap
  · exact fun hm hm' => h.matched_unique h' hjson hm hm'
  · exact fun hm hm' => h'.matched_unique h hjson.symm hm.swap hm'.swap
  · obtain ⟨hi, hj, -⟩ := h.matched_object h' hjson hm
    obtain ⟨n, hn⟩ := exists_node? (h.branches.present hi)
    obtain ⟨n', hn'⟩ := exists_node? (h'.branches.present hj)
    exact ⟨n, n', hn, hn', h.sameNode_of_matched h' hjson hm hn hn'⟩

end Tree

namespace Stream

open Courier.Parser

/-- The trees of two texts with the same JSON are the same but for byte offsets, the places of comments and the numbers of the nodes. -/
theorem exists_same_of_toJson_eq {file file' text text' : String} {s s' : Stream} {trace trace' : Bool} {t t' : Tree}
    (hs : Stream.tokenize file text = .ok s) (ht : (s.parse trace).1 = .ok t) (hs' : Stream.tokenize file' text' = .ok s')
    (ht' : (s'.parse trace').1 = .ok t') (hjson : t.toJson = t'.toJson) : ∃ R, t.Same t' R :=
  ⟨_, (whole_of_parse hs ht).same (whole_of_parse hs' ht') hjson⟩

/-- A comment at the beginning of a block and one behind it make trees with the same JSON, in which the nodes have other numbers. -/
theorem exists_same_of_toJson_eq_comment : ∃ s s' t t' R, Stream.tokenize "a" "\x7b # c\n \x7d" = .ok s ∧ (s.parse true).1 = .ok t ∧
    Stream.tokenize "b" "\x7b\n \x7d # c" = .ok s' ∧ (s'.parse true).1 = .ok t' ∧ t.kind? 1 = some .comment ∧
    t'.kind? 1 = some .statementsBlock ∧ t.toJson = t'.toJson ∧ t.Same t' R := by
  obtain ⟨s, t, hs, ht, htree⟩ := exists_parse_eq "a" "\x7b # c\n \x7d" true id
    (a := ⟨"a", #[⟨.codeFragmentBlock, ⟨1, 1, 0⟩, none, [2], [1], none⟩, ⟨.comment "# c", ⟨1, 3, 2⟩, some 0, [], [], none⟩,
      ⟨.statementsBlock, ⟨2, 2, 7⟩, some 0, [], [], none⟩], some 0⟩) (by decide +kernel)
  obtain ⟨s', t', hs', ht', htree'⟩ := exists_parse_eq "b" "\x7b\n \x7d # c" true id
    (a := ⟨"b", #[⟨.codeFragmentBlock, ⟨1, 1, 0⟩, none, [1], [2], none⟩, ⟨.statementsBlock, ⟨2, 2, 3⟩, some 0, [], [], none⟩,
      ⟨.comment "# c", ⟨2, 4, 5⟩, some 0, [], [], none⟩], some 0⟩) (by decide +kernel)
  replace htree : t = _ := htree
  replace htree' : t' = _ := htree'
  have hjson : t.toJson = t'.toJson := by
    rw [htree, htree']
    rfl
  obtain ⟨R, hsame⟩ := exists_same_of_toJson_eq hs ht hs' ht' hjson
  exact ⟨s, s', t, t', R, hs, ht, hs', ht', by rw [htree]; rfl, by rw [htree']; rfl, hjson, hsame⟩

end Stream

end Courier
