import Courier.Proofs.Parser.Leaves
import Courier.Proofs.Tree.Schema

/-!
# Drafts of nodes

A node is made without children and gets them one by one, so it is a draft before it is what its payload admits. `Drafts opened made`
says of a state that all nodes but the drafts `opened` have the children they may have, and that the nodes `made` have the payloads
given; what the drafts have got so far is part of them. `Builds` says what a parser makes of a state, and the lemmas here tell how
each operation changes the drafts: it opens one, gives it a child or closes it.
-/

namespace Courier

/-- A node that is not finished: its payload and the payloads of the children it has got. -/
structure Draft where
  node : NodeId
  payload : Payload
  below : List Payload

namespace Tree

/-- The node of an id is a comment. -/
def IsComment (t : Tree) (id : NodeId) : Prop :=
  ∃ text, t.payload? id = some (.comment text)

/-- All nodes but the drafts are finished, and the payloads of some that were made are known. -/
structure Drafted (opened : List Draft) (made : List (NodeId × Payload)) (t : Tree) : Prop where
  shaped {id : NodeId} {n : Node} (h : t.node? id = some n) :
    ∃ below, n.children.map t.payload? = below.map some ∧ (id ∉ opened.map Draft.node → n.payload.Admits below)
  drafts {d : Draft} (h : d ∈ opened) :
    ∃ n, t.node? d.node = some n ∧ n.payload = d.payload ∧ n.children.map t.payload? = d.below.map some
  distinct : (opened.map Draft.node).Nodup
  known {m : NodeId × Payload} (h : m ∈ made) : t.payload? m.1 = some m.2
  comments {id : NodeId} {n : Node} (h : t.node? id = some n) {c : NodeId} (hc : c ∈ n.comments) : t.IsComment c

section

variable {t t' : Tree} {opened : List Draft} {made : List (NodeId × Payload)}

theorem payload?_alloc {i : NodeId} {q : Payload} (h : t.payload? i = some q) (p : Payload) (l : Location) :
    (t.alloc p l).2.payload? i = some q := by
  have hlt : i ≠ t.size := by
    rintro rfl
    have hnone : t.node? t.size = none := Array.getElem?_eq_none (Nat.le_refl _)
    rw [payload?, hnone] at h
    nomatch h
  rw [payload?, node?_alloc, if_neg hlt]
  exact h

/-- The payloads of children stay the same as long as no payload is changed. -/
theorem map_payload?_mono {cs : List NodeId} {below : List Payload} (h : cs.map t.payload? = below.map some)
    (hmono : ∀ i q, t.payload? i = some q → t'.payload? i = some q) : cs.map t'.payload? = below.map some := by
  induction cs generalizing below with
  | nil =>
    rw [← h]
    rfl
  | cons c cs ih =>
    cases below with
    | nil => nomatch h
    | cons p below =>
      obtain ⟨hc, hcs⟩ := List.cons.inj h
      rw [List.map_cons, List.map_cons, hmono c p hc, ih hcs]

theorem IsComment.mono {c : NodeId} (h : t.IsComment c) (hmono : ∀ i q, t.payload? i = some q → t'.payload? i = some q) :
    t'.IsComment c := by
  obtain ⟨text, htext⟩ := h
  exact ⟨text, hmono c _ htext⟩

/-- A new node is a draft without children. -/
theorem Drafted.alloc (h : t.Drafted opened made) (p : Payload) (l : Location) :
    (t.alloc p l).2.Drafted (⟨t.size, p, []⟩ :: opened) made := by
  have hmono : ∀ i q, t.payload? i = some q → (t.alloc p l).2.payload? i = some q := fun i q hq => payload?_alloc hq p l
  have hfresh : t.node? t.size = none := Array.getElem?_eq_none (Nat.le_refl _)
  have hnew : (t.alloc p l).2.node? t.size = some (.fresh p l) := by rw [node?_alloc, if_pos rfl]
  have hold : ∀ {id : NodeId} {n : Node}, t.node? id = some n → (t.alloc p l).2.node? id = some n := by
    intro id n hn
    rw [node?_alloc, if_neg, hn]
    rintro rfl
    rw [hfresh] at hn
    nomatch hn
  refine ⟨?_, ?_, ?_, fun hm => hmono _ _ (h.known hm), ?_⟩
  · intro id n hn
    rw [node?_alloc] at hn
    split at hn
    · rename_i hid
      obtain rfl := Option.some.inj hn
      exact ⟨[], rfl, fun hnot => absurd List.mem_cons_self (hid ▸ hnot)⟩
    · obtain ⟨below, hbelow, hadmits⟩ := h.shaped hn
      exact ⟨below, map_payload?_mono hbelow hmono, fun hnot => hadmits (fun hmem => hnot (List.mem_cons_of_mem _ hmem))⟩
  · intro d hd
    rcases List.mem_cons.1 hd with rfl | hd
    · exact ⟨.fresh p l, hnew, rfl, rfl⟩
    · obtain ⟨n, hn, hpayload, hbelow⟩ := h.drafts hd
      exact ⟨n, hold hn, hpayload, map_payload?_mono hbelow hmono⟩
  · refine List.nodup_cons.2 ⟨fun hmem => ?_, h.distinct⟩
    obtain ⟨d, hd, hnode⟩ := List.mem_map.1 hmem
    obtain ⟨n, hn, -, -⟩ := h.drafts hd
    rw [hnode, hfresh] at hn
    nomatch hn
  · intro id n hn c hc
    rw [node?_alloc] at hn
    split at hn
    · obtain rfl := Option.some.inj hn
      nomatch hc
    · exact (h.comments hn hc).mono hmono

theorem payload?_update {f : Node → Node} (hf : ∀ n, (f n).payload = n.payload) (t : Tree) (id i : NodeId) :
    (t.update id f).payload? i = t.payload? i := by
  rw [payload?, node?_update, payload?]
  split
  · cases t.node? i with
    | none => rfl
    | some n => exact congrArg some (hf n)
  · rfl

/-- A change that keeps the payload and the children of a node, and adds nothing but comments to its comments. -/
theorem Drafted.update {f : Node → Node} (h : t.Drafted opened made) (id : NodeId) (hpayload : ∀ n, (f n).payload = n.payload)
    (hchildren : ∀ n, (f n).children = n.children) (hcomments : ∀ n c, c ∈ (f n).comments → c ∈ n.comments ∨ t.IsComment c) :
    (t.update id f).Drafted opened made := by
  have hmono : ∀ i q, t.payload? i = some q → (t.update id f).payload? i = some q :=
    fun i q hq => by rw [payload?_update hpayload, hq]
  -- Every node of the new tree is one of the old, changed or not.
  have hold : ∀ {i : NodeId} {n : Node}, (t.update id f).node? i = some n → ∃ m, t.node? i = some m ∧ n.payload = m.payload ∧
      n.children = m.children ∧ ∀ c ∈ n.comments, c ∈ m.comments ∨ t.IsComment c := by
    intro i n hn
    rw [node?_update] at hn
    split at hn
    · obtain ⟨m, hm, rfl⟩ := Option.map_eq_some_iff.1 hn
      exact ⟨m, hm, hpayload m, hchildren m, hcomments m⟩
    · exact ⟨n, hn, rfl, rfl, fun c hc => .inl hc⟩
  refine ⟨?_, ?_, h.distinct, fun hm => hmono _ _ (h.known hm), ?_⟩
  · intro i n hn
    obtain ⟨m, hm, hp, hc, -⟩ := hold hn
    obtain ⟨below, hbelow, hadmits⟩ := h.shaped hm
    rw [hp, hc]
    exact ⟨below, map_payload?_mono hbelow hmono, hadmits⟩
  · intro d hd
    obtain ⟨n, hn, hp, hbelow⟩ := h.drafts hd
    have hnew : ∃ m, (t.update id f).node? d.node = some m := by
      rw [node?_update, hn]
      split
      · exact ⟨f n, rfl⟩
      · exact ⟨n, rfl⟩
    obtain ⟨m, hm⟩ := hnew
    obtain ⟨n', hn', hp', hc', -⟩ := hold hm
    obtain rfl := Option.some.inj (hn.symm.trans hn')
    exact ⟨m, hm, hp'.trans hp, by rw [hc', map_payload?_mono hbelow hmono]⟩
  · intro i n hn c hc
    obtain ⟨m, hm, -, -, hcs⟩ := hold hn
    rcases hcs c hc with hc | hc
    · exact (h.comments hm hc).mono hmono
    · exact hc.mono hmono

theorem Drafted.setFlags (h : t.Drafted opened made) (id : NodeId) (flags : List String) :
    (t.setFlags id flags).Drafted opened made :=
  h.update id (fun _ => rfl) (fun _ => rfl) (fun _ _ hc => .inl hc)

theorem Drafted.setParent (h : t.Drafted opened made) (id parent : NodeId) : (t.setParent id parent).Drafted opened made :=
  h.update id (fun _ => rfl) (fun _ => rfl) (fun _ _ hc => .inl hc)

theorem payload?_setParent (t : Tree) (id parent i : NodeId) : (t.setParent id parent).payload? i = t.payload? i :=
  payload?_update (fun _ => by rfl) t id i

theorem payload?_setFlags (t : Tree) (id i : NodeId) (flags : List String) : (t.setFlags id flags).payload? i = t.payload? i :=
  payload?_update (fun _ => by rfl) t id i

theorem payload?_attach (t : Tree) (parent child i : NodeId) : (t.attach parent child).payload? i = t.payload? i := by
  unfold attach
  rw [payload?_update (fun _ => by rfl), payload?_setParent]

theorem payload?_attachComment (t : Tree) (parent comment i : NodeId) :
    (t.attachComment parent comment).payload? i = t.payload? i := by
  unfold attachComment
  rw [payload?_update (fun _ => by rfl), payload?_setParent]

theorem Drafted.attachComment (h : t.Drafted opened made) (parent : NodeId) {c : NodeId} (hc : t.IsComment c) :
    (t.attachComment parent c).Drafted opened made := by
  refine (h.setParent c parent).update parent (fun _ => rfl) (fun _ => rfl) (fun n d hd => ?_)
  rcases List.mem_append.1 hd with hd | hd
  · exact .inl hd
  · obtain rfl := List.mem_singleton.1 hd
    exact .inr (hc.mono (fun i q hq => by rw [payload?_setParent, hq]))

/-- The last draft gets a child whose payload is known. -/
theorem Drafted.attach {node child : NodeId} {p q : Payload} {below : List Payload}
    (h : t.Drafted (⟨node, p, below⟩ :: opened) made) (hchild : (child, q) ∈ made) :
    (t.attach node child).Drafted (⟨node, p, below ++ [q]⟩ :: opened) made := by
  have hparent := h.setParent child node
  have hpayload : ∀ i, (t.attach node child).payload? i = (t.setParent child node).payload? i :=
    fun i => by rw [payload?_attach, payload?_setParent]
  have hknown : (t.attach node child).payload? child = some q := by
    rw [hpayload]
    exact hparent.known hchild
  have hmono : ∀ i r, (t.setParent child node).payload? i = some r → (t.attach node child).payload? i = some r :=
    fun i r hr => by rw [hpayload, hr]
  have hnode : ∀ i, (t.attach node child).node? i = if i = node then ((t.setParent child node).node? i).map
      (fun n => { n with children := n.children ++ [child] }) else (t.setParent child node).node? i :=
    fun i => node?_update _ node i _
  have hextended : ∀ {cs : List NodeId} {ps : List Payload}, cs.map (t.setParent child node).payload? = ps.map some →
      (cs ++ [child]).map (t.attach node child).payload? = (ps ++ [q]).map some := by
    intro cs ps hps
    rw [List.map_append, List.map_append, map_payload?_mono hps hmono, List.map_singleton, List.map_singleton, hknown]
  refine ⟨?_, ?_, h.distinct, fun hm => hmono _ _ (hparent.known hm), ?_⟩
  · intro i n hn
    rw [hnode] at hn
    split at hn
    · rename_i hi
      obtain ⟨m, hm, rfl⟩ := Option.map_eq_some_iff.1 hn
      obtain ⟨ps, hps, -⟩ := hparent.shaped hm
      exact ⟨ps ++ [q], hextended hps, fun hnot => absurd List.mem_cons_self (hi ▸ hnot)⟩
    · obtain ⟨ps, hps, hadmits⟩ := hparent.shaped hn
      exact ⟨ps, map_payload?_mono hps hmono, hadmits⟩
  · intro d hd
    rcases List.mem_cons.1 hd with rfl | hd
    · obtain ⟨n, hn, hp, hbelow⟩ := hparent.drafts (d := ⟨node, p, below⟩) List.mem_cons_self
      have hlonger : (t.attach node child).node? node = some { n with children := n.children ++ [child] } := by
        rw [hnode, if_pos rfl, hn]
        rfl
      exact ⟨_, hlonger, hp, hextended hbelow⟩
    · obtain ⟨n, hn, hp, hbelow⟩ := hparent.drafts (List.mem_cons_of_mem _ hd)
      have hne : d.node ≠ node := fun heq =>
        (List.nodup_cons.1 h.distinct).1 (List.mem_map.2 ⟨d, hd, heq⟩)
      exact ⟨n, by rw [hnode, if_neg hne, hn], hp, map_payload?_mono hbelow hmono⟩
  · intro i n hn c hc
    rw [hnode] at hn
    split at hn
    · obtain ⟨m, hm, rfl⟩ := Option.map_eq_some_iff.1 hn
      exact (hparent.comments hm hc).mono hmono
    · exact (hparent.comments hn hc).mono hmono

/-- A draft with children as its payload admits them is finished. -/
theorem Drafted.close {node : NodeId} {p : Payload} {below : List Payload} (h : t.Drafted (⟨node, p, below⟩ :: opened) made)
    (hadmits : p.Admits below) : t.Drafted opened ((node, p) :: made) := by
  obtain ⟨n, hn, hp, hbelow⟩ := h.drafts (d := ⟨node, p, below⟩) List.mem_cons_self
  refine ⟨?_, fun hd => h.drafts (List.mem_cons_of_mem _ hd), (List.nodup_cons.1 h.distinct).2, ?_, h.comments⟩
  · intro i m hm
    by_cases hi : i = node
    · subst hi
      obtain rfl := Option.some.inj (hn.symm.trans hm)
      exact ⟨below, hbelow, fun _ => hp ▸ hadmits⟩
    · obtain ⟨ps, hps, hother⟩ := h.shaped hm
      refine ⟨ps, hps, fun hnot => hother (fun hmem => ?_)⟩
      rcases List.mem_cons.1 hmem with heq | hmem
      · exact hi heq
      · exact hnot hmem
  · intro m hm
    rcases List.mem_cons.1 hm with rfl | hm
    · rw [payload?, hn]
      exact congrArg some hp
    · exact h.known hm

theorem Drafted.forget {made' : List (NodeId × Payload)} (h : t.Drafted opened made) (hsub : made' ⊆ made) :
    t.Drafted opened made' :=
  ⟨h.shaped, h.drafts, h.distinct, fun hm => h.known (hsub hm), h.comments⟩

end

end Tree

end Courier
