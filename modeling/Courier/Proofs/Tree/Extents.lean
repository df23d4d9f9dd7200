import Courier.Proofs.Tree.Extends
import Mathlib.Logic.Function.Basic

/-!
# What the nodes of a tree take up

The tokens of a text that are no comments are numbered, and a node takes up those from one number to another, on so many levels
(`Extent`). Its children lie inside it, in their order, and none begins before the one in front of it ends (`Extent.Holds`). A node that
is being built has an extent that grows with each child it gets (`Sketch`). A tree is laid out if all its nodes but comments and sketches
begin where their extents say and hold their children (`Tree.LaidOut`); the extents are no part of the tree.
-/

namespace Courier

/-- What a node and the nodes below it take up: they begin at the tokens from `start` to `stop`, and are on at most `height` levels. -/
structure Extent where
  start : Nat
  stop : Nat
  height : Nat

/-- A node that is being built, with the extent that it has got so far. Its children begin before `next`. -/
structure Sketch where
  node : NodeId
  extent : Extent
  next : Nat

/-- The children lie inside the extent, one behind the other. -/
structure Extent.Holds (e : Extent) (extents : NodeId → Extent) (children : List NodeId) : Prop where
  inside {c : NodeId} (hc : c ∈ children) :
    e.start ≤ (extents c).start ∧ (extents c).stop ≤ e.stop ∧ (extents c).height < e.height
  ordered : children.Pairwise (fun c d => (extents c).start < (extents d).start ∧ (extents c).stop ≤ (extents d).start)

/-- A node begins at the place where its extent does, and holds its children. A container has a level below it for comments. -/
structure Node.Fills (place : Nat → Location) (extents : NodeId → Extent) (e : Extent) (n : Node) : Prop where
  location : n.location = place e.start
  forward : e.start ≤ e.stop
  height : n.kind.isContainer.toNat < e.height
  children : e.Holds extents n.children

namespace Tree

/-- The node of an id is there and is no comment. -/
def IsCode (t : Tree) (id : NodeId) : Prop :=
  ∃ n, t.node? id = some n ∧ n.kind ≠ .comment

instance (t : Tree) (id : NodeId) : Decidable (t.IsCode id) :=
  decidable_of_iff ((t.node? id).any (fun n => n.kind != .comment) = true) (by simp [IsCode, Option.any_eq_true])

/-- All nodes but comments and sketches fill their extents, and the extents of some that were made are known. -/
structure LaidOut (place : Nat → Location) (extents : NodeId → Extent) (opened : List Sketch) (made : List (NodeId × Extent))
    (t : Tree) : Prop where
  finished {id : NodeId} {n : Node} (hn : t.node? id = some n) (hcode : n.kind ≠ .comment) (hid : id ∉ opened.map Sketch.node) :
    n.Fills place extents (extents id)
  sketches {d : Sketch} (hd : d ∈ opened) : ∃ n, t.node? d.node = some n ∧ n.kind ≠ .comment ∧ n.Fills place extents d.extent ∧
    ∀ c ∈ n.children, (extents c).start < d.next
  distinct : (opened.map Sketch.node).Nodup
  listed {id : NodeId} {n : Node} (hn : t.node? id = some n) {c : NodeId} (hc : c ∈ n.children) :
    t.IsCode c ∧ c ∉ opened.map Sketch.node
  known {m : NodeId × Extent} (hm : m ∈ made) : t.IsCode m.1 ∧ m.1 ∉ opened.map Sketch.node ∧ extents m.1 = m.2

end Tree

variable {place : Nat → Location} {extents extents' : NodeId → Extent} {e e' : Extent} {n n' : Node} {children : List NodeId}

/-! ## Extents -/

theorem Extent.holds_nil (e : Extent) (extents : NodeId → Extent) : e.Holds extents [] :=
  ⟨fun hc => (nomatch hc), .nil⟩

theorem Extent.Holds.congr (h : e.Holds extents children) (heq : ∀ c ∈ children, extents' c = extents c) :
    e.Holds extents' children := by
  refine ⟨fun hc => ?_, h.ordered.imp_of_mem (fun {c d} hc hd hcd => ?_)⟩
  · rw [heq _ hc]
    exact h.inside hc
  · rw [heq c hc, heq d hd]
    exact hcd

theorem Extent.Holds.mono (h : e.Holds extents children) (hstart : e'.start = e.start) (hstop : e.stop ≤ e'.stop)
    (hheight : e'.height = e.height) : e'.Holds extents children := by
  refine ⟨fun hc => ?_, h.ordered⟩
  obtain ⟨hle, hstop', hlt⟩ := h.inside hc
  exact ⟨hstart ▸ hle, Nat.le_trans hstop' hstop, hheight ▸ hlt⟩

/-- A child that begins behind the others and where they have ended goes to their end. -/
theorem Extent.Holds.concat (h : e.Holds extents children) {child : NodeId} {next : Nat} (hforward : e.start ≤ e.stop)
    (hbefore : ∀ c ∈ children, (extents c).start < next) (hnext : next ≤ (extents child).start)
    (hstop : e.stop ≤ (extents child).start) (hend : (extents child).start ≤ (extents child).stop)
    (hheight : (extents child).height < e.height) :
    Extent.Holds ⟨e.start, (extents child).stop, e.height⟩ extents (children ++ [child]) := by
  constructor
  · intro c hc
    rcases List.mem_append.1 hc with hc | hc
    · obtain ⟨hle, hstop', hlt⟩ := h.inside hc
      exact ⟨hle, Nat.le_trans (Nat.le_trans hstop' hstop) hend, hlt⟩
    · obtain rfl := List.mem_singleton.1 hc
      exact ⟨Nat.le_trans hforward hstop, Nat.le_refl _, hheight⟩
  · refine List.pairwise_append.2 ⟨h.ordered, List.pairwise_singleton _ _, fun c hc d hd => ?_⟩
    obtain rfl := List.mem_singleton.1 hd
    obtain ⟨-, hstop', -⟩ := h.inside hc
    exact ⟨Nat.lt_of_lt_of_le (hbefore c hc) hnext, Nat.le_trans hstop' hstop⟩

/-- What a node fills does not depend on what is not part of it. -/
theorem Node.Fills.congr (h : n.Fills place extents e) (hpayload : n'.payload = n.payload) (hlocation : n'.location = n.location)
    (hchildren : n'.children = n.children) (heq : ∀ c ∈ n.children, extents' c = extents c) : n'.Fills place extents' e := by
  refine ⟨hlocation ▸ h.location, h.forward, ?_, hchildren ▸ h.children.congr heq⟩
  rw [Node.kind, hpayload]
  exact h.height

/-- A node that gets one more child reaches as far as that one. -/
theorem Node.Fills.concat (h : n.Fills place extents e) {child : NodeId} {next : Nat} (hpayload : n'.payload = n.payload)
    (hlocation : n'.location = n.location) (hchildren : n'.children = n.children ++ [child])
    (hbefore : ∀ c ∈ n.children, (extents c).start < next) (hnext : next ≤ (extents child).start)
    (hstop : e.stop ≤ (extents child).start) (hend : (extents child).start ≤ (extents child).stop)
    (hheight : (extents child).height < e.height) : n'.Fills place extents ⟨e.start, (extents child).stop, e.height⟩ := by
  refine ⟨hlocation.trans h.location, Nat.le_trans h.forward (Nat.le_trans hstop hend), ?_, ?_⟩
  · rw [Node.kind, hpayload]
    exact h.height
  · rw [hchildren]
    exact h.children.concat h.forward hbefore hnext hstop hend hheight

theorem Node.Fills.keep (h : n.Fills place extents e) (hkeeps : n.Keeps n') : n'.Fills place extents e :=
  h.congr hkeeps.payload hkeeps.location hkeeps.children (fun _ _ => rfl)

namespace Tree

variable {opened : List Sketch} {made : List (NodeId × Extent)} {t t' : Tree} {node child : NodeId} {start stop height next : Nat}

/-! ## Trees that are kept -/

theorem IsCode.extend {id : NodeId} (h : t.IsCode id) (hextends : t.Extends t') : t'.IsCode id := by
  obtain ⟨n, hn, hcode⟩ := h
  obtain ⟨n', hn', hnode⟩ := hextends.node hn
  refine ⟨n', hn', ?_⟩
  rw [Node.kind, hnode.payload]
  exact hcode

/-- A tree stays laid out if only comments are new in it. -/
theorem LaidOut.grow (h : t.LaidOut place extents opened made) (hkeeps : t.Keeps t')
    (hnew : ∀ {i n}, t.node? i = none → t'.node? i = some n → n.kind = .comment) : t'.LaidOut place extents opened made := by
  have hold : ∀ {id n'}, t'.node? id = some n' → n'.kind ≠ .comment → ∃ n, t.node? id = some n ∧ n.Keeps n' := by
    intro id n' hn' hcode
    cases hn : t.node? id with
    | none => exact absurd (hnew hn hn') hcode
    | some n =>
      obtain ⟨m, hm, hnode⟩ := hkeeps.old hn
      obtain rfl := Option.some.inj (hn'.symm.trans hm)
      exact ⟨n, rfl, hnode⟩
  refine ⟨?_, ?_, h.distinct, ?_, fun hm => ?_⟩
  · intro id n' hn' hcode hid
    obtain ⟨n, hn, hnode⟩ := hold hn' hcode
    refine (h.finished hn ?_ hid).keep hnode
    rw [Node.kind, ← hnode.payload]
    exact hcode
  · intro d hd
    obtain ⟨n, hn, hcode, hfills, hnext⟩ := h.sketches hd
    obtain ⟨n', hn', hnode⟩ := hkeeps.old hn
    refine ⟨n', hn', ?_, hfills.keep hnode, hnode.children ▸ hnext⟩
    rw [Node.kind, hnode.payload]
    exact hcode
  · intro id n' hn' c hc
    rcases hkeeps.old_or_new hn' with ⟨n, hn, hnode⟩ | hnone
    · obtain ⟨hcode, hclosed⟩ := h.listed hn (hnode.children ▸ hc)
      exact ⟨hcode.extend hkeeps.extends, hclosed⟩
    · rw [hnone] at hc
      exact absurd hc List.not_mem_nil
  · obtain ⟨hcode, hknown⟩ := h.known hm
    exact ⟨hcode.extend hkeeps.extends, hknown⟩

/-- A tree stays laid out if nothing is new in it. -/
theorem LaidOut.keep (h : t.LaidOut place extents opened made) (hkeeps : t.Keeps t') (hsize : t'.size = t.size) :
    t'.LaidOut place extents opened made := by
  refine h.grow hkeeps (fun hnone hn => ?_)
  obtain ⟨n, hn'⟩ := exists_node? (hsize ▸ lt_size_of_node? hn)
  rw [hnone] at hn'
  nomatch hn'

/-- A comment takes up nothing. -/
theorem LaidOut.comment (h : t.LaidOut place extents opened made) (text : String) (l : Location) :
    (t.alloc (.comment text) l).2.LaidOut place extents opened made := by
  refine h.grow (t.keeps_alloc _ _) (fun hnone hn => ?_)
  rw [node?_alloc] at hn
  split at hn
  · obtain rfl := Option.some.inj hn
    rfl
  · rw [hnone] at hn
    nomatch hn

/-! ## Nodes that are built -/

/-- A new node is a sketch without children. -/
theorem LaidOut.alloc (h : t.LaidOut place extents opened made) {p : Payload} (hcode : p.kind ≠ .comment)
    (hheight : p.kind.isContainer.toNat < height) (start : Nat) :
    (t.alloc p (place start)).2.LaidOut place extents (⟨t.size, ⟨start, start, height⟩, start⟩ :: opened) made := by
  have hfresh : t.node? t.size = none := Array.getElem?_eq_none (Nat.le_refl _)
  have hkeeps := t.keeps_alloc p (place start)
  have hold : ∀ {id n}, (t.alloc p (place start)).2.node? id = some n → id ≠ t.size → t.node? id = some n := by
    intro id n hn hid
    rwa [node?_alloc, if_neg hid] at hn
  have hother : ∀ {c}, t.IsCode c → c ≠ t.size := by
    rintro c ⟨n, hn, -⟩ rfl
    rw [hfresh] at hn
    nomatch hn
  have hclosed : ∀ {c}, t.IsCode c → c ∉ opened.map Sketch.node → c ∉ t.size :: opened.map Sketch.node :=
    fun hc hnot hmem => (List.mem_cons.1 hmem).elim (hother hc) hnot
  refine ⟨?_, ?_, List.nodup_cons.2 ⟨fun hmem => ?_, h.distinct⟩, ?_, fun hm => ?_⟩
  · intro id n hn hkind hid
    obtain ⟨hne, hid⟩ := not_or.1 (fun hor => hid (List.mem_cons.2 hor))
    exact h.finished (hold hn hne) hkind hid
  · intro d hd
    rcases List.mem_cons.1 hd with rfl | hd
    · refine ⟨.fresh p (place start), by rw [node?_alloc, if_pos rfl], hcode, ?_, fun _ hc => (nomatch hc)⟩
      exact ⟨rfl, Nat.le_refl _, hheight, Extent.holds_nil _ _⟩
    · obtain ⟨n, hn, hrest⟩ := h.sketches hd
      have hne : d.node ≠ t.size := fun heq => by rw [heq, hfresh] at hn; nomatch hn
      exact ⟨n, by rw [node?_alloc, if_neg hne, hn], hrest⟩
  · obtain ⟨d, hd, hnode⟩ := List.mem_map.1 hmem
    obtain ⟨n, hn, hkind, -⟩ := h.sketches hd
    exact hother ⟨n, hn, hkind⟩ hnode
  · intro id n hn c hc
    have hne : id ≠ t.size := by
      rintro rfl
      rw [node?_alloc, if_pos rfl] at hn
      obtain rfl := Option.some.inj hn
      nomatch hc
    obtain ⟨hkind, hnot⟩ := h.listed (hold hn hne) hc
    exact ⟨hkind.extend hkeeps.extends, hclosed hkind hnot⟩
  · obtain ⟨hkind, hnot, hextent⟩ := h.known hm
    exact ⟨hkind.extend hkeeps.extends, hclosed hkind hnot, hextent⟩

/-- A node that was made begins where its extent does. -/
theorem LaidOut.exists_of_known (h : t.LaidOut place extents opened made) {m : NodeId × Extent} (hm : m ∈ made) :
    ∃ n, t.node? m.1 = some n ∧ n.Fills place extents m.2 := by
  obtain ⟨⟨n, hn, hcode⟩, hclosed, hextent⟩ := h.known hm
  exact ⟨n, hn, hextent ▸ h.finished hn hcode hclosed⟩

/-- The last sketch gets a child that begins behind the others and where they have ended. -/
theorem LaidOut.attach (h : t.LaidOut place extents (⟨node, ⟨start, stop, height⟩, next⟩ :: opened) made)
    (hchild : (child, e) ∈ made) (hnext : next ≤ e.start) (hstop : stop ≤ e.start) (hheight : e.height < height) :
    (t.attach node child).LaidOut place extents (⟨node, ⟨start, e.stop, height⟩, e.start + 1⟩ :: opened) made := by
  have hextends := t.extends_attach node child
  obtain ⟨_, -, hfills⟩ := h.exists_of_known hchild
  obtain ⟨hcode, hclosed, hextent⟩ := h.known hchild
  obtain rfl : extents child = e := hextent
  have hkind : ∀ {m m' : Node}, m'.payload = m.payload → m'.kind = m.kind := fun hp => by rw [Node.kind, hp, Node.kind]
  refine ⟨?_, ?_, h.distinct, ?_, fun hm => ?_⟩
  · intro id n' hn' hcode' hid
    obtain ⟨n, hn, hpayload, hlocation, hchildren⟩ := exists_node?_of_attach hn'
    have hne : id ≠ node := fun heq => hid (heq ▸ List.mem_cons_self)
    rw [if_neg hne] at hchildren
    exact (h.finished hn (hkind hpayload ▸ hcode') hid).congr hpayload hlocation hchildren (fun _ _ => rfl)
  · intro d hd
    rcases List.mem_cons.1 hd with rfl | hd
    · obtain ⟨n, hn, hsketch, hfill, hbefore⟩ := h.sketches List.mem_cons_self
      obtain ⟨n', hn', hpayload, hlocation, hchildren⟩ := t.exists_node?_attach node child hn
      rw [if_pos rfl] at hchildren
      have hlonger := hfill.concat hpayload hlocation hchildren hbefore hnext hstop hfills.forward hheight
      refine ⟨n', hn', (hkind hpayload).symm ▸ hsketch, hlonger, fun c hc => ?_⟩
      rcases List.mem_append.1 (hchildren ▸ hc) with hc | hc
      · exact Nat.lt_succ_of_lt (Nat.lt_of_lt_of_le (hbefore c hc) hnext)
      · obtain rfl := List.mem_singleton.1 hc
        exact Nat.lt_succ_self _
    · obtain ⟨n, hn, hsketch, hfill, hbefore⟩ := h.sketches (List.mem_cons_of_mem _ hd)
      obtain ⟨n', hn', hpayload, hlocation, hchildren⟩ := t.exists_node?_attach node child hn
      have hne : d.node ≠ node := fun heq => (List.nodup_cons.1 h.distinct).1 (List.mem_map.2 ⟨d, hd, heq⟩)
      rw [if_neg hne] at hchildren
      have hsame := hfill.congr hpayload hlocation hchildren (fun _ _ => rfl)
      exact ⟨n', hn', (hkind hpayload).symm ▸ hsketch, hsame, hchildren ▸ hbefore⟩
  · intro id n' hn' c hc
    obtain ⟨n, hn, -, -, hchildren⟩ := exists_node?_of_attach hn'
    have hold : c ∈ n.children → (t.attach node child).IsCode c ∧ c ∉ node :: opened.map Sketch.node :=
      fun hmem => ⟨(h.listed hn hmem).1.extend hextends, (h.listed hn hmem).2⟩
    rw [hchildren] at hc
    split at hc
    · rcases List.mem_append.1 hc with hc | hc
      · exact hold hc
      · obtain rfl := List.mem_singleton.1 hc
        exact ⟨hcode.extend hextends, hclosed⟩
    · exact hold hc
  · exact ⟨(h.known hm).1.extend hextends, (h.known hm).2⟩

/-- A sketch may take up more. -/
theorem LaidOut.widen (h : t.LaidOut place extents (⟨node, ⟨start, stop, height⟩, next⟩ :: opened) made) {stop' next' : Nat}
    (hstop : stop ≤ stop') (hnext : next ≤ next') :
    t.LaidOut place extents (⟨node, ⟨start, stop', height⟩, next'⟩ :: opened) made := by
  refine ⟨h.finished, fun hd => ?_, h.distinct, h.listed, h.known⟩
  rcases List.mem_cons.1 hd with rfl | hd
  · obtain ⟨n, hn, hcode, hfills, hlt⟩ := h.sketches List.mem_cons_self
    refine ⟨n, hn, hcode, ⟨hfills.location, ?_, hfills.height, hfills.children.mono rfl hstop rfl⟩, fun c hc => ?_⟩
    · exact Nat.le_trans hfills.forward hstop
    · exact Nat.lt_of_lt_of_le (hlt c hc) hnext
  · exact h.sketches (List.mem_cons_of_mem _ hd)

/-- A sketch is finished: its node has the extent that it got. -/
theorem LaidOut.close (h : t.LaidOut place extents (⟨node, e, next⟩ :: opened) made) :
    t.LaidOut place (Function.update extents node e) opened ((node, e) :: made) := by
  obtain ⟨hnode, hdistinct⟩ := List.nodup_cons.1 h.distinct
  obtain ⟨n, hn, hcode, hfills, -⟩ := h.sketches List.mem_cons_self
  have hsame : ∀ {id m}, t.node? id = some m → ∀ c ∈ m.children, Function.update extents node e c = extents c := by
    intro id m hm c hc
    have hne : c ≠ node := fun heq => (h.listed hm hc).2 (heq ▸ List.mem_cons_self)
    exact Function.update_of_ne hne _ _
  refine ⟨?_, ?_, hdistinct, fun hm c hc => ?_, ?_⟩
  · intro id m hm hkind hid
    by_cases heq : id = node
    · subst heq
      obtain rfl := Option.some.inj (hn.symm.trans hm)
      rw [Function.update_self]
      exact hfills.congr rfl rfl rfl (hsame hn)
    · rw [Function.update_of_ne heq]
      exact (h.finished hm hkind (fun hmem => (List.mem_cons.1 hmem).elim heq hid)).congr rfl rfl rfl (hsame hm)
  · intro d hd
    obtain ⟨m, hm, hkind, hfill, hlt⟩ := h.sketches (List.mem_cons_of_mem _ hd)
    exact ⟨m, hm, hkind, hfill.congr rfl rfl rfl (hsame hm), fun c hc => hsame hm c hc ▸ hlt c hc⟩
  · obtain ⟨hkind, hnot⟩ := h.listed hm hc
    exact ⟨hkind, fun hmem => hnot (List.mem_cons_of_mem _ hmem)⟩
  · intro m hm
    rcases List.mem_cons.1 hm with rfl | hm
    · exact ⟨⟨n, hn, hcode⟩, hnode, Function.update_self _ _ _⟩
    · obtain ⟨hkind, hnot, hextent⟩ := h.known hm
      obtain ⟨hne, hnot⟩ := not_or.1 (fun hor => hnot (List.mem_cons.2 hor))
      exact ⟨hkind, hnot, (Function.update_of_ne hne _ _).trans hextent⟩

theorem LaidOut.forget {made' : List (NodeId × Extent)} (h : t.LaidOut place extents opened made) (hsub : made' ⊆ made) :
    t.LaidOut place extents opened made' :=
  ⟨h.finished, h.sketches, h.distinct, h.listed, fun hm => h.known (hsub hm)⟩

end Tree

end Courier
