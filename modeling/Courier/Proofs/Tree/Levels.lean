import Courier.Proofs.Tree.Ownership
import Courier.Tree.Dump
import Courier.Tree.Json
import Courier.Tree.Walk
import Mathlib.Data.List.Chain
import Mathlib.Data.List.Perm.Subperm

/-!
# How many levels are below a node

What goes down a tree, a walk, the dump or the JSON, is told how many levels to go. More levels than there are change nothing
(`Tree.HasLevels`). Where no node is its own ancestor, no way down is longer than the tree is large, so all three end everywhere.
Where one is, a dump that begins there has more entries with every level (`Tree.Mirrored.ends_iff`).
-/

namespace Courier.Tree

/-- Following parents from a node leads to another one, in one step or more. -/
def Under (t : Tree) : NodeId → NodeId → Prop :=
  Relation.TransGen (fun child parent => t.parent? child = some parent)

/-- No node is its own ancestor. -/
def Acyclic (t : Tree) : Prop :=
  ∀ id, ¬ t.Under id id

/-- Below a node there are at most so many levels, its own among them. -/
def HasLevels (t : Tree) : Nat → NodeId → Prop
  | 0, id => t.node? id = none
  | levels + 1, id => ∀ c ∈ t.below id, t.HasLevels levels c

/-- Everything that goes down the tree ends, whatever node it begins at: more levels than there are nodes change nothing. -/
structure Ends (t : Tree) : Prop where
  walk {m : Type → Type} [Monad m] (visit : Node → NodeId → Phase → m Unit) (levels : Nat) (id : NodeId) :
    t.walkFrom visit (t.size + levels) id = t.walkFrom visit t.size id
  dump (levels level : Nat) (id : NodeId) : t.entriesFrom (t.size + levels) level id = t.entriesFrom t.size level id
  json (levels : Nat) (id : NodeId) : t.jsonFrom (t.size + levels) id = t.jsonFrom t.size id

variable {t : Tree} {levels : Nat} {id : NodeId}

/-! ## Levels that are enough -/

theorem forM_congr {m : Type → Type} [Monad m] {f g : NodeId → m Unit} {ids : List NodeId} (h : ∀ i ∈ ids, f i = g i) :
    ids.forM f = ids.forM g := by
  induction ids with
  | nil => rfl
  | cons i ids ih =>
    have hrest : ids.forM f = ids.forM g := ih (fun j hj => h j (List.mem_cons_of_mem _ hj))
    show (do f i; ids.forM f) = (do g i; ids.forM g)
    rw [h i List.mem_cons_self, hrest]

theorem HasLevels.walkFrom_eq {m : Type → Type} [Monad m] (visit : Node → NodeId → Phase → m Unit) (h : t.HasLevels levels id)
    (more : Nat) : t.walkFrom visit (levels + more) id = t.walkFrom visit levels id := by
  induction levels generalizing id with
  | zero =>
    have hnone : t.node? id = none := h
    cases more with
    | zero => rfl
    | succ more => simp only [walkFrom, hnone]
  | succ levels ih =>
    rw [Nat.add_right_comm, walkFrom, walkFrom]
    cases hn : t.node? id with
    | none => rfl
    | some n =>
      have hbelow : ∀ c ∈ n.below, t.walkFrom visit (levels + more) c = t.walkFrom visit levels c :=
        fun c hc => ih (h c (by rw [below, part_of_node? hn]; exact hc))
      simp only [forM_congr hbelow]

theorem HasLevels.entriesFrom_eq (h : t.HasLevels levels id) (more level : Nat) :
    t.entriesFrom (levels + more) level id = t.entriesFrom levels level id := by
  induction levels generalizing id level with
  | zero =>
    have hnone : t.node? id = none := h
    cases more with
    | zero => rfl
    | succ more => simp only [entriesFrom, hnone]
  | succ levels ih =>
    rw [Nat.add_right_comm, entriesFrom, entriesFrom]
    cases hn : t.node? id with
    | none => rfl
    | some n =>
      have hbelow : ∀ c ∈ n.below, t.entriesFrom (levels + more) (level + 1) c = t.entriesFrom levels (level + 1) c :=
        fun c hc => ih (h c (by rw [below, part_of_node? hn]; exact hc)) _
      simp only [List.flatMap_congr hbelow]

theorem HasLevels.jsonFrom_eq (h : t.HasLevels levels id) (more : Nat) : t.jsonFrom (levels + more) id = t.jsonFrom levels id := by
  induction levels generalizing id with
  | zero =>
    have hnone : t.node? id = none := h
    cases more with
    | zero => rfl
    | succ more => simp only [jsonFrom, hnone]
  | succ levels ih =>
    rw [Nat.add_right_comm, jsonFrom, jsonFrom]
    cases hn : t.node? id with
    | none => rfl
    | some n =>
      have hoffspring : ∀ c ∈ n.offspring, t.jsonFrom (levels + more) c = t.jsonFrom levels c :=
        fun c hc => ih (h c (by rw [below, part_of_node? hn]; exact List.mem_append_right _ hc))
      have hchildren : n.children.map (t.jsonFrom (levels + more)) = n.children.map (t.jsonFrom levels) :=
        List.map_congr_left (fun c hc => hoffspring c (List.mem_append_left _ hc))
      have hvalue : n.payload.returnValue.map (fun id => ("return_value", t.jsonFrom (levels + more) id)) =
          n.payload.returnValue.map (fun id => ("return_value", t.jsonFrom levels id)) :=
        Option.map_congr (fun c hc => by rw [hoffspring c (List.mem_append_right _ (Option.mem_toList.2 hc))])
      simp only [hchildren, hvalue]

/-! ## The levels there are -/

/-- Where there are more levels, there is a way down that long, from parent to child. -/
theorem exists_of_not_hasLevels (hm : t.Mirrored) (h : ¬ t.HasLevels levels id) :
    ∃ way : List NodeId, (id :: way).IsChain (fun parent child => t.parent? child = some parent) ∧ way.length = levels ∧
      ∀ i ∈ id :: way, i < t.size := by
  induction levels generalizing id with
  | zero =>
    obtain ⟨n, hn⟩ := Option.ne_none_iff_exists'.1 h
    exact ⟨[], .singleton _, rfl, by simpa using lt_size_of_node? hn⟩
  | succ levels ih =>
    simp only [HasLevels, not_forall] at h
    obtain ⟨c, hc, hlevels⟩ := h
    obtain ⟨way, hchain, hlength, hlt⟩ := ih hlevels
    have hparent : t.parent? c = some id := (Mirrored.owns hm id c).1.2 hc
    have hid : id < t.size := lt_size_of_part (List.ne_nil_of_mem hc)
    refine ⟨c :: way, .cons_cons hparent hchain, by rw [List.length_cons, hlength], fun i hi => ?_⟩
    rcases List.mem_cons.1 hi with rfl | hi
    · exact hid
    · exact hlt i hi

/-- Where no node is its own ancestor, a way down passes no node twice, so it is no longer than the tree is large. -/
theorem Acyclic.hasLevels (h : t.Acyclic) (hm : t.Mirrored) (id : NodeId) : t.HasLevels t.size id := by
  by_contra hlevels
  obtain ⟨way, hchain, hlength, hlt⟩ := exists_of_not_hasLevels hm hlevels
  have hunder : (id :: way).IsChain (fun a b => t.Under b a) := hchain.imp (fun a b hab => .single hab)
  have htrans : IsTrans NodeId (fun a b => t.Under b a) := ⟨fun a b c hab hbc => Relation.TransGen.trans hbc hab⟩
  have hnodup : (id :: way).Nodup := (List.isChain_iff_pairwise.1 hunder).imp (fun {a b} hab => by
    rintro rfl
    exact h a hab)
  have hsub : (id :: way).Subperm (List.range t.size) := hnodup.subperm (fun i hi => List.mem_range.2 (hlt i hi))
  have hlength' := hsub.length_le
  rw [List.length_cons, hlength, List.length_range] at hlength'
  omega

/-! ## Rings -/

/-- Below a node that is its own ancestor there are more levels than any number. -/
theorem HasLevels.not_under (h : t.HasLevels levels id) (hm : t.Mirrored) : ¬ t.Under id id := by
  induction levels generalizing id with
  | zero =>
    have hnone : t.node? id = none := h
    intro hring
    obtain ⟨p, hparent, -⟩ := Relation.TransGen.head'_iff.1 hring
    simp [parent?, part, hnone] at hparent
  | succ levels ih =>
    intro hring
    obtain ⟨c, habove, hparent⟩ := Relation.TransGen.tail'_iff.1 hring
    exact ih (h c ((Mirrored.owns hm id c).1.1 hparent)) (.head' hparent habove)

/-- Where there are more levels, each of them has an entry at least. -/
theorem lt_length_entriesFrom (h : ¬ t.HasLevels levels id) (level : Nat) :
    levels < (t.entriesFrom (levels + 1) level id).length := by
  induction levels generalizing id level with
  | zero =>
    obtain ⟨n, hn⟩ := Option.ne_none_iff_exists'.1 h
    rw [entriesFrom, hn]
    exact Nat.succ_pos _
  | succ levels ih =>
    simp only [HasLevels, not_forall] at h
    obtain ⟨c, hc, hlevels⟩ := h
    obtain ⟨n, hn⟩ := exists_node? (lt_size_of_part (List.ne_nil_of_mem hc))
    rw [below, part_of_node? hn] at hc
    have hpart := (List.sublist_flatten_of_mem
      (List.mem_map_of_mem (f := t.entriesFrom (levels + 1) (level + 1)) hc)).length_le
    have hlt := ih hlevels (level + 1)
    rw [entriesFrom, hn, List.length_cons, List.flatMap_def]
    omega

/-- Going down a tree ends everywhere exactly if no node is its own ancestor. -/
theorem Mirrored.ends_iff (hm : t.Mirrored) : t.Ends ↔ t.Acyclic := by
  constructor
  · intro h id hring
    have hmore : ¬ t.HasLevels (t.size + (t.entriesFrom t.size 0 id).length) id := fun hlevels => hlevels.not_under hm hring
    have hlt := lt_length_entriesFrom hmore 0
    rw [Nat.add_assoc, h.dump] at hlt
    omega
  · intro h
    exact ⟨fun visit levels id => (h.hasLevels hm id).walkFrom_eq visit levels,
      fun levels level id => (h.hasLevels hm id).entriesFrom_eq levels level,
      fun levels id => (h.hasLevels hm id).jsonFrom_eq levels⟩

end Courier.Tree
