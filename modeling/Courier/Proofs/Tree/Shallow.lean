import Courier.Proofs.Tree.Spans
import Courier.Proofs.Tree.Whole

/-!
# Parsed trees are shallow

A walk, the dump and the JSON recurse once for every level of a tree. In a tree that a parse makes there are no more levels below the root
than productions may be nested in the parse (`Stream.shallow_of_parse`): the extents of its nodes say so (`Tree.LaidOut.hasLevels`), and a
comment is on a level that its block has left for it.
-/

namespace Courier

namespace Tree

/-- No way down from the root passes more nodes than there are levels, and what goes down the tree goes no further. -/
structure Shallow (t : Tree) (levels : Nat) (root : NodeId) : Prop where
  rooted : t.root = some root
  way {way : List NodeId} (h : (root :: way).IsChain (fun p c => c ∈ t.below p)) : (root :: way).length ≤ levels
  walk {m : Type → Type} [Monad m] (visit : Node → NodeId → Phase → m Unit) (visits : Nat) :
    t.walkAll visit visits = t.walkFrom visit levels root
  dump : t.dump = String.join (t.entriesFrom levels 0 root)
  json : t.toJson = t.jsonFrom levels root

variable {t : Tree} {id root : NodeId} {levels : Nat}

/-- A way down passes a node on each level. -/
theorem HasLevels.length_le (h : t.HasLevels levels id) (hb : t.Branches) (hid : t.Reachable id) {way : List NodeId}
    (hway : (id :: way).IsChain (fun p c => c ∈ t.below p)) : (id :: way).length ≤ levels := by
  induction levels generalizing id way with
  | zero =>
    obtain ⟨n, hn⟩ := exists_node? (hb.present hid)
    nomatch hn.symm.trans h
  | succ levels ih =>
    cases way with
    | nil => exact Nat.succ_le_succ (Nat.zero_le levels)
    | cons c way =>
      obtain ⟨hc, hway⟩ := List.isChain_cons_cons.1 hway
      exact Nat.succ_le_succ (ih (h c hc) (hid.below hc) hway)

/-- Where there are only so many levels below the root, it is all the same to what goes down the tree how many more it may go. -/
theorem Branches.shallow (hb : t.Branches) (hroot : t.root = some root) (h : t.HasLevels levels root) : t.Shallow levels root := by
  have hreachable : t.Reachable root := ⟨root, hroot, .refl⟩
  have hsize := hb.hasLevels hreachable
  refine ⟨hroot, fun hway => h.length_le hb hreachable hway, fun visit visits => ?_, ?_, ?_⟩
  · rw [walkAll, hroot]
    show t.walkFrom visit (t.size + visits) root = _
    rw [hsize.walkFrom_eq, ← hsize.walkFrom_eq visit levels, Nat.add_comm, h.walkFrom_eq]
  · rw [dump, entries, hroot]
    show String.join (t.entriesFrom t.size 0 root) = _
    rw [← hsize.entriesFrom_eq levels, Nat.add_comm, h.entriesFrom_eq]
  · rw [toJson, hroot]
    show t.jsonFrom t.size root = _
    rw [← hsize.jsonFrom_eq levels, Nat.add_comm, h.jsonFrom_eq]

/-- Below a node there are no more levels than its extent is high. -/
theorem LaidOut.hasLevels {place : Nat → Location} {extents : NodeId → Extent} {made : List (NodeId × Extent)} {ts : List Token}
    (h : t.LaidOut place extents [] made) (hw : t.Whole) (hkeeps : t.KeepsComments ts) (hid : t.IsCode id)
    (hle : (extents id).height ≤ levels) : t.HasLevels levels id := by
  induction levels generalizing id with
  | zero =>
    obtain ⟨n, hn, hcode⟩ := hid
    exact absurd (h.finished hn hcode List.not_mem_nil).height (by omega)
  | succ levels ih =>
    intro c hc
    obtain ⟨n, hn, hcode⟩ := hid
    have hfills := h.finished hn hcode List.not_mem_nil
    have hown : t.commentsOf id = n.comments := part_of_node? hn
    rw [below, part_of_node? hn, Node.below, Node.offspring, hw.unanswered hn, Option.toList_none, List.append_nil] at hc
    rcases List.mem_append.1 hc with hc | hc
    · -- Only a container lists comments, and so there is a level left.
      have hheight := hfills.height
      rw [hkeeps.isContainer hn hc, Bool.toNat_true] at hheight
      obtain ⟨rest, rfl⟩ : ∃ rest, levels = rest + 1 := ⟨levels - 1, by omega⟩
      intro d hd
      rw [(hw.branches.comments (hw.reachable (lt_size_of_node? hn)) (hown ▸ hc)).2] at hd
      exact absurd hd List.not_mem_nil
    · obtain ⟨-, -, hlt⟩ := hfills.children.inside hc
      exact ih (h.listed hn hc).1 (by omega)

end Tree

namespace Stream

open Courier.Parser

/-- In the tree of a text that parses, no way down from the root, comments included, passes more nodes than productions may be nested, and
a walk, the dump and the JSON recurse no deeper. -/
theorem shallow_of_parse {file text : String} {s : Stream} {trace : Bool} {tree : Tree} (hs : Stream.tokenize file text = .ok s)
    (htree : (s.parse trace).1 = .ok tree) : ∃ root, tree.Shallow maxNesting root := by
  obtain ⟨extents, root, hroot, hlaid, -, hheight⟩ := laidOut_of_parse htree
  have hw := whole_of_parse hs htree
  obtain ⟨root', t, ht, rfl⟩ := parse_eq_ok.1 htree
  have hlevels := hlaid.hasLevels hw (keepsComments_of_unit hs ht) (hlaid.known List.mem_cons_self).1 hheight
  exact ⟨root, hw.branches.shallow hroot hlevels⟩

theorem shallow_of_parse_assignment : ∃ s tree,
    Stream.tokenize "unit" "\x7b x := (1 + 2) a: msg \x7b # c\n return; \x7d; \x7d" = .ok s ∧ (s.parse true).1 = .ok tree ∧
      ∃ root, tree.Shallow maxNesting root := by
  obtain ⟨s, tree, hs, htree⟩ := exists_parse "unit" "\x7b x := (1 + 2) a: msg \x7b # c\n return; \x7d; \x7d" true (by decide +kernel)
  exact ⟨s, tree, hs, htree, shallow_of_parse hs htree⟩

end Stream

end Courier
