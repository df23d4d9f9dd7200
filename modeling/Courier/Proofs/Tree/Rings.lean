import Courier.Proofs.Tree.Levels

/-!
# Return values and rings

A return value is accepted if it is detached. Nothing asks whether the message lies below it, and a message that is given a value it
lies below closes a ring, in which a walk does not end. Only such a value does so (`Tree.ends_setReturnValue_iff`).
-/

namespace Courier.Tree

variable {t t' : Tree} {message value a b : NodeId}

/-- The message is the parent of the value from now on, and the other nodes have the parents they had. -/
theorem Answered.parent?_eq_some_iff (ht : t.Answered t' message value) :
    t'.parent? a = some b ↔ t.parent? a = some b ∨ (a = value ∧ b = message) := by
  obtain ⟨n, hn, hparent, -⟩ := ht.adopted
  have horphan : t.parent? value = none := (part_of_node? hn).trans hparent
  rw [ht.parent?_eq]
  by_cases ha : a = value
  · subst ha
    simp [horphan, eq_comm]
  · simp [ha]

/-- A way up leads through the new link at most once: before it to the value, behind it from the message. -/
theorem Answered.under_cases (ht : t.Answered t' message value) (h : t'.Under a b) :
    t.Under a b ∨ (t.Ascends a value ∧ t.Ascends message b) := by
  induction h with
  | single hlink =>
    rcases ht.parent?_eq_some_iff.1 hlink with hold | ⟨rfl, rfl⟩
    · exact .inl (.single hold)
    · exact .inr ⟨.refl, .refl⟩
  | tail _ hlink ih =>
    rcases ht.parent?_eq_some_iff.1 hlink with hold | ⟨rfl, rfl⟩
    · exact ih.imp (fun hway => hway.tail hold) (fun ⟨hbefore, hbehind⟩ => ⟨hbefore, hbehind.tail hold⟩)
    · exact .inr ⟨ih.elim Relation.TransGen.to_reflTransGen And.left, .refl⟩

/-- Where there was no ring, there is one now exactly if the message was below the value. -/
theorem Answered.acyclic_iff (ht : t.Answered t' message value) (h : t.Acyclic) : t'.Acyclic ↔ ¬ t.Under message value := by
  constructor
  · intro hacyclic hunder
    have hnew : t'.parent? value = some message := ht.parent?_eq_some_iff.2 (.inr ⟨rfl, rfl⟩)
    have hunder' : t'.Under message value := hunder.lift id (fun _ _ hold => ht.parent?_eq_some_iff.2 (.inl hold))
    exact hacyclic value (.head hnew hunder')
  · intro hnot id hring
    rcases ht.under_cases hring with hold | ⟨hbefore, hbehind⟩
    · exact h id hold
    · rcases Relation.reflTransGen_iff_eq_or_transGen.1 (hbehind.trans hbefore) with heq | hunder
      · exact ht.ne heq
      · exact hnot hunder

/-- Where parents are older than what they own, so are ancestors, -/
theorem Under.lt (h : t.Under a b) (holder : ∀ id ∈ t.ids, ∀ p ∈ t.parent? id, p < id) : b < a := by
  have hstep : ∀ {id p}, t.parent? id = some p → p < id :=
    fun hparent => holder _ (List.mem_range.2 (lt_size_of_parent? hparent)) _ hparent
  induction h with
  | single hlink => exact hstep hlink
  | tail _ hlink ih => exact (hstep hlink).trans ih

/-- and there is no ring. -/
theorem acyclic_of_older (holder : ∀ id ∈ t.ids, ∀ p ∈ t.parent? id, p < id) : t.Acyclic :=
  fun _ hring => Nat.lt_irrefl _ (hring.lt holder)

/-- Where there was no ring, everything that goes down the tree after a return value still ends, unless the value was accepted and the
message was below it. Then the value is its own ancestor. -/
theorem ends_setReturnValue_iff (hm : t.Mirrored) (h : t.Acyclic) (message value : NodeId) :
    let (answer, t') := t.perform (.setReturnValue message value)
    (t'.Ends ↔ t'.Acyclic) ∧ (t'.Acyclic ↔ ¬ (answer = .filled true ∧ t.Under message value)) := by
  have hm' : (t.perform (.setReturnValue message value)).2.Mirrored := hm.shift (shift_perform _ trivial)
  refine ⟨hm'.ends_iff, ?_⟩
  rcases perform_setReturnValue t message value with ⟨-, haccepted, hanswered⟩ | ⟨-, hrefused, hsame⟩
  · rw [hanswered.acyclic_iff h, haccepted, not_iff_not]
    exact (and_iff_right rfl).symm
  · rw [hsame, hrefused]
    exact iff_of_true h (fun hboth => nomatch hboth.1)

/-- A message in a group may be given another node and refuses itself, and going down still ends. Given the group, it does not. -/
theorem ends_setReturnValue_iff_group :
    let t := (empty "unit").after [.alloc .groupedExpression default, .alloc (.message "at" none) default, .attach 0 1,
      .alloc .nil default]
    t.Mirrored ∧ t.Acyclic ∧ (t.perform (.setReturnValue 1 2)).2.Ends ∧ (t.perform (.setReturnValue 1 1)).2.Ends ∧
      ¬ (t.perform (.setReturnValue 1 0)).2.Ends := by
  intro t
  have hm : t.Mirrored := (Original.empty "unit").mirrored.after (by decide)
  have holder : ∀ id ∈ t.ids, ∀ p ∈ t.parent? id, p < id := by decide
  have h : t.Acyclic := acyclic_of_older holder
  have hiff := fun value => (ends_setReturnValue_iff hm h 1 value).1.trans (ends_setReturnValue_iff hm h 1 value).2
  refine ⟨hm, h, (hiff 2).2 ?_, (hiff 1).2 ?_, fun hends => (hiff 0).1 hends ?_⟩
  · rintro ⟨-, hunder⟩
    exact absurd (hunder.lt holder) (by decide)
  · rintro ⟨haccepted, -⟩
    exact absurd haccepted (by decide)
  · exact ⟨by decide, .single (by decide)⟩

/-- A group that becomes the return value of a message in it is its own ancestor. The message accepts it. -/
theorem not_acyclic_perform_group :
    let t := (empty "unit").after [.alloc .groupedExpression default, .alloc (.message "at" none) default, .attach 0 1]
    let (answer, t') := t.perform (.setReturnValue 1 0)
    t.Mirrored ∧ t.Acyclic ∧ answer = .filled true ∧ ¬ t'.Acyclic ∧ ¬ t'.Ends := by
  intro t
  have hm : t.Mirrored := (Original.empty "unit").mirrored.after (by decide)
  have hm' : (t.perform (.setReturnValue 1 0)).2.Mirrored := hm.shift (shift_perform _ trivial)
  have hring : (t.perform (.setReturnValue 1 0)).2.Under 0 0 :=
    .head (b := 1) (by decide) (.single (by decide))
  have hacyclic : ¬ (t.perform (.setReturnValue 1 0)).2.Acyclic := fun h => h 0 hring
  exact ⟨hm, acyclic_of_older (by decide), by decide, hacyclic, fun h => hacyclic (hm'.ends_iff.1 h)⟩

end Courier.Tree
