import Courier.Proofs.Tree.Levels
import Mathlib.Data.List.Nodup

/-!
# What a walk shows

The events below a node are that the node is entered, then the events below its comments and its children in order, then, for a
container, that it is left (`Tree.events`). A walk shows a visitor these events until it fails, and ends as the visitor did
(`Tree.Walks`). From the root of a parsed tree every node is entered once and every container left once, and when a node is entered
the containers entered and not yet left are those above it (`Tree.Balanced`).
-/

namespace Courier

namespace Tree

/-- A visit of a walk: which node is visited, and on which side. -/
abbrev Event : Type :=
  NodeId × Phase

/-- What is visited below an id, itself first, down as many levels as `fuel` says. -/
def eventsFrom (t : Tree) : Nat → NodeId → List Event
  | 0, _ => []
  | fuel + 1, id =>
    match t.node? id with
    | none => []
    | some n =>
      (id, .enter) :: (n.below.flatMap (t.eventsFrom fuel) ++ if n.kind.isContainer then [(id, .exit)] else [])

/-- What is visited below an id, itself first. -/
def events (t : Tree) (id : NodeId) : List Event :=
  t.eventsFrom t.size id

/-- Whether the node of an id is a container. -/
def isContainer (t : Tree) (id : NodeId) : Bool :=
  (t.kind? id).any Kind.isContainer

/-- One visit. -/
def deliver {m : Type → Type} [Monad m] (t : Tree) (visit : Node → NodeId → Phase → m Unit) (event : Event) : m Unit :=
  match t.node? event.1 with
  | none => pure ()
  | some n => visit n event.1 event.2

/-- The visitor that also writes down what it is shown, and fails as the other does. -/
def recording {ε σ : Type} (visit : Node → NodeId → Phase → EStateM ε σ Unit) :
    Node → NodeId → Phase → EStateM ε (σ × List Event) Unit :=
  fun n id phase (s, log) =>
    match visit n id phase s with
    | .ok () s' => .ok () (s', log ++ [(id, phase)])
    | .error e s' => .error e (s', log ++ [(id, phase)])

/-- The visitor accepts one event after the other, and its state changes from the first to the second. -/
inductive Accepts {ε σ : Type} (t : Tree) (visit : Node → NodeId → Phase → EStateM ε σ Unit) : List Event → σ → σ → Prop
  | nil (s : σ) : Accepts t visit [] s s
  | cons {n : Node} {id : NodeId} {phase : Phase} {rest : List Event} {s s' s'' : σ} (hn : t.node? id = some n)
      (hvisit : visit n id phase s = .ok () s') (h : Accepts t visit rest s' s'') : Accepts t visit ((id, phase) :: rest) s s''

/-- The visitor accepts the events before this one, and fails on this one. -/
def FailsAt {ε σ : Type} (t : Tree) (visit : Node → NodeId → Phase → EStateM ε σ Unit) (before : List Event) (event : Event)
    (s : σ) (e : ε) (s' : σ) : Prop :=
  ∃ n between, t.Accepts visit before s between ∧ t.node? event.1 = some n ∧ visit n event.1 event.2 between = .error e s'

/-- A walk from an id shows any visitor the events below it. If the visitor accepts all of them, it is shown all of them; if it fails on
one of them, it is shown that one and those before, and its failure is that of the walk. -/
structure Walks (t : Tree) (id : NodeId) : Prop where
  accepted {ε σ : Type} {visit : Node → NodeId → Phase → EStateM ε σ Unit} (visits : Nat) {s s' : σ}
    (h : t.Accepts visit (t.events id) s s') :
    t.walk visit visits id s = .ok () s' ∧ t.walk (recording visit) visits id (s, []) = .ok () (s', t.events id)
  failed {ε σ : Type} {visit : Node → NodeId → Phase → EStateM ε σ Unit} (visits : Nat) {s s' : σ} {e : ε} {before after : List Event}
    {event : Event} (hevents : t.events id = before ++ event :: after) (h : t.FailsAt visit before event s e s') :
    t.walk visit visits id s = .error e s' ∧
      t.walk (recording visit) visits id (s, []) = .error e (s', before ++ [event])

/-- Below this node every node is entered exactly once, and containers, and nothing else, are left exactly once. When a node is entered,
the containers that were entered and not left are those among its ancestors. -/
structure Balanced (t : Tree) (root : NodeId) : Prop where
  entered (id : NodeId) : (t.events root).count (id, .enter) = if id < t.size then 1 else 0
  left (id : NodeId) : (t.events root).count (id, .exit) = if t.isContainer id then 1 else 0
  nested {before after : List Event} {id : NodeId} (h : t.events root = before ++ (id, .enter) :: after) (c : NodeId) :
    (t.isContainer c ∧ (c, .enter) ∈ before ∧ (c, .exit) ∉ before) ↔ (t.isContainer c ∧ t.Under id c)

variable {t : Tree} {levels : Nat} {id : NodeId}

/-! ## A walk is its events -/

section

variable {m : Type → Type} [Monad m] [LawfulMonad m] {α : Type}

theorem forM_flatMap {β : Type} (ids : List β) (g : β → List α) (f : α → m Unit) :
    (ids.flatMap g).forM f = ids.forM (fun id => (g id).forM f) := by
  induction ids with
  | nil => rfl
  | cons id ids ih =>
    have happend : (g id ++ ids.flatMap g).forM f = (do (g id).forM f; (ids.flatMap g).forM f) := List.forM_append
    rw [List.flatMap_cons, happend, ih]
    rfl

/-- Walking is to visit the events one after the other. -/
theorem walkFrom_eq_forM (t : Tree) (visit : Node → NodeId → Phase → m Unit) (fuel : Nat) (id : NodeId) :
    t.walkFrom visit fuel id = (t.eventsFrom fuel id).forM (t.deliver visit) := by
  induction fuel generalizing id with
  | zero => rfl
  | succ fuel ih =>
    rw [walkFrom, eventsFrom]
    cases hn : t.node? id with
    | none => rfl
    | some n =>
      have hvisit : ∀ phase, t.deliver visit (id, phase) = visit n id phase := fun phase => by simp only [deliver, hn]
      have hbelow : (n.below.flatMap (t.eventsFrom fuel)).forM (t.deliver visit) = n.below.forM (t.walkFrom visit fuel) := by
        rw [forM_flatMap]
        exact congrArg _ (funext (fun c => (ih c).symm))
      have hexit : (if n.kind.isContainer then [(id, Phase.exit)] else []).forM (t.deliver visit) =
          if n.kind.isContainer then visit n id .exit else pure () := by
        cases n.kind.isContainer with
        | true =>
          rw [if_pos rfl, if_pos rfl, ← hvisit]
          exact bind_pure_unit
        | false => rfl
      have happend : ∀ xs ys : List Event, (xs ++ ys).forM (t.deliver visit) =
          (do xs.forM (t.deliver visit); ys.forM (t.deliver visit)) := fun _ _ => List.forM_append
      simp only [List.forM, hvisit, happend, hbelow, hexit]

end

/-! ## What a visitor is shown -/

section

variable {ε σ : Type} {visit : Node → NodeId → Phase → EStateM ε σ Unit} {s s' : σ} {e : ε} {events : List Event}

theorem forM_cons_of_ok {τ : Type} {f : Event → EStateM ε τ Unit} {event : Event} {u u' : τ} (h : f event u = .ok () u') :
    (event :: events).forM f u = events.forM f u' := by
  show EStateM.bind (f event) (fun _ => events.forM f) u = _
  rw [EStateM.bind, h]

theorem forM_cons_of_error {τ : Type} {f : Event → EStateM ε τ Unit} {event : Event} {u u' : τ} (h : f event u = .error e u') :
    (event :: events).forM f u = .error e u' := by
  show EStateM.bind (f event) (fun _ => events.forM f) u = _
  rw [EStateM.bind, h]

theorem deliver_recording {n : Node} {phase : Phase} (hn : t.node? id = some n) (u : σ) (log : List Event) :
    t.deliver (recording visit) (id, phase) (u, log) =
      match visit n id phase u with
      | .ok () u' => .ok () (u', log ++ [(id, phase)])
      | .error e u' => .error e (u', log ++ [(id, phase)]) := by
  simp only [deliver, hn]
  rfl

/-- A visitor that accepts some events is shown these, and then the ones behind them. -/
theorem Accepts.forM_append (h : t.Accepts visit events s s') (rest : List Event) :
    (events ++ rest).forM (t.deliver visit) s = rest.forM (t.deliver visit) s' ∧
      ∀ log, (events ++ rest).forM (t.deliver (recording visit)) (s, log) =
        rest.forM (t.deliver (recording visit)) (s', log ++ events) := by
  induction h with
  | nil s => exact ⟨rfl, fun log => by rw [List.append_nil]; rfl⟩
  | @cons n id phase events s s' s'' hn hvisit h ih =>
    have hplain : t.deliver visit (id, phase) s = .ok () s' := by simp only [deliver, hn, hvisit]
    have hrecorded : ∀ log, t.deliver (recording visit) (id, phase) (s, log) = .ok () (s', log ++ [(id, phase)]) :=
      fun log => by rw [deliver_recording hn, hvisit]
    refine ⟨?_, fun log => ?_⟩
    · rw [List.cons_append, forM_cons_of_ok hplain, ih.1]
    · rw [List.cons_append, forM_cons_of_ok (hrecorded log), ih.2, List.append_assoc, List.singleton_append]

/-- Without rings a walk shows the events, however many visits the visitor lasts. -/
theorem Acyclic.walk_eq {m : Type → Type} [Monad m] [LawfulMonad m] (h : t.Acyclic) (hm : t.Mirrored)
    (visit : Node → NodeId → Phase → m Unit) (visits : Nat) (id : NodeId) :
    t.walk visit visits id = (t.events id).forM (t.deliver visit) :=
  ((h.hasLevels hm id).walkFrom_eq visit visits).trans (walkFrom_eq_forM t visit t.size id)

theorem Acyclic.walks (h : t.Acyclic) (hm : t.Mirrored) (id : NodeId) : t.Walks id where
  accepted visits s s' haccepts := by
    obtain ⟨hplain, hrecorded⟩ := haccepts.forM_append []
    rw [List.append_nil] at hplain hrecorded
    rw [h.walk_eq hm, h.walk_eq hm]
    exact ⟨hplain, hrecorded []⟩
  failed visits s s' e before after event hevents hfails := by
    obtain ⟨n, between, haccepts, hn, hvisit⟩ := hfails
    obtain ⟨hplain, hrecorded⟩ := haccepts.forM_append (event :: after)
    rw [h.walk_eq hm, h.walk_eq hm, hevents]
    refine ⟨?_, ?_⟩
    · rw [hplain]
      exact forM_cons_of_error (by simp only [deliver, hn, hvisit])
    · rw [hrecorded, List.nil_append]
      exact forM_cons_of_error (by rw [deliver_recording hn, hvisit])

end

/-! ## The events below a node -/

theorem HasLevels.eventsFrom_eq (h : t.HasLevels levels id) (more : Nat) :
    t.eventsFrom (levels + more) id = t.eventsFrom levels id := by
  induction levels generalizing id with
  | zero =>
    have hnone : t.node? id = none := h
    cases more with
    | zero => rfl
    | succ more => simp only [eventsFrom, hnone]
  | succ levels ih =>
    rw [Nat.add_right_comm, eventsFrom, eventsFrom]
    cases hn : t.node? id with
    | none => rfl
    | some n =>
      have hbelow : ∀ c ∈ n.below, t.eventsFrom (levels + more) c = t.eventsFrom levels c :=
        fun c hc => ih (h c (by rw [below, part_of_node? hn]; exact hc))
      simp only [List.flatMap_congr hbelow]

/-- The events below a node are that it is entered, the events below what it owns, and, for a container, that it is left. -/
theorem Acyclic.events_eq (h : t.Acyclic) (hm : t.Mirrored) {n : Node} (hn : t.node? id = some n) :
    t.events id = (id, .enter) :: (n.below.flatMap t.events ++ if n.kind.isContainer then [(id, .exit)] else []) := by
  have hmore : t.events id = t.eventsFrom (t.size + 1) id := ((h.hasLevels hm id).eventsFrom_eq 1).symm
  rw [hmore, eventsFrom, hn]
  rfl

/-- A property passes from what a node owns to the node, and so to every node. -/
theorem Acyclic.induction (h : t.Acyclic) (hm : t.Mirrored) {P : NodeId → Prop} (step : ∀ id, (∀ c ∈ t.below id, P c) → P id)
    (id : NodeId) : P id := by
  have hlevels := h.hasLevels hm id
  generalize t.size = levels at hlevels
  induction levels generalizing id with
  | zero =>
    have hnone : t.node? id = none := hlevels
    refine step id (fun c hc => ?_)
    simp [below, part, hnone] at hc
  | succ levels ih => exact step id (fun c hc => ih c (hlevels c hc))

theorem isContainer_of_node? {n : Node} (hn : t.node? id = some n) : t.isContainer id = n.kind.isContainer := by
  rw [isContainer, kind?, hn]
  rfl

theorem Acyclic.mem_events_iff (h : t.Acyclic) (hm : t.Mirrored) {n : Node} (hn : t.node? id = some n) (event : Event) :
    event ∈ t.events id ↔
      event = (id, .enter) ∨ (∃ c ∈ t.below id, event ∈ t.events c) ∨ (event = (id, .exit) ∧ t.isContainer id = true) := by
  have hbelow : t.below id = n.below := part_of_node? hn
  rw [h.events_eq hm hn, isContainer_of_node? hn, List.mem_cons, List.mem_append, List.mem_flatMap, hbelow]
  cases n.kind.isContainer <;> simp

theorem events_eq_nil (hn : t.node? id = none) : t.events id = [] := by
  unfold events
  cases t.size with
  | zero => rfl
  | succ fuel => rw [eventsFrom, hn]

/-- What is visited below a node is there and lies below it, and only containers are left. -/
theorem Acyclic.ascends_of_mem (h : t.Acyclic) (hm : t.Mirrored) {event : Event} (hevent : event ∈ t.events id) :
    t.Ascends event.1 id ∧ event.1 < t.size ∧ (event.2 = .exit → t.isContainer event.1 = true) := by
  induction id using h.induction hm with
  | step id ih =>
    cases hn : t.node? id with
    | none =>
      rw [events_eq_nil hn] at hevent
      nomatch hevent
    | some n =>
      rcases (h.mem_events_iff hm hn event).1 hevent with rfl | ⟨c, hc, hbelow⟩ | ⟨rfl, hcontainer⟩
      · exact ⟨.refl, lt_size_of_node? hn, nofun⟩
      · obtain ⟨hascends, hlt, hexit⟩ := ih c hc hbelow
        exact ⟨hascends.tail ((Mirrored.owns hm id c).1.2 hc), hlt, hexit⟩
      · exact ⟨.refl, lt_size_of_node? hn, fun _ => hcontainer⟩

/-- Two nodes with one parent have nothing below them in common. -/
theorem Acyclic.eq_of_siblings (h : t.Acyclic) {i c c' p : NodeId} (hc : t.parent? c = some p) (hc' : t.parent? c' = some p)
    (hi : t.Ascends i c) (hi' : t.Ascends i c') : c = c' := by
  have hunique : Relator.RightUnique (fun child parent => t.parent? child = some parent) :=
    fun _ _ _ hb hd => Option.some.inj (hb.symm.trans hd)
  have hsame : ∀ {a b}, t.parent? a = some p → t.parent? b = some p → t.Ascends a b → a = b := by
    intro a b ha hb hab
    rcases Relation.reflTransGen_iff_eq_or_transGen.1 hab with heq | hunder
    · exact heq.symm
    · obtain ⟨q, hq, habove⟩ := Relation.TransGen.head'_iff.1 hunder
      obtain rfl := Option.some.inj (ha.symm.trans hq)
      exact absurd (Relation.TransGen.tail' habove hb) (h p)
  rcases Relation.ReflTransGen.total_of_right_unique hunique hi hi' with hcc | hcc
  · exact hsame hc hc' hcc
  · exact (hsame hc' hc hcc).symm

/-- No event comes twice. -/
theorem Acyclic.nodup_events (h : t.Acyclic) (hm : t.Mirrored) (id : NodeId) : (t.events id).Nodup := by
  induction id using h.induction hm with
  | step id ih =>
    cases hn : t.node? id with
    | none =>
      rw [events_eq_nil hn]
      exact List.nodup_nil
    | some n =>
      have hbelow : t.below id = n.below := part_of_node? hn
      have hparent : ∀ c ∈ n.below, t.parent? c = some id := fun c hc => (Mirrored.owns hm id c).1.2 (hbelow ▸ hc)
      -- The node itself is not visited below what it owns.
      have hnot : ∀ phase, (id, phase) ∉ n.below.flatMap t.events := by
        intro phase hmem
        obtain ⟨c, hc, hevent⟩ := List.mem_flatMap.1 hmem
        exact h id (Relation.TransGen.tail' (h.ascends_of_mem hm hevent).1 (hparent c hc))
      have honce : n.below.Nodup := by
        refine List.nodup_iff_count_le_one.2 (fun c => ?_)
        rw [← hbelow, hm]
        split <;> decide
      have hapart : n.below.Pairwise (Function.onFun List.Disjoint t.events) := by
        refine honce.pairwise_of_forall_ne (fun c hc c' hc' hne event hevent hevent' => hne ?_)
        exact h.eq_of_siblings (hparent c hc) (hparent c' hc') (h.ascends_of_mem hm hevent).1 (h.ascends_of_mem hm hevent').1
      have hnodup : (n.below.flatMap t.events).Nodup := List.nodup_flatMap.2 ⟨fun c hc => ih c (hbelow ▸ hc), hapart⟩
      rw [h.events_eq hm hn]
      generalize n.below.flatMap t.events = inside at hnot hnodup
      cases n.kind.isContainer with
      | false => simpa using ⟨hnot .enter, hnodup⟩
      | true => simpa using ⟨hnot .enter, hnodup.append (List.nodup_singleton _) (by simpa using hnot .exit)⟩

/-- The events below a node come one after the other among those below its ancestors. -/
theorem Acyclic.exists_events_eq (h : t.Acyclic) (hm : t.Mirrored) {i : NodeId} (hi : t.Ascends i id) :
    ∃ front back, t.events id = front ++ t.events i ++ back := by
  induction hi with
  | refl => exact ⟨[], [], by rw [List.nil_append, List.append_nil]⟩
  | @tail c p hic hcp ih =>
    obtain ⟨front, back, hevents⟩ := ih
    have hc : c ∈ t.below p := (Mirrored.owns hm p c).1.1 hcp
    obtain ⟨n, hn⟩ := exists_node? (lt_size_of_part (List.ne_nil_of_mem hc))
    rw [below, part_of_node? hn] at hc
    obtain ⟨cs, cs', hbelow⟩ := List.append_of_mem hc
    refine ⟨(p, .enter) :: (cs.flatMap t.events ++ front),
      back ++ (cs'.flatMap t.events ++ if n.kind.isContainer then [(p, .exit)] else []), ?_⟩
    rw [h.events_eq hm hn, hbelow, List.flatMap_append, List.flatMap_cons, hevents]
    simp only [List.append_assoc, List.cons_append]

/-- Every visit of a node below another is among the events of that one. -/
theorem Acyclic.mem_events (h : t.Acyclic) (hm : t.Mirrored) {i : NodeId} {phase : Phase} (hi : t.Ascends i id) (hlt : i < t.size)
    (hexit : phase = .exit → t.isContainer i = true) : (i, phase) ∈ t.events id := by
  obtain ⟨front, back, hevents⟩ := h.exists_events_eq hm hi
  obtain ⟨n, hn⟩ := exists_node? hlt
  rw [hevents]
  refine List.mem_append_left _ (List.mem_append_right _ ((h.mem_events_iff hm hn _).2 ?_))
  cases phase with
  | enter => exact .inl rfl
  | exit => exact .inr (.inr ⟨rfl, hexit rfl⟩)

/-- In a list without repetitions a value stands before another one exactly if that one stands behind it. -/
theorem mem_before_iff {α : Type} {before after back : List α} {a x : α} (front : List α) (hnodup : (before ++ x :: after).Nodup)
    (h : before ++ x :: after = front ++ a :: back) : a ∈ before ↔ x ∈ back := by
  have hnodup' : (front ++ a :: back).Nodup := h ▸ hnodup
  have hfirst := (List.nodup_append.1 hnodup).2
  have hsecond := (List.nodup_append.1 hnodup').2
  rcases List.append_eq_append_iff.1 h with ⟨between, rfl, hrest⟩ | ⟨between, rfl, hrest⟩
  -- Either `x` stands at or before `a`, and neither holds, or behind it, and both do.
  · cases between <;> grind
  · cases between <;> grind

/-- A container that is above a node when that one is entered was entered before and is left behind it, and no other one was. -/
theorem Acyclic.open_iff (h : t.Acyclic) (hm : t.Mirrored) {before after : List Event} {root i c : NodeId}
    (hevents : t.events root = before ++ (i, .enter) :: after) (hc : t.isContainer c = true) (hroot : t.Ascends c root) :
    (c, .enter) ∈ before ∧ (c, .exit) ∉ before ↔ t.Under i c := by
  obtain ⟨n, hn⟩ : ∃ n, t.node? c = some n := by
    cases hn : t.node? c with
    | none => simp [isContainer, kind?, hn] at hc
    | some n => exact ⟨n, rfl⟩
  obtain ⟨front, back, hsplit⟩ := h.exists_events_eq hm hroot
  have hcontainer : n.kind.isContainer = true := isContainer_of_node? hn ▸ hc
  have hown : t.events c = (c, .enter) :: (n.below.flatMap t.events ++ [(c, .exit)]) := by
    rw [h.events_eq hm hn, if_pos hcontainer]
  have hi : (i, .enter) ∈ t.events root := hevents ▸ List.mem_append_right _ List.mem_cons_self
  have hnodup : (before ++ (i, .enter) :: after).Nodup := hevents ▸ h.nodup_events hm root
  have hentered : (c, Phase.enter) ∈ before ↔ (i, Phase.enter) ∈ n.below.flatMap t.events ++ (c, .exit) :: back := by
    refine mem_before_iff front hnodup ?_
    rw [← hevents, hsplit, hown]
    simp only [List.append_assoc, List.cons_append, List.nil_append]
  have hleft : (c, Phase.exit) ∈ before ↔ (i, Phase.enter) ∈ back := by
    refine mem_before_iff (front ++ (c, .enter) :: n.below.flatMap t.events) hnodup ?_
    rw [← hevents, hsplit, hown]
    simp only [List.append_assoc, List.cons_append, List.nil_append]
  have hinside : (i, Phase.enter) ∈ n.below.flatMap t.events ↔ t.Under i c := by
    have hbelow : t.below c = n.below := part_of_node? hn
    constructor
    · intro hmem
      obtain ⟨d, hd, hbelow'⟩ := List.mem_flatMap.1 hmem
      exact .tail' (h.ascends_of_mem hm hbelow').1 ((Mirrored.owns hm c d).1.2 (hbelow ▸ hd))
    · intro hunder
      obtain ⟨d, habove, hparent⟩ := Relation.TransGen.tail'_iff.1 hunder
      refine List.mem_flatMap.2 ⟨d, hbelow ▸ (Mirrored.owns hm c d).1.1 hparent, ?_⟩
      exact h.mem_events hm habove (h.ascends_of_mem hm hi).2.1 (fun hphase => Phase.noConfusion hphase)
  have hapart : (i, Phase.enter) ∈ n.below.flatMap t.events → (i, Phase.enter) ∉ back := by
    intro hmem hback
    have hroot' := h.nodup_events hm root
    rw [hsplit, hown] at hroot'
    exact (List.nodup_append.1 hroot').2.2 _ (List.mem_append_right _ (.tail _ (List.mem_append_left _ hmem))) _ hback rfl
  rw [hentered, hleft, ← hinside, List.mem_append, List.mem_cons]
  constructor
  · rintro ⟨hmem | hexit | hback, hnot⟩
    · exact hmem
    · simp at hexit
    · exact absurd hback hnot
  · exact fun hmem => ⟨.inl hmem, hapart hmem⟩

theorem isContainer_lt_size (h : t.isContainer id = true) : id < t.size := by
  unfold isContainer kind? at h
  cases hn : t.node? id with
  | none => simp [hn] at h
  | some n => exact lt_size_of_node? hn

/-! ## Parsed trees -/

/-- In one tree no node is its own ancestor: the root would be, too. -/
theorem IsTree.acyclic {root : NodeId} (h : t.IsTree root) : t.Acyclic := by
  intro id hring
  have hascends : t.Ascends id root := by
    obtain ⟨p, hparent, -⟩ := Relation.TransGen.head'_iff.1 hring
    exact h.grounded (lt_size_of_parent? hparent)
  have habove : ∀ {i}, t.Ascends id i → t.Under i i := by
    intro i hi
    induction hi with
    | refl => exact hring
    | tail _ hparent ih =>
      obtain ⟨p, hparent', habove⟩ := Relation.TransGen.head'_iff.1 ih
      obtain rfl := Option.some.inj (hparent.symm.trans hparent')
      exact .tail' habove hparent
  obtain ⟨p, hparent, -⟩ := Relation.TransGen.head'_iff.1 (habove hascends)
  rw [(h.parentless h.root_lt).2 rfl] at hparent
  nomatch hparent

theorem IsTree.balanced {root : NodeId} (h : t.IsTree root) (hm : t.Mirrored) : t.Balanced root where
  entered id := by
    split
    · rename_i hlt
      exact List.count_eq_one_of_mem (h.acyclic.nodup_events hm root) (h.acyclic.mem_events hm (h.grounded hlt) hlt nofun)
    · rename_i hlt
      exact List.count_eq_zero.2 (fun hmem => hlt (h.acyclic.ascends_of_mem hm hmem).2.1)
  left id := by
    split
    · rename_i hcontainer
      have hlt := isContainer_lt_size hcontainer
      exact List.count_eq_one_of_mem (h.acyclic.nodup_events hm root)
        (h.acyclic.mem_events hm (h.grounded hlt) hlt (fun _ => hcontainer))
    · rename_i hcontainer
      exact List.count_eq_zero.2 (fun hmem => hcontainer ((h.acyclic.ascends_of_mem hm hmem).2.2 rfl))
  nested hevents c := by
    refine and_congr_right (fun hcontainer => ?_)
    exact h.acyclic.open_iff hm hevents hcontainer (h.grounded (isContainer_lt_size hcontainer))

end Tree

namespace Stream

open Courier.Parser Courier.Tree

theorem exists_isTree {s : Stream} {trace : Bool} {t : Tree} (h : (s.parse trace).1 = .ok t) : ∃ root, t.IsTree root := by
  obtain ⟨root, u, hu, rfl⟩ := parse_eq_ok.1 h
  exact ⟨root, ((grows_parse maxNesting .unit [] [] (.initial s trace) (holds_initial s trace)).ok hu).2.isTree_finish⟩

/-- The visitor protocol on parsed trees. The events below a node are that it is entered, the events below its comments, then those
below its children, and, for a container, that it is left. A walk from any node shows any visitor these events up to the one it fails on.
A walk of the whole tree is the one from the root, and its events are balanced. -/
theorem walks_of_parse {s : Stream} {trace : Bool} {t : Tree} (h : (s.parse trace).1 = .ok t) :
    (∀ id n, t.node? id = some n → t.events id = (id, .enter) ::
      (n.comments.flatMap t.events ++ n.children.flatMap t.events ++ if n.kind.isContainer then [(id, .exit)] else [])) ∧
    (∀ id, t.Walks id) ∧
    ∃ root, t.root = some root ∧ t.Balanced root ∧
      ∀ {m : Type → Type} [Monad m] (visit : Node → NodeId → Phase → m Unit) (visits : Nat),
        t.walkAll visit visits = t.walk visit visits root := by
  obtain ⟨root, htree⟩ := exists_isTree h
  have hm : t.Mirrored := (Original.parsed h).mirrored
  refine ⟨fun id n hn => ?_, fun id => htree.acyclic.walks hm id, root, htree.root_eq, htree.balanced hm, fun visit visits => ?_⟩
  · have hbelow : n.below = n.comments ++ n.children := by
      rw [Node.below, Node.offspring, htree.unanswered hn, Option.toList_none, List.append_nil]
    rw [htree.acyclic.events_eq hm hn, hbelow, List.flatMap_append]
  · rw [walkAll, htree.root_eq]

/-- The comment in a class is entered while the class is, and the class is left before what it stands in. -/
theorem walks_of_parse_class : ∃ s t root, Stream.tokenize "unit" "\x7b class A \x7b # c\n \x7d \x7d" = .ok s ∧
    (s.parse true).1 = .ok t ∧ t.root = some root ∧ t.Balanced root ∧ t.events root =
      [(0, .enter), (1, .enter), (2, .enter), (3, .enter), (2, .exit), (1, .exit), (0, .exit)] := by
  obtain ⟨s, t, hs, ht, hevents⟩ := exists_parse_eq "unit" "\x7b class A \x7b # c\n \x7d \x7d" true
    (fun t => t.root.map t.events)
    (a := some [(0, .enter), (1, .enter), (2, .enter), (3, .enter), (2, .exit), (1, .exit), (0, .exit)]) (by decide +kernel)
  obtain ⟨-, -, root, hroot, hbalanced, -⟩ := walks_of_parse ht
  rw [hroot] at hevents
  exact ⟨s, t, root, hs, ht, hroot, hbalanced, Option.some.inj hevents⟩

end Stream

end Courier
