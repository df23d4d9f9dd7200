import Courier.Proofs.Parser.Located
import Courier.Proofs.Parser.Starts

/-!
# Productions make progress

However a production ends, the cursor has only moved on, and a success has passed a token that is no comment, unless it is a block of
statements, which may be empty (`Stream.Progresses.production`). Two things could still keep a parser from ending. A production could start
others without end, but one that is started inside another has fewer tokens ahead or a smaller rank (`Rule.Calls.need_lt`). And a loop could
go round without end, but every round takes a token (`Grammar.Loop.takes`), so that a loop without any bound, which only its own test or a
failure ends, ends as the bounded one does (`Parser.exists_rounds`).
-/

namespace Courier

namespace Parser

open ParserState Grammar

/-! ## Loops without a bound -/

/-- A loop that goes round as long as `more` holds, however often that may be, ends so. The rounds that it begins are counted; the last of
them may fail. -/
inductive Rounds {α : Type} (more : Parser Bool) (step : α → Parser α) : α → ParserState → Nat → Ending α → Prop
  | stop {a : α} {s t : ParserState} (hmore : more s = .ok false t) : Rounds more step a s 0 (.ok a t)
  | unseen {a : α} {s t : ParserState} {e : ParseError} (hmore : more s = .error e t) : Rounds more step a s 0 (.error e t)
  | fail {a : α} {s t u : ParserState} {e : ParseError} (hmore : more s = .ok true t) (hstep : step a t = .error e u) :
    Rounds more step a s 1 (.error e u)
  | round {a b : α} {s t u : ParserState} {n : Nat} {ending : Ending α} (hmore : more s = .ok true t) (hstep : step a t = .ok b u)
    (hrest : Rounds more step b u n ending) : Rounds more step a s (n + 1) ending

/-- The loop stands in the parser: in one of the parsers that it runs one after the other. -/
inductive Contains {α : Type} (more : Parser Bool) (step : α → Parser α) : {β : Type} → Parser β → Prop
  | here (a : α) : Contains more step (repeatWhile more step a)
  | first {β γ : Type} {m : Parser β} {f : β → Parser γ} (h : Contains more step m) : Contains more step (m >>= f)
  | later {β γ : Type} {m : Parser β} {f : β → Parser γ} (b : β) (h : Contains more step (f b)) : Contains more step (m >>= f)

variable {I J : Inner} {c : Construct} {moved moves : Bool} {α β : Type} {m n : Parser α} {s : ParserState} {o : Stream}

theorem Contains.map {γ : Type} {more : Parser Bool} {step : α → Parser α} {m : Parser β} (h : Contains more step m) {f : β → γ} :
    Contains more step (f <$> m) := by
  rw [← bind_pure_comp]
  exact .first h

/-- Where each round takes a token, a loop without a bound ends as the bounded one does, and it begins at most one round for each token
ahead that is no comment, and one that fails. -/
theorem exists_rounds {more : Parser Bool} {step : α → Parser α} {p : Option Token → Bool} (hmore : Looks more p)
    (hstep : ∀ a, Advances true (step a)) (a : α) (s : ParserState) :
    ∃ n ≤ s.significant.length + 1, Rounds more step a s n (repeatWhile more step a s) := by
  have hfor : ∀ (length : Nat) (a : α) (s : ParserState) (bound : List Token), s.significant.length = length → length ≤ bound.length →
      ∃ n ≤ length + 1, Rounds more step a s n (repeatFor more step bound a s) := by
    intro length
    induction length using Nat.strongRecOn with
    | ind length ih =>
      intro a s bound hlength hbound
      cases hp : p s.significant.head? with
      | false =>
        have hend : more s = .ok false s.settle := hp ▸ hmore s
        exact ⟨0, Nat.zero_le _, by rw [repeatFor_eq_of_not_more hend]; exact .stop hend⟩
      | true =>
        have hround : more s = .ok true s.settle := hp ▸ hmore s
        cases hnext : step a s.settle with
        | error e u =>
          exact ⟨1, Nat.le_add_left _ _, by rw [repeatFor_eq_error (.inr ⟨_, hround, hnext⟩)]; exact .fail hround hnext⟩
        | ok b u =>
          -- The round has taken a token, so there is a bound left.
          have hshorter := ((hstep a s.settle).ok hnext).shorter
          rw [significant_settle, hlength, Bool.toNat_true] at hshorter
          obtain ⟨r, rest, rfl⟩ := List.exists_cons_of_length_pos (l := bound) (by omega)
          rw [List.length_cons] at hbound
          obtain ⟨n, hn, hrounds⟩ := ih _ (by omega) b u rest rfl (by omega)
          exact ⟨n + 1, by omega, by rw [repeatFor_cons_eq hround hnext]; exact .round hround hnext hrounds⟩
  exact hfor _ a s s.stream.ahead rfl (List.length_filter_le _ _)

end Parser

/-! ## The loops of the grammar -/

namespace Grammar

open Courier.Parser

/-- The loops of the productions: what they go on with, and one round of them. -/
inductive Loop (inner : Inner) : {β : Type} → Rule β → {α : Type} → Parser Bool → (α → Parser α) → Prop
  | statements (block : NodeId) : Loop inner .statements inBlock (fun _ : Unit => do attach block (← inner.parse .statement))
  | namespacesOfFragment (owner : NodeId) :
    Loop inner .codeFragment (atKeyword .namespaceWord) (fun _ : Unit => do attach owner (← inner.parse .namespaceBlock))
  | namespacesOfNamespace (owner : NodeId) :
    Loop inner .namespaceBlock (atKeyword .namespaceWord) (fun _ : Unit => do attach owner (← inner.parse .namespaceBlock))
  | classMembers (node : NodeId) : Loop inner .classBlock inBlock (fun _ : Unit => do attach node (← classMember inner))
  | scopeMembers (owner : NodeId) : Loop inner .scopeBlock inBlock (fun _ : Unit => do
      let member ← inner.parse .variableDefinition
      let _ ← expect .endOfStatement "';'"
      attach owner member)
  | recordMembers (owner : NodeId) : Loop inner .recordBlock inBlock (fun _ : Unit => do
      let member ← inner.parse .variableDefinition
      let _ ← expect .endOfStatement "';'"
      attach owner member)
  | params (declaration : NodeId) : Loop inner .messageDeclaration (atKind .comma) (fun _ : Unit => do
      let _ ← take
      attach declaration (← inner.parse .param))
  | returnTypes : Loop inner .returnType (atKind .comma) (fun types : List String => do
      let _ ← take
      return types ++ [← inner.parse .typeDeclaration])
  | returnFields : Loop inner .returnType (atKind .comma) (fun fields : List (String × String) => do
      let _ ← take
      return fields ++ [← returnField inner])
  | flags : Loop inner .flags (not <$> atKind .rightBracket) flag
  | elements (array : NodeId) : Loop inner .arrayLiteral (atKind .comma) (fun _ : Unit => do
      let _ ← take
      attach array (← element inner))
  | parameters (node : NodeId) : Loop inner .message (atKind .colon) (fun _ : Unit => do
      let _ ← take
      attach node (← inner.parse .argument))
  | typeNames : Loop inner .typeDeclaration (atKind .dot) (fun name : String => do
      let _ ← take
      return name ++ "." ++ (← identifier "type name after '.'"))
  | instanceNames : Loop inner .inst (atKind .dot) (fun name : String => do
      let _ ← take
      return name ++ "." ++ (← identifier "name after '.'"))

variable {inner : Inner} {α β : Type} {rule : Rule β} {more : Parser Bool} {step : α → Parser α}

/-- Each loop stands in the body of its production. -/
theorem Loop.contains (h : Loop inner rule more step) : Contains more step (rule.body inner) := by
  cases h with
  | statements block => exact .later default (.later block (.first (.here ())))
  | namespacesOfFragment owner =>
    exact .later default (.later false (.later owner (.later default (.first (.later true (.first (.here ())))))))
  | namespacesOfNamespace owner =>
    exact .later default (.later default (.later default (.later owner (.later default (.first (.later true (.first (.here ()))))))))
  | classMembers node =>
    exact .later default (.later default (.later default (.later none (.later node (.later default (.first (.here ())))))))
  | scopeMembers owner => exact .later default (.later default (.later default (.later owner (.later default (.first (.here ()))))))
  | recordMembers owner =>
    exact .later default (.later default (.later default (.later none (.later owner (.later default (.first (.here ())))))))
  | params declaration =>
    exact .later default (.later default (.later false (.later none (.later declaration (.first (.later (some .colon, none)
      (.later default (.later default (.later () (.here ()))))))))))
  | returnTypes => exact .later default (.later default (.first (.later false (.map (.later default (.here [default]))))))
  | returnFields => exact .later default (.later default (.first (.later true (.map (.later default (.here [default]))))))
  | flags => exact .later default (.first (.later true (.later default (.first (.here [])))))
  | elements array =>
    exact .later default (.later default (.later array (.later false (.first (.later default (.later () (.here ())))))))
  | parameters node =>
    exact .later default (.later (some .identifier, none) (.later default (.later node (.first (.here ())))))
  | typeNames => exact .later default (.here default)
  | instanceNames => exact .later default (.later default (.first (.here default)))

/-- A loop goes on by the next token, and each of its rounds takes one. -/
theorem Loop.takes (h : Loop inner rule more step) (hinner : Inner.Advances inner) :
    (∃ p, Looks more p) ∧ ∀ a, Advances true (step a) := by
  have hround : ∀ {c : Construct} {p : Option Token → Bool}, Looks more p →
      (∀ a, Assembled inner inner c true true (step a) (step a)) → (∃ p, Looks more p) ∧ ∀ a, Advances true (step a) :=
    fun hmore hstep => ⟨⟨_, hmore⟩, fun a => (hstep a).advances hinner⟩
  have hmember : ∀ {c : Construct} (owner : NodeId), .variableDefinition ∈ c.enters true → Assembled inner inner c true true (do
      let member ← inner.parse .variableDefinition
      let _ ← expect .endOfStatement "';'"
      attach owner member) (do
      let member ← inner.parse .variableDefinition
      let _ ← expect .endOfStatement "';'"
      attach owner member) :=
    fun owner hc => .seq (.call .variableDefinition hc) (fun _ => .loose (.seq (assembled_expect (by decide)) (fun _ => assembled_attach _ _)))
  cases h with
  | statements block => exact hround looks_inBlock (fun _ => .attach (c := .statements) (.call .statement (by decide)) block)
  | namespacesOfFragment owner =>
    exact hround (looks_atKeyword _) (fun _ => .attach (c := .codeFragment) (.call .namespaceBlock (by decide)) owner)
  | namespacesOfNamespace owner =>
    exact hround (looks_atKeyword _) (fun _ => .attach (c := .namespaceBlock) (.call .namespaceBlock (by decide)) owner)
  | classMembers node => exact hround looks_inBlock (fun _ => .attach assembled_classMember node)
  | scopeMembers owner => exact hround looks_inBlock (fun _ => hmember (c := .scopeBlock) owner (by decide))
  | recordMembers owner => exact hround looks_inBlock (fun _ => hmember (c := .recordBlock) owner (by decide))
  | params declaration =>
    refine hround (c := .messageDeclaration) (looks_atKind _) (fun _ => .seq assembled_take (fun _ => .loose ?_))
    exact .attach (.call .param (by decide)) declaration
  | returnTypes =>
    refine hround (c := .returnType) (looks_atKind _) (fun _ => .seq assembled_take (fun _ => .loose ?_))
    exact .result (.call .typeDeclaration (by decide)) _
  | returnFields =>
    refine hround (c := .returnType) (looks_atKind _) (fun _ => .seq assembled_take (fun _ => .loose ?_))
    exact .result (assembled_nameWithType (by decide) (by decide)) _
  | flags => exact hround ((looks_atKind _).map not) assembled_flag
  | elements array =>
    exact hround (looks_atKind _) (fun _ => .seq assembled_take (fun _ => .loose (.attach assembled_element array)))
  | parameters node =>
    refine hround (c := .message) (looks_atKind _) (fun _ => .seq assembled_take (fun _ => .loose ?_))
    exact .attach (.call .argument (by decide)) node
  | typeNames =>
    exact hround (c := .typeDeclaration) (looks_atKind _)
      (fun _ => .seq assembled_take (fun _ => .loose (.result (assembled_identifier (by decide)) _)))
  | instanceNames =>
    exact hround (c := .inst) (looks_atKind _)
      (fun _ => .seq assembled_take (fun _ => .loose (.result (assembled_identifier (by decide)) _)))

end Grammar

namespace Parser

open ParserState Grammar

variable {I J : Inner} {c : Construct} {moved moves : Bool} {α β : Type} {m n : Parser α} {s : ParserState} {o : Stream}

/-! ## The cursor only moves on -/

/-- From every state whose stream was reached from `o`, the parser ends in such a state, whether it succeeds or fails. -/
def MovesOn (o : Stream) (m : Parser α) : Prop :=
  ∀ s, ReachedFrom o s → ReachedFrom o (Ending.state (m s))

theorem Elementary.movesOn (h : Elementary moves m) : MovesOn o m := by
  intro s hs
  have hlocates := h.locates s hs
  unfold LocatesAt Yields at hlocates
  cases hm : m s with
  | ok a t =>
    rw [hm] at hlocates
    exact hlocates
  | error e t =>
    rw [hm] at hlocates
    exact hlocates.1

theorem MovesOn.bind {f : α → Parser β} (hm : MovesOn o m) (hf : ∀ a, MovesOn o (f a)) : MovesOn o (m >>= f) := by
  intro s hs
  have hreached := hm s hs
  cases hms : m s with
  | ok a t =>
    rw [hms] at hreached
    rw [bind_eq_of_ok hms]
    exact hf a t hreached
  | error e t =>
    rw [hms] at hreached
    rw [bind_eq_of_error hms]
    exact hreached

theorem Assembled.movesOn (h : Assembled I J c moved moves m n) (hI : ∀ {α : Type} (r : Rule α), MovesOn o (I.parse r)) : MovesOn o m := by
  induction h with
  | elementary h => exact h.movesOn
  | blame => exact fun _ hs => hs
  | call r _ => exact hI r
  | seq _ _ ih ihf => exact ih.bind ihf
  | after _ _ ih ihf => exact ih.bind ihf
  | loose _ ih => exact ih

/-- A guard leaves the stream as its body does. -/
theorem stream_guarded : (Ending.state (guarded c m s)).stream = (Ending.state (m (s.enter c))).stream := by
  unfold guarded
  cases m (s.enter c) with
  | error e t => rfl
  | ok a t =>
    dsimp only
    split <;> rfl

theorem movesOn_parse (room : Nat) (r : Rule α) : MovesOn o (Rule.parse room r) := by
  induction room generalizing α with
  | zero => exact fun _ hs => hs
  | succ room ih =>
    intro s hs
    obtain ⟨ts, hts⟩ := (assembled_body (I := ⟨fun r => Rule.parse room r⟩) (J := ⟨fun r => Rule.parse room r⟩) r).movesOn
      (fun r => ih r) (s.enter r.construct) hs
    exact ⟨ts, stream_guarded (m := r.body ⟨fun r => Rule.parse room r⟩) ▸ hts⟩

end Parser

section

open Courier.Parser Construct

variable {α β : Type} {rule : Rule α} {r : Rule β} {inner : Inner} {s u : ParserState} {room : Nat}

/-! ## Productions inside others -/

/-- A production is started where the cursor is not before that of the one that calls it. -/
theorem Rule.Calls.reached {o : Stream} (hcall : rule.Calls inner s r u) (h : ∀ {α : Type} (r : Rule α), MovesOn o (inner.parse r))
    (hs : ReachedFrom o s) : ReachedFrom o u := by
  by_contra hnot
  have hbroken : ∀ {α : Type} (r' : Rule α), MovesOn o ((inner.failing r u default u).parse r') := by
    intro α r' s' hs'
    rw [Inner.failing_eq (P := fun _ s => ReachedFrom o s) hnot hs']
    exact h r' s' hs'
  have hreached := (assembled_body (J := inner) rule).movesOn hbroken s hs
  rw [hcall] at hreached
  exact hnot hreached

/-- A production that is started inside another needs less: it has fewer tokens ahead, or as many and a smaller rank. -/
theorem Rule.Calls.need_lt (hcall : rule.Calls inner s r u) (h : Inner.Advances inner) :
    r.need u.significant.length < rule.need s.significant.length := by
  by_contra hnot
  -- Where it needs as much, the body would not see how it fails.
  have hsame : ∀ e t, rule.body inner s = rule.body (inner.failing r u e t) s := by
    intro e t
    refine (assembled_body rule).eq_of_agree h (fun r' s' hless => ?_) s (Nat.le_refl _)
    refine (Inner.failing_eq (P := fun r s => r.need s.significant.length < 5 * _ + rule.construct.rank) ?_ hless e t).symm
    rwa [← Rule.rank_eq]
  have hfail := (hsame default u).symm.trans (hsame default { u with reattached := !u.reattached })
  rw [hcall, hcall] at hfail
  have hflag := congrArg ParserState.reattached (EStateM.Result.error.inj hfail).2
  cases hu : u.reattached <;> simp [hu] at hflag

/-! ## A whole parse -/

/-- The body of the one production starts the other one. -/
def Stream.Nests (s : Stream) (callee caller : (α : Type) × Rule α × ParserState) : Prop :=
  ∃ room, s.Starts (room + 1) caller.2.1 caller.2.2 ∧
    caller.2.1.Calls ⟨fun r => Rule.parse room r⟩ (caller.2.2.enter caller.2.1.construct) callee.2.1 callee.2.2

/-- A parse of the stream makes progress in all of its productions and loops. -/
structure Stream.Progresses (s : Stream) : Prop where
  /-- However a production ends, the cursor has only moved on. A success has passed a token that is no comment, but for statements. -/
  production {room : Nat} {α : Type} {r : Rule α} {u : ParserState} (h : s.Starts room r u) :
    ∃ passed, u.stream.Passed passed (Ending.state (Rule.parse room r u)).stream ∧
      ∀ a t, Rule.parse room r u = .ok a t → r.construct ≠ .statements → significant passed ≠ []
  /-- A production inside another one is not started before it, and has fewer tokens ahead or a smaller rank. -/
  nested {α β : Type} {rule : Rule α} {r : Rule β} {u v : ParserState} (h : s.Nests ⟨β, r, v⟩ ⟨α, rule, u⟩) :
    (∃ passed, u.stream.Passed passed v.stream) ∧ r.need v.significant.length < rule.need u.significant.length
  /-- So no chain of productions inside each other goes on without end. -/
  grounded : WellFounded s.Nests
  /-- Each loop goes on until its own test or a failure ends it, whatever the bound on its rounds, and begins at most one round for each
  token ahead and one more. -/
  loop {room : Nat} {α β : Type} {rule : Rule β} {more : Parser Bool} {step : α → Parser α}
    (h : Grammar.Loop ⟨fun r => Rule.parse room r⟩ rule more step) (a : α) (u : ParserState) :
    Contains more step (rule.body ⟨fun r => Rule.parse room r⟩) ∧
      ∃ n ≤ u.significant.length + 1, Rounds more step a u n (repeatWhile more step a u)
  /-- However the parse ends, it has moved the cursor on from the beginning of the stream. -/
  parse (trace : Bool) : ∃ passed, s.reset.Passed passed (s.parse trace).2

theorem Stream.Starts.exists_passed {s : Stream} (h : s.Starts room r u) :
    ∃ passed, u.stream.Passed passed (Ending.state (Rule.parse room r u)).stream ∧
      ∀ a t, Rule.parse room r u = .ok a t → r.construct ≠ .statements → significant passed ≠ [] := by
  obtain ⟨passed, hpassed⟩ := movesOn_parse room r u ⟨[], .refl h.started.unmarked⟩
  refine ⟨passed, hpassed, fun a t ht hstatements hnone => ?_⟩
  have hmoves : r.moves = true := bne_iff_ne.2 hstatements
  have hshorter := ((advances_parse room r u).ok ht).shorter
  rw [ht] at hpassed
  have hahead : u.significant = significant passed ++ t.significant := by
    unfold ParserState.significant
    rw [← significant_append, hpassed.ahead]
    rfl
  rw [hahead, hnone, hmoves, List.nil_append, Bool.toNat_true] at hshorter
  exact Nat.not_succ_le_self _ hshorter

theorem Stream.Nests.progress {s : Stream} (h : s.Nests ⟨β, r, u⟩ ⟨α, rule, s'⟩) :
    (∃ passed, s'.stream.Passed passed u.stream) ∧ r.need u.significant.length < rule.need s'.significant.length := by
  obtain ⟨room, hstarts, hcall⟩ := h
  exact ⟨hcall.reached (movesOn_parse room) ⟨[], .refl hstarts.started.unmarked⟩, hcall.need_lt (advances_parse room)⟩

/-- Every stream, wherever it may be cut off, is parsed with progress. -/
theorem Stream.progresses (s : Stream) : s.Progresses where
  production h := h.exists_passed
  nested h := h.progress
  grounded := Subrelation.wf (fun h => h.progress.2)
    (measure (fun p : (α : Type) × Rule α × ParserState => p.2.1.need p.2.2.significant.length)).wf
  loop h a u := by
    obtain ⟨⟨p, hmore⟩, hstep⟩ := h.takes (advances_parse _)
    exact ⟨h.contains, exists_rounds hmore hstep a u⟩
  parse trace := by
    rw [parse_eq_report]
    have hreached : ReachedFrom s.reset (Ending.state (Rule.unit.parse maxNesting (.initial s trace))) :=
      movesOn_parse maxNesting .unit (.initial s trace) ⟨[], .refl rfl⟩
    cases hend : Rule.unit.parse maxNesting (.initial s trace) with
    | ok root t =>
      rw [hend] at hreached
      exact hreached
    | error e t =>
      rw [hend] at hreached
      exact hreached

end

end Courier
