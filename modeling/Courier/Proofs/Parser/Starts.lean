import Courier.Proofs.Parser.CallPath
import Courier.Proofs.Parser.Coupling
import Courier.Proofs.Parser.Orderly
import Courier.Proofs.Tree.OneTree

/-!
# Where productions are started

No production goes on after a failure of one inside it. So the state in which a body starts another production is the one at which any
failure of that production would be the failure of the body (`Rule.Calls`), and following the calls from the unit gives the states in
which a parse starts its productions (`Stream.Starts`). What a body promises to the productions inside it holds there: if it did not, the
body would keep its own promise even where such a production failed in a way that breaks it. So no mark is saved where a production is
started, the chain of constructs is that of a call, and the nodes without a parent are those held and made (`Parser.Started`).
-/

namespace Courier

/-- Two rules are the same, and so are the states in which they are started. -/
def Rule.Meets {α β : Type} (r' : Rule α) (s : ParserState) (r : Rule β) (u : ParserState) : Prop :=
  (⟨α, r'⟩ : (α : Type) × Rule α) = ⟨β, r⟩ ∧ s = u

open Classical in
/-- The parsers of the rules inside a production, but for one rule in one state, which fails in a given way. -/
noncomputable def Inner.failing {β : Type} (inner : Inner) (r : Rule β) (u : ParserState) (e : ParseError) (t : ParserState) : Inner where
  parse r' := fun s => if r'.Meets s r u then .error e t else inner.parse r' s

/-- The body of the rule, run from `s`, starts the production of `r` in the state `u`: however that failed, the body would fail so. -/
def Rule.Calls {α β : Type} (rule : Rule α) (inner : Inner) (s : ParserState) (r : Rule β) (u : ParserState) : Prop :=
  ∀ e t, rule.body (inner.failing r u e t) s = .error e t

/-- A parse of the stream starts the production of a rule in a state, with room for so many nested productions: the unit at the
beginning, whether failures are to tell their constructs or not, and whatever the body of a production that was started calls. -/
inductive Stream.Starts (s : Stream) : Nat → {α : Type} → Rule α → ParserState → Prop
  | unit (trace : Bool) : s.Starts maxNesting .unit (.initial s trace)
  | call {room : Nat} {α β : Type} {rule : Rule α} {r : Rule β} {u v : ParserState} (h : s.Starts (room + 1) rule u)
      (hcall : rule.Calls ⟨fun r => Rule.parse room r⟩ (u.enter rule.construct) r v) : s.Starts room r v

section

open Courier.Parser Construct

variable {α β : Type} {rule : Rule α} {r : Rule β} {inner : Inner} {s u : ParserState} {room : Nat}

/-- Where something holds that does not hold of the rule in its state, everything is parsed as before. -/
theorem Inner.failing_eq {P : {α : Type} → Rule α → ParserState → Prop} (hnot : ¬P r u) {α : Type} {r' : Rule α} {s : ParserState}
    (h : P r' s) (e : ParseError) (t : ParserState) : (inner.failing r u e t).parse r' s = inner.parse r' s := by
  refine if_neg ?_
  rintro ⟨hrule, rfl⟩
  obtain ⟨rfl, hrule⟩ := Sigma.mk.inj hrule
  obtain rfl := eq_of_heq hrule
  exact hnot h

theorem Inner.failing_self (r : Rule β) (e : ParseError) (t : ParserState) : (inner.failing r u e t).parse r u = .error e t :=
  if_pos ⟨rfl, rfl⟩

/-! ## What holds of a call -/

/-- Where a production is started, the nodes without a parent are those held, those that its rule is handed, and those made. -/
theorem Rule.Calls.holds (hcall : rule.Calls inner s r u) (h : inner.Grows) {held made : List NodeId}
    (hs : Holds held (rule.uses ++ made) s) : ∃ held made, Holds held (r.uses ++ made) u := by
  by_contra hnot
  have hbroken : Inner.Grows (inner.failing r u default { u with reattached := true }) := by
    intro α r' held made s' hs'
    unfold Yields
    rw [Inner.failing_eq (P := fun r s => ∃ held made, Holds held (r.uses ++ made) s) hnot ⟨held, made, hs'⟩]
    exact h r' held made s' hs'
  have hasserted := (grows_body hbroken rule held made s hs).error (hcall default { u with reattached := true })
  nomatch hasserted

/-- A production is started with no mark saved. -/
theorem Rule.Calls.unmarked (hcall : rule.Calls inner s r u) (h : ∀ {α : Type} (r : Rule α), Truthful (inner.parse r))
    (hs : s.stream.saved = none) : u.stream.saved = none := by
  by_contra hnot
  have hbroken : ∀ {α : Type} (r' : Rule α), Truthful ((inner.failing r u ⟨"", .unbalanced .unit, default, "", none, []⟩ u).parse r') := by
    intro α r' s' hs'
    unfold Yields
    rw [Inner.failing_eq (P := fun _ s => s.stream.saved = none) hnot hs']
    exact h r' s' hs'
  have htruthful := (assembled_body (J := inner) rule).truthful hbroken s hs
  exact (htruthful.error (hcall _ _)).not_internal trivial

/-- A production is started inside of the constructs of the one that calls it, and only by one that may call it. -/
theorem Rule.Calls.constructs (limit : Nat) (hcall : rule.Calls inner s r u) (hs : Nested s.constructs)
    (hlimit : s.constructs.length ≤ limit)
    (h : ∀ {α : Type} (r : Rule α) (t : ParserState), t.constructs = s.constructs → r.construct ∈ rule.construct.calls →
      Follows limit (inner.parse r) t) : u.constructs = s.constructs ∧ r.construct ∈ rule.construct.calls := by
  by_contra hnot
  -- A production that failed and turned the option around would not follow the calls.
  have hfollows : Follows limit (rule.body (inner.failing r u default { u with traces := !s.traces })) s := by
    refine (assembled_body (J := inner) rule).follows hs hlimit (fun r' t ht hr => ?_)
    unfold Follows Yields
    rw [Inner.failing_eq (P := fun r t => t.constructs = s.constructs ∧ r.construct ∈ rule.construct.calls) hnot ⟨ht.constructs, hr⟩]
    exact h r' t ht.constructs hr
  have hturned : (!s.traces) = s.traces := (hfollows.error (hcall _ _)).1
  simp at hturned

/-! ## What holds of a start -/

/-- What holds where a production is started. -/
structure Parser.Started (room : Nat) (r : Rule α) (s : ParserState) : Prop where
  holds : ∃ held made, Holds held (r.uses ++ made) s
  unmarked : s.stream.saved = none
  nested : Nested (r.construct :: s.constructs)
  room_eq : s.constructs.length + room = maxNesting

theorem Parser.Started.call (h : Started (room + 1) rule s)
    (hcall : rule.Calls ⟨fun r => Rule.parse room r⟩ (s.enter rule.construct) r u) : Started room r u := by
  obtain ⟨held, made, hs⟩ := h.holds
  have hentered : Holds held (rule.uses ++ made) (s.enter rule.construct) := ⟨⟨hs.forest, hs.asserted⟩, hs.blocks_held⟩
  have hlength : (s.enter rule.construct).constructs.length + room = maxNesting := by
    rw [← h.room_eq]
    simp only [ParserState.enter, List.length_cons]
    omega
  obtain ⟨hconstructs, hcalls⟩ := hcall.constructs maxNesting h.nested (by omega) (fun r' t ht hr' => by
    have hnested : Nested (r'.construct :: t.constructs) := by
      rw [ht]
      exact .call h.nested hr'
    have hfollows := follows_parse room r' t hnested (fun _ => by rw [ht]; exact List.cons_ne_nil _ _)
    rwa [ht, hlength] at hfollows)
  refine ⟨hcall.holds (grows_parse room) hentered, hcall.unmarked (fun r => truthful_parse room r) h.unmarked, ?_, ?_⟩
  · rw [hconstructs]
    exact .call h.nested hcalls
  · rw [hconstructs]
    exact hlength

theorem Stream.Starts.started {s : Stream} (h : s.Starts room r u) : Started room r u := by
  induction h with
  | unit trace => exact ⟨⟨[], [], holds_initial s trace⟩, rfl, .unit, Nat.zero_add _⟩
  | call _ hcall ih => exact ih.call hcall

/-! ## Starts in a block -/

open ParserState

/-- The state in which a code fragment that begins in this one starts its statements. -/
def ParserState.atStatements (s : ParserState) : ParserState :=
  (s.settle.settle.openNode .codeFragmentBlock s.here).2.taken.settle

/-- The state in which statements that begin in this one start the first of them. -/
def ParserState.atStatement (s : ParserState) : ParserState :=
  (s.settle.openNode .statementsBlock s.here).2.settle

/-- The state in which the first statement of a block is started, where the stream is a code fragment. -/
def Stream.atStatement (s : Stream) (trace : Bool) : ParserState :=
  ((((ParserState.initial s trace).enter .unit).settle.enter .codeFragment).atStatements.enter .statements).atStatement

variable {b t : Token} {v : List Token}

/-- Before a bracket, the unit calls a code fragment. -/
theorem calls_codeFragment (hs : s.significant = b :: v) (hb : b.kind = .leftBrace) : Rule.unit.Calls inner s .codeFragment s.settle := by
  intro e w
  refine bind_eq_of_error ((bind_eq_of_ok (looks_look s)).trans ?_)
  simp only [hs, List.head?_cons, Option.map_some, hb]
  exact Inner.failing_self _ e w

/-- A code fragment calls statements where a name is behind its bracket. -/
theorem calls_statements (hs : s.significant = b :: t :: v) (hb : b.kind = .leftBrace) (ht : t.kind = .identifier) :
    Rule.codeFragment.Calls inner s .statements s.atStatements := by
  intro e w
  have hopened : (s.settle.settle.openNode .codeFragmentBlock s.here).2.significant = b :: t :: v := by
    rw [significant_openNode, significant_settle, significant_settle, hs]
  have htaken := significant_taken hopened
  have hkeyword : t.keyword? = none := Token.keyword?_eq_none (by rw [ht]; decide)
  have hflags := looks_atKind .atSign s.settle
  have hbrace := expect_eq hopened "'\x7b'"
  have hnamespace := looks_atKeyword .namespaceWord (s.settle.settle.openNode .codeFragmentBlock s.here).2.taken
  simp only [significant_settle, hs, htaken, List.head?_cons, Option.map_some, Option.bind_some, hb, hkeyword] at hflags hbrace hnamespace
  refine (bind_eq_of_ok (location_eq_here s)).trans ((bind_eq_of_ok hflags).trans ?_)
  refine (bind_eq_of_ok (m := openNode .codeFragmentBlock s.here) rfl).trans ((bind_eq_of_ok hbrace).trans ?_)
  exact bind_eq_of_error ((bind_eq_of_ok hnamespace).trans (bind_eq_of_error (Inner.failing_self _ e w)))

/-- Statements call a statement where a name is next. -/
theorem calls_statement (hs : s.significant = t :: v) (ht : t.kind = .identifier) :
    Rule.statements.Calls inner s .statement s.atStatement := by
  intro e w
  have hopened : (s.settle.openNode .statementsBlock s.here).2.significant = t :: v := by
    rw [significant_openNode, significant_settle, hs]
  have hgoes := looks_inBlock (s.settle.openNode .statementsBlock s.here).2
  simp only [hopened, List.head?_cons, Option.map_some, ht] at hgoes
  refine (bind_eq_of_ok (location_eq_here s)).trans ((bind_eq_of_ok (m := openNode .statementsBlock s.here) rfl).trans ?_)
  exact bind_eq_of_error (repeatFor_eq_error (.inr ⟨_, hgoes, bind_eq_of_error (Inner.failing_self _ e w)⟩) _)

/-- The first statement of a block is started where it begins with a name. -/
theorem Stream.starts_statement {s : Stream} (hs : significant s.tokens = b :: t :: v) (hb : b.kind = .leftBrace)
    (ht : t.kind = .identifier) (trace : Bool) : s.Starts 253 .statement (s.atStatement trace) := by
  have hfragment : (((ParserState.initial s trace).enter .unit).settle.enter .codeFragment).significant = b :: t :: v :=
    (significant_settle _).trans hs
  have hopened := significant_openNode (((ParserState.initial s trace).enter .unit).settle.enter .codeFragment).settle.settle
    .codeFragmentBlock (((ParserState.initial s trace).enter .unit).settle.enter .codeFragment).here
  rw [significant_settle, significant_settle, hfragment] at hopened
  have hstatements := (significant_settle _).trans (significant_taken hopened)
  have hcall : s.Starts 255 .codeFragment ((ParserState.initial s trace).enter .unit).settle := .call (.unit trace) (calls_codeFragment hs hb)
  exact .call (.call hcall (calls_statements hfragment hb ht)) (calls_statement hstatements ht)

end

end Courier
