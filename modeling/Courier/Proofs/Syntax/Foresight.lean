import Courier.Proofs.Syntax.Choices
import Courier.Proofs.Syntax.Soundness

/-!
# Lookahead and parsing agree

A scan answers before anything is parsed, so a production may be chosen by its answer alone. Where a scan for a variable definition
finds one, the production of variable definitions takes it and stops at the semicolon, and where it finds none, the production or the
semicolon behind it fails (`succeeds_definition_iff`). Where a scan for the target of an assignment finds one, the production of
instances takes it and stops at the operator (`succeeds_target`). No scan changes anything (`lookahead_agrees`).
-/

namespace Courier

/-- The productions that can still be nested in the ones that are active. -/
def ParserState.roomLeft (s : ParserState) : Nat :=
  maxNesting - s.constructs.length

namespace Syntax

open Courier.Parser Courier.Grammar

/-- The parser succeeds from the state. -/
def Succeeds {α : Type} (m : Parser α) (s : ParserState) : Prop :=
  ∃ a t, m s = .ok a t

/-- A variable definition with its semicolon. -/
def closedDefinition (room : Nat) : Parser Token := do
  let _ ← Rule.variableDefinition.parse room
  expect .endOfStatement "';'"

/-- An instance with the operator of an assignment behind it. -/
def plainTarget (room : Nat) : Parser Token := do
  let _ ← Rule.inst.parse room
  expect .assignment "':='"

section

variable {s : ParserState} {w rest : List Token} {t : Token} {room : Nat}

/-- A parser that takes the tokens ahead and may not fail succeeds. -/
theorem Takes.succeeds {α : Type} {m : Parser α} (h : Takes (fun _ _ => False) m w rest) (hsaved : s.stream.saved = none)
    (hs : s.significant = w ++ rest) : Succeeds m s := by
  cases hm : m s with
  | ok a t => exact ⟨a, t, hm⟩
  | error e t =>
    obtain ⟨-, -, hfalse⟩ := (h s hsaved hs).error hm
    exact hfalse.elim

theorem isSome_behindKinds (ks : List TokenKind) (v : List Token) :
    (Scan.behindKinds ks v).isSome = decide (ks <+: v.map Token.kind) := by
  induction ks generalizing v with
  | nil => simp [Scan.behindKinds]
  | cons k ks ih =>
    cases v with
    | nil => simp [Scan.behindKinds]
    | cons t v =>
      rw [Scan.behindKinds, List.map_cons]
      by_cases ht : t.kind = k
      · rw [if_pos ht, ih v]
        simp [List.cons_prefix_cons, ht]
      · rw [if_neg ht]
        simp [List.cons_prefix_cons, Ne.symm ht]

/-- The length of the type does not matter: all of its names are taken by one production. -/
theorem takes_closedDefinition {E : Blame} (hw : Spells typedName w) (ht : t.kind = .endOfStatement) :
    Takes E (closedDefinition (room + 2)) (w ++ [t]) rest := by
  have hdot : Unlike .dot (t :: rest) := by simp [ht]
  have hbody : Takes E (Grammar.variableDefinition ⟨fun r => Rule.parse (room + 1) r⟩) w ([t] ++ rest) :=
    takes_typedNode hw (fun y hy _ => (takes_typeDeclaration hy hdot).guarded) _ _
  have hdefinition : Takes E (Rule.variableDefinition.parse (room + 2)) w ([t] ++ rest) := hbody.guarded
  exact hdefinition.seq (fun _ => takes_expect ht)

theorem takes_plainTarget {E : Blame} (hw : Spells (.symbol .typeName) w) (ht : t.kind = .assignment) :
    Takes E (plainTarget (room + 1)) (w ++ [t]) rest := by
  have hdot : Unlike .dot (t :: rest) := by simp [ht]
  have htarget : Takes E (Rule.inst.parse (room + 1)) w ([t] ++ rest) := (takes_inst (spells_inst_of_typeName hw) hdot).guarded
  exact htarget.seq (fun _ => takes_expect ht)

theorem reads_closedDefinition (v : List Token) :
    Reads v (closedDefinition room) (.seq typedName (.kind .endOfStatement)) :=
  Reads.seq ((sound_parse room).form (r := .variableDefinition) rfl v) (fun _ _ => reads_expect)

/-- A variable definition is parsed to its semicolon where a scan finds one, and nowhere else. -/
theorem succeeds_definition_iff (hsaved : s.stream.saved = none) :
    Succeeds (closedDefinition (room + 2)) s ↔ (Scan.behindDefinition s.significant).isSome = true := by
  rw [behindDefinition_isSome_iff]
  constructor
  · rintro ⟨a, u, hu⟩
    obtain ⟨x, hx, hs⟩ := ((reads_closedDefinition s.significant) s hsaved rfl).ok hu |>.2.2
    obtain ⟨w, y, hw, hy, rfl⟩ := derives_seq.1 hx
    obtain ⟨t, ht, rfl⟩ := derives_kind.1 hy
    exact ⟨w, t, u.significant, hw, ht, by rw [hs, List.append_assoc, List.singleton_append]⟩
  · rintro ⟨w, t, z, hw, ht, hs⟩
    exact (takes_closedDefinition hw ht).succeeds hsaved (by rw [hs, List.append_assoc, List.singleton_append])

/-- The target of an assignment is parsed to the operator where a scan finds it. -/
theorem succeeds_target (hsaved : s.stream.saved = none) (h : (Scan.behindTarget s.significant).isSome = true) :
    Succeeds (plainTarget (room + 1)) s := by
  obtain ⟨w, t, z, hw, ht, hs⟩ := behindTarget_isSome_iff.1 h
  exact (takes_plainTarget hw ht).succeeds hsaved (by rw [hs, List.append_assoc, List.singleton_append])

end

/-- With no mark saved, lookahead leaves the parser as it is: the cursor and the mark, the tree, the nodes that comments go to and
the comments that wait for one. It finds a run of kinds where the tokens that are no comments begin with it. With two productions to
spare, it finds a variable definition exactly where the parser takes one and its semicolon, and where it finds the target of a plain
assignment, the parser takes an instance and the operator. -/
theorem lookahead_agrees {s : ParserState} (hsaved : s.stream.saved = none) :
    (∀ kinds, lookAhead kinds s = .ok (decide (kinds <+: s.significant.map Token.kind)) s) ∧
    (∃ found, looksLikeVariableDefinition s = .ok found s ∧
      (s.constructs.length ≤ 254 → (found = true ↔ Succeeds (closedDefinition s.roomLeft) s))) ∧
    (∃ found, looksLikePlainAssignment s = .ok found s ∧
      (s.constructs.length ≤ 254 → found = true → Succeeds (plainTarget s.roomLeft) s)) := by
  have hroom : s.constructs.length ≤ 254 → ∃ room, s.roomLeft = room + 2 := fun h =>
    ⟨254 - s.constructs.length, by simp only [ParserState.roomLeft, maxNesting]; omega⟩
  refine ⟨fun kinds => ?_, ⟨_, looksLikeVariableDefinition_eq hsaved, fun h => ?_⟩,
    ⟨_, looksLikePlainAssignment_eq hsaved, fun h hfound => ?_⟩⟩
  · rw [lookAhead_eq kinds hsaved, isSome_behindKinds]
  · obtain ⟨room, hroom⟩ := hroom h
    rw [hroom]
    exact (succeeds_definition_iff hsaved).symm
  · obtain ⟨room, hroom⟩ := hroom h
    rw [hroom]
    exact succeeds_target hsaved hfound

theorem lookahead_agrees_member : ∃ s : Stream, Stream.tokenize "unit" "total : core # built in\n . Int;" = .ok s ∧
    (ParserState.initial s true).stream.saved = none ∧
    lookAhead [.identifier, .colon] (.initial s true) = .ok true (.initial s true) ∧
    Succeeds (closedDefinition (ParserState.initial s true).roomLeft) (.initial s true) := by
  obtain ⟨s, hs, hahead, hscan⟩ : ∃ s, Stream.tokenize "unit" "total : core # built in\n . Int;" = .ok s ∧
      (ParserState.initial s true).significant.map Token.kind =
        [.identifier, .colon, .identifier, .dot, .identifier, .endOfStatement] ∧
      (Scan.behindDefinition (ParserState.initial s true).significant).isSome = true :=
    ⟨_, rfl, by decide +kernel, by decide +kernel⟩
  obtain ⟨hkinds, ⟨found, hfound, hagrees⟩, -⟩ := lookahead_agrees (s := .initial s true) rfl
  refine ⟨s, hs, rfl, ?_, (hagrees (Nat.zero_le _)).1 ?_⟩
  · rw [hkinds, hahead]
    rfl
  · rw [looksLikeVariableDefinition_eq rfl, hscan] at hfound
    exact (EStateM.Result.ok.inj hfound).1.symm

end Syntax

end Courier
