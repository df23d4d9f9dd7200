import Courier.Proofs.Parser.Lockstep
import Courier.Proofs.Syntax.Completeness
import Courier.Proofs.Syntax.Prefix

/-!
# Choices by lookahead

Where a production looks far ahead, two runs may choose differently although the tokens they have in common are not passed. Then these
tokens begin a name, or a name with a type, and so a run of either rule that may be chosen (`Heads`). A rule that is in the middle of a
run it accepts does not fail there, so it passes the common tokens whatever stands behind them (`clears_of_takes`).
-/

namespace Courier.Syntax

open Courier.Parser Courier.Grammar

/-- What is granted to a parse of a sentence: its productions may be nested too deeply. -/
abbrev Deep : Blame :=
  fun fault _ => fault = .nestedTooDeeply

/-! ## What a scan finds -/

/-- A run of the form is ahead, with a token of the kind behind it. -/
def Ahead (f : Form Symbol) (k : TokenKind) (v : List Token) : Prop :=
  ∃ w t z, Spells f w ∧ t.kind = k ∧ v = w ++ t :: z

/-- A run that is ahead of some tokens with what stands behind them, and is not with something else behind, begins with all of them. -/
theorem starts_of_ahead {f : Form Symbol} {k : TokenKind} {c x x' : List Token} (h : Ahead f k (c ++ x))
    (h' : ¬Ahead f k (c ++ x')) : Starts f c := by
  obtain ⟨w, t, z, hw, ht, happend⟩ := h
  rcases List.append_eq_append_iff.1 happend with ⟨y, rfl, -⟩ | ⟨y, rfl, hy⟩
  · exact ⟨y, hw⟩
  · cases y with
    | nil => exact starts_of_spells (by rwa [List.append_nil])
    | cons u y =>
      obtain ⟨rfl, rfl⟩ := List.cons.inj hy
      exact absurd ⟨w, t, y ++ x', hw, ht, by simp⟩ h'

/-- A scan for a run answers differently only where the common tokens begin one. -/
theorem starts_of_scan_ne {f : Form Symbol} {k : TokenKind} {scan : List Token → Option (List Token)} {c x x' : List Token}
    (hscan : ∀ v, (scan v).isSome = true ↔ Ahead f k v) (h : (scan (c ++ x)).isSome ≠ (scan (c ++ x')).isSome) : Starts f c := by
  by_cases hx : (scan (c ++ x)).isSome = true
  · exact starts_of_ahead ((hscan _).1 hx) (fun hx' => h (hx.trans ((hscan _).2 hx').symm))
  · by_cases hx' : (scan (c ++ x')).isSome = true
    · exact starts_of_ahead ((hscan _).1 hx') (fun hahead => hx ((hscan _).2 hahead))
    · exact absurd ((Bool.eq_false_iff.2 hx).trans (Bool.eq_false_iff.2 hx').symm) h

theorem exists_of_behindDots {v z : List Token} (h : Scan.behindDots v = some z) : ∃ w, Spells dottedRest w ∧ v = w ++ z := by
  fun_induction Scan.behindDots v with
  | case1 => exact ⟨[], .starNil, by simpa using h⟩
  | case2 t ht => cases h
  | case3 t ht => exact ⟨[], .starNil, by simpa using h⟩
  | case4 t u v ht hu ih =>
    obtain ⟨w, hw, rfl⟩ := ih h
    exact ⟨[t, u] ++ w, .starCons (Derives.seq (v := [t]) (.token ht) (.token hu)) hw, by simp⟩
  | case5 t u v ht hu => cases h
  | case6 t u v ht => exact ⟨[], .starNil, by simpa using h⟩

theorem exists_of_behindName {v z : List Token} (h : Scan.behindName v = some z) :
    ∃ w, Spells (.symbol .typeName) w ∧ v = w ++ z := by
  cases v with
  | nil => simp [Scan.behindName, Scan.behindKinds] at h
  | cons t v =>
    by_cases ht : t.kind = .identifier
    · rw [Scan.behindName, Scan.behindKinds, if_pos ht] at h
      obtain ⟨w, hw, rfl⟩ := exists_of_behindDots h
      exact ⟨t :: w, spells_typeName.2 ⟨t, w, ht, hw, rfl⟩, rfl⟩
    · rw [Scan.behindName, Scan.behindKinds, if_neg ht] at h
      cases h

theorem behindKinds_isSome_iff {k : TokenKind} {v : List Token} :
    (Scan.behindKinds [k] v).isSome = true ↔ ∃ t z, t.kind = k ∧ v = t :: z := by
  cases v with
  | nil => simp [Scan.behindKinds]
  | cons t v => by_cases ht : t.kind = k <;> simp [Scan.behindKinds, ht]

/-- The scan for an assignment to a name finds a dotted name with the operator behind it. -/
theorem behindTarget_isSome_iff {v : List Token} :
    (Scan.behindTarget v).isSome = true ↔ Ahead (.symbol .typeName) .assignment v := by
  constructor
  · intro h
    unfold Scan.behindTarget at h
    cases hname : Scan.behindName v with
    | none =>
      rw [hname] at h
      cases h
    | some y =>
      rw [hname, Option.bind_some] at h
      obtain ⟨w, hw, rfl⟩ := exists_of_behindName hname
      obtain ⟨t, z, ht, rfl⟩ := behindKinds_isSome_iff.1 h
      exact ⟨w, t, z, hw, ht, rfl⟩
  · rintro ⟨w, t, z, hw, ht, rfl⟩
    rw [Scan.behindTarget, behindName_append hw (by simp [ht]), Option.bind_some]
    exact behindKinds_isSome_iff.2 ⟨t, z, ht, rfl⟩

/-- The scan for a variable definition finds a name with a type and a semicolon behind it. -/
theorem behindDefinition_isSome_iff {v : List Token} :
    (Scan.behindDefinition v).isSome = true ↔ Ahead typedName .endOfStatement v := by
  constructor
  · intro h
    rcases v with _ | ⟨t, _ | ⟨c, v⟩⟩
    · simp [Scan.behindDefinition, Scan.behindKinds] at h
    · by_cases ht : t.kind = .identifier <;> simp [Scan.behindDefinition, Scan.behindKinds, ht] at h
    · by_cases ht : t.kind = .identifier
      · by_cases hc : c.kind = .colon
        · simp only [Scan.behindDefinition, Scan.behindKinds, ht, hc, if_true, Option.bind_some] at h
          cases hname : Scan.behindName v with
          | none =>
            rw [hname] at h
            cases h
          | some y =>
            rw [hname, Option.bind_some] at h
            obtain ⟨w, hw, rfl⟩ := exists_of_behindName hname
            obtain ⟨e, z, he, rfl⟩ := behindKinds_isSome_iff.1 h
            exact ⟨t :: c :: w, e, z, spells_typedName.2 ⟨t, c, w, ht, hc, hw, rfl⟩, he, rfl⟩
        · simp [Scan.behindDefinition, Scan.behindKinds, ht, hc] at h
      · simp [Scan.behindDefinition, Scan.behindKinds, ht] at h
  · rintro ⟨w, e, z, hw, he, rfl⟩
    obtain ⟨t, c, y, ht, hc, hy, rfl⟩ := spells_typedName.1 hw
    have hname : Scan.behindName (y ++ e :: z) = some (e :: z) := behindName_append hy (by simp [he])
    simp [Scan.behindDefinition, Scan.behindKinds, ht, hc, hname, he]

/-! ## Choosing a statement -/

/-- The rule that reads a statement whose first token is an identifier. -/
def choiceOf (v : List Token) : Rule NodeId :=
  if (Scan.behindDefinition v).isSome then .variableDefinition
  else if (Scan.behindKinds [.identifier, .colon] v).isSome then .assignment
  else if (Scan.behindTarget v).isSome then .assignment
  else .expression

/-- Where no mark is saved, the lookahead of a statement that begins with a name is a choice by the tokens ahead. -/
theorem namedStatement_eq {inner : Inner} {s : ParserState} (h : s.stream.saved = none) :
    namedStatement inner s = inner.parse (choiceOf s.significant) s := by
  have hdefinition := looksLikeVariableDefinition_eq h
  have htyped := lookAhead_eq [.identifier, .colon] h
  have htarget := looksLikePlainAssignment_eq h
  unfold namedStatement choiceOf atTypedName
  simp only [Bind.bind, EStateM.bind, hdefinition]
  cases (Scan.behindDefinition s.significant).isSome with
  | true => rfl
  | false =>
    simp only [Bool.false_eq_true, if_false, EStateM.bind, htyped]
    cases (Scan.behindKinds [.identifier, .colon] s.significant).isSome with
    | true => rfl
    | false =>
      simp only [Bool.false_eq_true, if_false, EStateM.bind, htarget]
      cases (Scan.behindTarget s.significant).isSome <;> rfl

/-- The tokens begin the name, or the name with a type, that the rule has in front. -/
inductive Heads : Rule NodeId → List Token → Prop where
  | definition {c : List Token} (h : Starts typedName c) : Heads .variableDefinition c
  | typed {c : List Token} (h : Starts typedName c) : Heads .assignment c
  | target {c : List Token} (h : Starts (.symbol .typeName) c) : Heads .assignment c
  | receiver {c : List Token} (h : Starts (.symbol .typeName) c) : Heads .expression c

theorem starts_typeName_of_kind {t : Token} (ht : t.kind = .identifier) : Starts (.symbol .typeName) [t] :=
  starts_of_spells (spells_typeName.2 ⟨t, [], ht, .starNil, rfl⟩)

theorem starts_typedName_of_kind {t : Token} (ht : t.kind = .identifier) : Starts typedName [t] :=
  Starts.seq_left (f := .kind .identifier) (starts_of_spells (.token ht))

theorem choiceOf_of_typed {v : List Token} (h : (Scan.behindKinds [.identifier, .colon] v).isSome = true) :
    choiceOf v = if (Scan.behindDefinition v).isSome then .variableDefinition else .assignment := by
  rw [choiceOf, if_pos h]

theorem choiceOf_of_untyped {v : List Token} (h : (Scan.behindKinds [.identifier, .colon] v).isSome = false) :
    choiceOf v = if (Scan.behindTarget v).isSome then .assignment else .expression := by
  have hdefinition : Scan.behindDefinition v = none := by
    rw [Scan.behindDefinition, Option.isSome_eq_false_iff.1 h |> Option.isNone_iff_eq_none.1, Option.bind_none]
  rw [choiceOf, hdefinition, h]
  rfl

/-- A name begins a run of whichever rule is chosen. -/
theorem heads_choiceOf_name {t : Token} (ht : t.kind = .identifier) (v : List Token) : Heads (choiceOf v) [t] := by
  unfold choiceOf
  split
  · exact .definition (starts_typedName_of_kind ht)
  · split
    · exact .typed (starts_typedName_of_kind ht)
    · split
      · exact .typed (starts_typedName_of_kind ht)
      · exact .receiver (starts_typeName_of_kind ht)

/-- Two tokens tell whether a name with a type is ahead. -/
theorem behindKinds_isSome_eq (t u : Token) (v v' : List Token) :
    (Scan.behindKinds [.identifier, .colon] (t :: u :: v)).isSome = (Scan.behindKinds [.identifier, .colon] (t :: u :: v')).isSome := by
  simp only [Scan.behindKinds]
  split
  · split <;> rfl
  · rfl

/-- Runs whose tokens begin alike are taken for the same statement, unless the common tokens begin a name only. -/
theorem heads_of_choiceOf_ne {c x x' : List Token} (hc : c ≠ []) (h : choiceOf (c ++ x) ≠ choiceOf (c ++ x')) :
    Heads (choiceOf (c ++ x)) c := by
  match c with
  | [t] =>
    by_cases ht : t.kind = .identifier
    · exact heads_choiceOf_name ht _
    · simp [choiceOf, Scan.behindDefinition, Scan.behindTarget, Scan.behindName, Scan.behindKinds, ht] at h
  | t :: u :: c =>
    have htyped : (Scan.behindKinds [.identifier, .colon] (t :: u :: c ++ x)).isSome =
        (Scan.behindKinds [.identifier, .colon] (t :: u :: c ++ x')).isSome :=
      behindKinds_isSome_eq t u (c ++ x) (c ++ x')
    cases htyped' : (Scan.behindKinds [.identifier, .colon] (t :: u :: c ++ x')).isSome with
    | true =>
      rw [htyped'] at htyped
      rw [choiceOf_of_typed htyped, choiceOf_of_typed htyped'] at h
      have hstarts : Starts typedName (t :: u :: c) :=
        starts_of_scan_ne (fun _ => behindDefinition_isSome_iff) (fun heq => h (by rw [heq]))
      rw [choiceOf_of_typed htyped]
      split
      · exact .definition hstarts
      · exact .typed hstarts
    | false =>
      rw [htyped'] at htyped
      rw [choiceOf_of_untyped htyped, choiceOf_of_untyped htyped'] at h
      have hstarts : Starts (.symbol .typeName) (t :: u :: c) :=
        starts_of_scan_ne (fun _ => behindTarget_isSome_iff) (fun heq => h (by rw [heq]))
      rw [choiceOf_of_untyped htyped]
      split
      · exact .target hstarts
      · exact .receiver hstarts

/-- Whether a name with a type is ahead is open only as long as nothing but a name is common. -/
theorem eq_name_of_behindKinds_ne {c x x' : List Token} (hc : c ≠ []) (h : (Scan.behindKinds [.identifier, .colon] (c ++ x)).isSome ≠
    (Scan.behindKinds [.identifier, .colon] (c ++ x')).isSome) : ∃ t : Token, t.kind = .identifier ∧ c = [t] := by
  match c with
  | [t] =>
    by_cases ht : t.kind = .identifier
    · exact ⟨t, ht, rfl⟩
    · simp [Scan.behindKinds, ht] at h
  | t :: u :: c => exact absurd (behindKinds_isSome_eq t u (c ++ x) (c ++ x')) h

/-! ## Passing what is common -/

/-- A parser that takes a run passes the tokens the run begins with, whatever stands behind them: if it stopped or failed among them,
so it would in front of the whole run. -/
theorem clears_of_takes {α : Type} {k : Nat} {m : Parser α} (hm : Lockstep k m m) {c y z x : List Token} (h : Takes Deep m (c ++ y) z)
    (hplain : ∀ t ∈ c ++ (y ++ z), t.isComment = false) {s : ParserState} (hsaved : s.stream.saved = none)
    (hs : s.significant = c ++ x) : Clears k m x s := by
  obtain ⟨s', hs'⟩ : ∃ s' : ParserState, s' = .initial (.ofTokens "" "" (c ++ (y ++ z))) true := ⟨_, rfl⟩
  have hsaved' : s'.stream.saved = none := by rw [hs']; rfl
  have hahead : s'.significant = c ++ (y ++ z) := by
    rw [hs']
    exact List.filter_eq_self.2 (fun t ht => by simp [hplain t ht])
  have hrun := h s' hsaved' (by rw [hahead, List.append_assoc])
  refine Yields.mono (hm c x (y ++ z) s s' ⟨hsaved, hsaved', hs, hahead⟩)
    (fun _ u ⟨hsteady, hlength, htogether⟩ => ⟨hsteady, hlength, htogether.resolve_right ?_⟩) (fun e _ he => ?_)
  · rintro ⟨d, b, u', hd, hn, -, -, hu'⟩
    have hz : u'.significant = z := (hrun.ok hn).2.2
    have hpos := List.length_pos_iff.2 hd
    have hlength := congrArg List.length (hz.symm.trans hu')
    rw [List.length_append, List.length_append] at hlength
    omega
  · rcases he with he | ⟨-, e', u', hn, hfault⟩
    · exact he
    · obtain ⟨v', -, hdeep⟩ := hrun.error hn
      exact .inl (hfault.symm.trans hdeep)

theorem spells_expression_of_inst {w : List Token} (h : Spells (.symbol .inst) w) : Spells (.symbol .expression) w := by
  have hprimary : Spells (.symbol .primary) w := .symbol (.right (.right (.right (.right (.right h)))))
  have hargument : Spells (.symbol .argument) (w ++ []) := .symbol (.seq hprimary (.right .empty))
  rw [List.append_nil] at hargument
  exact .symbol (.right hargument)

/-- A semicolon, at no particular place. -/
abbrev semicolon : Token :=
  (Terminal.kind .endOfStatement).sample

/-- What heads a rule begins a run that the rule takes in front of a semicolon. -/
theorem exists_takes_of_heads {inner : Inner} (h : ∀ n, Accepts Deep n inner) {r : Rule NodeId} {c : List Token} (hc : Heads r c) :
    ∃ y, Takes Deep (inner.parse r) (c ++ y) [semicolon] ∧ ∀ t ∈ c ++ y, t.isComment = false := by
  have htyped : ∀ y, Spells typedName (c ++ y) → ∀ t ∈ c ++ y, t.isComment = false :=
    fun y hy => isComment_of_derives hy (by decide)
  have hassignment : ∀ y, Spells (.choice [typedName, .symbol .inst]) (c ++ y) → (∀ t ∈ c ++ y, t.isComment = false) →
      ∃ y, Takes Deep (inner.parse .assignment) (c ++ y) [semicolon] ∧ ∀ t ∈ c ++ y, t.isComment = false := by
    intro y hy hplain
    obtain ⟨u, hu⟩ := exists_spells (.symbol .argument)
    have hw : Spells (.sequence [.choice [typedName, .symbol .inst], .kind .assignment, .symbol .argument])
        ((c ++ y) ++ ([(Terminal.kind .assignment).sample] ++ u)) := .seq hy (.seq (.token rfl) hu)
    have hrest : ∀ t ∈ (c ++ y) ++ ([(Terminal.kind .assignment).sample] ++ u), t.isComment = false :=
      List.forall_mem_append.2 ⟨hplain, List.forall_mem_append.2 ⟨by decide, isComment_of_spells hu⟩⟩
    rw [List.append_assoc] at hw hrest
    exact ⟨_, (h _).form (r := .assignment) rfl hw (.inl (next_cons.2 rfl)) (Nat.lt_succ_self _), hrest⟩
  cases hc with
  | definition hc =>
    obtain ⟨y, hy⟩ := hc
    exact ⟨y, (h _).form (r := .variableDefinition) rfl hy (unlike_cons.2 (by decide)) (Nat.lt_succ_self _), htyped y hy⟩
  | typed hc =>
    obtain ⟨y, hy⟩ := hc
    exact hassignment y (.left hy) (htyped y hy)
  | target hc =>
    obtain ⟨y, hy⟩ := hc
    exact hassignment y (.right (spells_inst_of_typeName hy)) (isComment_of_spells hy)
  | receiver hc =>
    obtain ⟨y, hy⟩ := hc
    have hexpression := spells_expression_of_inst (spells_inst_of_typeName hy)
    exact ⟨y, (h _).expression (.inl hexpression) (.inl (next_cons.2 rfl)) (Nat.lt_succ_self _), isComment_of_spells hy⟩

section

variable {inner : Inner} (h : ∀ n, Accepts Deep n inner) {k : Nat} {c x : List Token} {s : ParserState}
  (hsaved : s.stream.saved = none) (hs : s.significant = c ++ x)

include h hsaved hs

/-- What heads a rule is passed by it. -/
theorem clears_of_heads {r : Rule NodeId} (hr : Lockstep k (inner.parse r) (inner.parse r)) (hc : Heads r c) :
    Clears k (inner.parse r) x s := by
  obtain ⟨y, htakes, hplain⟩ := exists_takes_of_heads h hc
  have hall : ∀ t ∈ (c ++ y) ++ [semicolon], t.isComment = false := List.forall_mem_append.2 ⟨hplain, by decide⟩
  rw [List.append_assoc] at hall
  exact clears_of_takes hr htakes hall hsaved hs

/-- A name is passed by every rule that takes it. -/
theorem clears_of_name {α : Type} {r : Rule α} {f : Form Symbol} (hr : Lockstep k (inner.parse r) (inner.parse r))
    (hf : r.form? = some f) (hw : Spells f c) (hv : r.Precedes []) (hplain : ∀ t ∈ c, t.isComment = false) :
    Clears k (inner.parse r) x s := by
  have htakes := (h _).form hf hw hv (Nat.lt_succ_self _)
  refine clears_of_takes (y := []) (z := []) hr ?_ ?_ hsaved hs
  · rwa [List.append_nil]
  · rwa [List.append_nil, List.append_nil]

end

end Courier.Syntax
